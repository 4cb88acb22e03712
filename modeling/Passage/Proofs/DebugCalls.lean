import Mathlib.Logic.Relation
import Passage.Proofs.Rewriting

/-!
# Calls of debug

A call of `debug` gives back what it is given and tells of it. So it can be put around any part of a
rule, or be left out: the rule comes to the same value or to a fault of the same kind, and the
messages are the ones that there would have been, with those of the added calls between them
(`debug_calls_idle`). The part may be an operand, a callee, an argument, alone or among others, what
`at` guards, or itself within a call of `debug`. What has to stand for one argument is the part:
nothing at all, or a comma chain, would be another number of arguments for `debug`.
-/
namespace Passage

open Passage.Action

namespace Event

def isMessage : Event → Bool
  | message _ => true
  | hostCall _ _ _ | verdict _ _ _ | pass _ _ => false

/-- The second account is the first one without some of its messages. -/
structure Quieter (told told' : List Event) : Prop where
  sublist : told'.Sublist told
  rest : told'.filter (!·.isMessage) = told.filter (!·.isMessage)

namespace Quieter

variable {told told' told'' : List Event}

theorem refl (told : List Event) : Quieter told told := ⟨.refl told, rfl⟩

theorem trans (h : Quieter told told') (h' : Quieter told' told'') : Quieter told told'' :=
  ⟨h'.sublist.trans h.sublist, h'.rest.trans h.rest⟩

theorem append (h : Quieter told told') (more : List Event) :
    Quieter (told ++ more) (told' ++ more) := by
  refine ⟨h.sublist.append_right more, ?_⟩
  rw [List.filter_append, List.filter_append, h.rest]

theorem message (h : Quieter told told') (text : String) :
    Quieter (told ++ [.message text]) told' := by
  refine ⟨h.sublist.trans (List.sublist_append_left _ _), ?_⟩
  rw [List.filter_append, h.rest]
  exact (List.append_nil _).symm

end Quieter

end Event

namespace Expr

/-- The second expression is the first one without a call of `debug`, which is somewhere in it, but
not in the body of a function. -/
inductive Quieted : Expr → Expr → Prop
  | here {x : Expr} : x.Single → Quieted (.call (.var "debug") x) x
  | callee {callee callee' : Expr} (args : Expr) : Quieted callee callee' →
      Quieted (.call callee args) (.call callee' args)
  | args (callee : Expr) {args args' : Expr} :
    Quieted args args' → Quieted (.call callee args) (.call callee args')
  | lhs (op : BinaryOp) {lhs lhs' : Expr} (rhs : Expr) : Quieted lhs lhs' →
      Quieted (.binary op lhs rhs) (.binary op lhs' rhs)
  | rhs (op : BinaryOp) (lhs : Expr) {rhs rhs' : Expr} : Quieted rhs rhs' →
      Quieted (.binary op lhs rhs) (.binary op lhs rhs')

theorem Quieted.natives {Q : Native → Prop} {e e' : Expr} (h : Quieted e e') (he : e.Natives Q) :
    e'.Natives Q := by
  induction h with
  | here _ => exact he.2
  | callee args _ ih => exact ⟨ih he.1, he.2⟩
  | args callee _ ih => exact ⟨he.1, ih he.2⟩
  | lhs op rhs _ ih => exact ⟨ih he.1, he.2⟩
  | rhs op lhs _ ih => exact ⟨he.1, ih he.2⟩

/-- A call of `debug` with what it is given, or a part that stays. -/
inductive Hushed : Expr → Expr → Prop
  | here {x : Expr} : x.Single → x.Natives Native.EagerButAt → Hushed (.call (.var "debug") x) x
  | kept {x : Expr} : x.Single → x.Natives Native.EagerButAt → Hushed x x

theorem rewritten_self {e : Expr} (he : e.Natives Native.EagerButAt) : e.Rewritten Hushed e := by
  induction e with
  | empty => exact .empty
  | call callee args ihc iha => exact .call (ihc he.1) (iha he.2)
  | binary op lhs rhs ihl ihr => exact .binary op (ihl he.1) (ihr he.2)
  | _ => exact .base (.kept ⟨nofun, nofun⟩ he)

theorem Quieted.rewritten {e e' : Expr} (h : Quieted e e') (he : e.Natives Native.EagerButAt) :
    e.Rewritten Hushed e' := by
  induction h with
  | here hx => exact .base (.here hx he.2)
  | callee args _ ih => exact .call (ih he.1) (rewritten_self he.2)
  | args callee _ ih => exact .call (rewritten_self he.1) (ih he.2)
  | lhs op rhs _ ih => exact .binary op (ih he.1) (rewritten_self he.2)
  | rhs op lhs _ ih => exact .binary op (rewritten_self he.1) (ih he.2)

theorem Hushed.natives {e e' : Expr} (h : Hushed e e') :
    e.Natives Native.EagerButAt ∧ e'.Natives Native.EagerButAt := by
  cases h with
  | here _ hx => exact ⟨⟨trivial, hx⟩, hx⟩
  | kept _ hx => exact ⟨hx, hx⟩

theorem Hushed.single {e e' : Expr} (h : Hushed e e') : e.Single ∧ e'.Single := by
  cases h with
  | here hx _ => exact ⟨⟨nofun, nofun⟩, hx⟩
  | kept hx _ => exact ⟨hx, hx⟩

end Expr

section

variable {env : Env} {context : Option String}

/-- Telling of a value before it is given back. -/
def Eval.tellOf (value : Expr) : Eval Expr := do
  Eval.note (.message value.render)
  return value

theorem outcome_debug {now : Env}
    (hname : now.lookup "debug" context = .ok (.native .debug)) {x : Expr} (hx : x.Single)
    (depth : Nat) :
    (evaluate context (depth + 2) (.call (.var "debug") x)).outcome now =
      (evaluate context (depth + 1) x >>= Eval.tellOf).outcome now := by
  have hcallee : (evaluate context (depth + 1) (.var "debug")).outcome now =
      some (.ok (.native .debug), now) := by
    show some (now.lookup "debug" context, now) = _
    rw [hname]
  show (evaluate context (depth + 1) (.var "debug") >>= _).outcome now = _
  rw [outcome_bind_ok hcallee, hx.arguments]
  show ([x].mapM (evaluate context (depth + 1)) >>= fun values =>
    applyNative _ context .debug values).outcome now = _
  simp only [List.mapM_cons, List.mapM_nil, bind_assoc, pure_bind]
  rfl

theorem Env.paired_quieter (env : Env) : Env.Paired Event.Quieter env env :=
  ⟨rfl, fun h more => h.append more⟩

theorem Env.Apace.message {now now' : Env} (h : Env.Apace Event.Quieter env env now now')
    (text : String) : Env.Apace Event.Quieter env env (now.note (.message text)) now' := by
  obtain ⟨news, news', hnews, hnews', hj⟩ := h.told
  refine ⟨h.left, h.right, news ++ [.message text], news', ?_, hnews', hj.message text⟩
  show now.journal ++ _ = _
  rw [hnews, List.append_assoc]

theorem same_tellOf (value : Expr) :
    Eval.Same Event.Quieter env env (Eval.tellOf value) (pure value) := by
  intro now now' h result after ho
  cases ho
  exact ⟨.ok value, now', rfl, rfl, h.message value.render⟩

theorem Env.Apace.swap {J : List Event → List Event → Prop} {s t now now' : Env}
    (h : Env.Apace J s t now now') : Env.Apace (flip J) t s now' now := by
  obtain ⟨news, news', hnews, hnews', hj⟩ := h.told
  exact ⟨h.right, h.left, news', news, hnews', hnews, hj⟩

theorem same_pure_tellOf (value : Expr) :
    Eval.Same (flip Event.Quieter) env env (pure value) (Eval.tellOf value) := by
  intro now now' h result after ho
  cases ho
  exact ⟨.ok value, _, rfl, rfl, (h.swap.message value.render).swap⟩

/-- Calls of `debug` left out, or put in. -/
theorem Rewriting.hushed (hoffers : env.Offers Native.EagerButAt)
    (hname : env.lookup "debug" context = .ok (.native .debug)) :
    Rewriting Native.EagerButAt Event.Quieter Expr.Hushed env env context where
  toPaired := env.paired_quieter
  eager _ hn := hn
  texts _ _ := rfl
  offers := ⟨hoffers, hoffers⟩
  natives h := h.natives
  single h := h.single
  forth := by
    intro e e' h depth depth' hle
    cases h with
    | kept _ _ => exact env.paired_quieter.same_of_innermost (fun _ => rfl) (by omega) e
    | here hx _ =>
      -- The call goes one level deeper than what it is given.
      rcases depth with _ | _ | depth
      · exact matches_tooDeep _
      · exact matches_tooDeep _
      · intro now now' h result after ho
        have hnow : now.lookup "debug" context = .ok (.native .debug) :=
          (congrArg (·.lookup "debug" context) h.left).trans hname
        have hpart : Eval.Same Event.Quieter env env (evaluate context (depth + 1) e')
            (evaluate context depth' e') :=
          env.paired_quieter.same_of_innermost (fun _ => rfl) (by omega) e'
        rw [outcome_debug hnow hx] at ho
        rw [← bind_pure (evaluate context depth' e')]
        refine matches_bind hpart (fun value _ heq => ?_) now now' h result after ho
        cases heq
        exact same_tellOf value
  back := by
    intro e e' h depth depth' hle
    cases h with
    | kept _ _ => exact env.paired_quieter.symm.same_of_innermost (fun _ => rfl) (by omega) e
    | here hx _ =>
      rcases depth with _ | depth
      · exact matches_tooDeep _
      · obtain ⟨lower, rfl⟩ : ∃ lower, depth' = lower + 2 := ⟨depth' - 2, by omega⟩
        intro now now' h result after ho
        have hnow : now'.lookup "debug" context = .ok (.native .debug) :=
          (congrArg (·.lookup "debug" context) h.right).trans hname
        have hpart : Eval.Same (flip Event.Quieter) env env (evaluate context (depth + 1) e')
            (evaluate context (lower + 1) e') :=
              env.paired_quieter.symm.same_of_innermost (fun _ => rfl) (by omega) e'
        rw [outcome_debug hnow hx]
        rw [← bind_pure (evaluate context (depth + 1) e')] at ho
        refine matches_bind hpart (fun value _ heq => ?_) now now' h result after ho
        cases heq
        exact same_pure_tellOf value

end

/-- With no call in progress and with `debug` as it was built in, calls of `debug` are left out of
an expression, one after the other. It still comes to a value if it did, and to the same one, and to
a fault if it did, of the same kind; what is told is what was told before, without some of the
messages. No function but `at` receives its arguments unevaluated. -/
theorem debug_calls_idle {env : Env} (hstack : env.stack = [])
    (hselector : env.config.selector ≠ "debug")
    (hdebug : env.globals.get? "debug" = some (.native .debug))
    (hoffers : env.Offers Native.EagerButAt) {e e' : Expr} (he : e.Natives Native.EagerButAt)
    (h : Relation.ReflTransGen Expr.Quieted e e')
    (context : Option String) (result : Except FaultKind Expr) :
    (∀ told, env.Tells context e result told →
        ∃ told', env.Tells context e' result told' ∧ Event.Quieter told told') ∧
      ∀ told', env.Tells context e' result told' →
        ∃ told, env.Tells context e result told ∧ Event.Quieter told told' := by
  have hname : env.lookup "debug" context = .ok (.native .debug) :=
    Env.lookup_of_global (Env.local?_of_stack_nil hstack "debug") hselector.symm hdebug context
  induction h using Relation.ReflTransGen.head_induction_on with
  | refl =>
    exact ⟨fun told htold => ⟨told, htold, .refl told⟩, fun told htold => ⟨told, htold, .refl told⟩⟩
  | head hstep _ ih =>
    obtain ⟨hthere, hback⟩ := ih (hstep.natives he)
    have hrewritten := hstep.rewritten he
    have hhushed := Rewriting.hushed hoffers hname
    constructor
    · intro told htold
      obtain ⟨mid, hmid, hquieter⟩ := hhushed.exists_tells (.refl []) hrewritten htold
      obtain ⟨told', htold', hquieter'⟩ := hthere mid hmid
      exact ⟨told', htold', hquieter.trans hquieter'⟩
    · intro told' htold'
      obtain ⟨mid, hmid, hquieter'⟩ := hback told' htold'
      obtain ⟨told, htold, hquieter⟩ := hhushed.symm.exists_tells (.refl []) hrewritten.flip hmid
      exact ⟨told, htold, hquieter.trans hquieter'⟩

/-- Four calls are left out: around the callee, around the region, around what is guarded and around
a callee in there. One stays, and it tells what it told before. -/
theorem debug_calls_idle_but_one :
    let isGate : Expr := .function ["x"] (.binary .equal (.var "x") (.text "gate"))
    let globals := Env.builtins.insertAll [("key", .bool true), ("isGate", isGate)]
    let env := { Env.fresh {} globals Env.noHosts with
      graphs := .ofList [("ADULT", .ofEdges [("home", "gate")])], graphRoot := some "home" }
    let debug (e : Expr) : Expr := .call (.var "debug") e
    let e : Expr := .call (debug (.var "at")) (.binary .sequence (debug (.text "gate"))
      (debug (.binary .and (debug (.var "key")) (.call (debug (.var "isGate")) (.text "gate")))))
    let e' : Expr := .call (.var "at") (.binary .sequence (.text "gate")
      (.binary .and (debug (.var "key")) (.call (.var "isGate") (.text "gate"))))
    env.Offers Native.EagerButAt ∧ Relation.ReflTransGen Expr.Quieted e e' ∧
    (∀ result,
      (∀ told, env.Tells none e result told →
        ∃ told', env.Tells none e' result told' ∧ Event.Quieter told told') ∧
      ∀ told', env.Tells none e' result told' →
        ∃ told, env.Tells none e result told ∧ Event.Quieter told told') ∧
    env.Tells none e (.ok (.bool true)) [.message "built-in function", .message "\"gate\"",
      .message "TRUE", .message "(x) \x7b (x == \"gate\") \x7d", .message "TRUE"] ∧
    env.Tells none e' (.ok (.bool true)) [.message "TRUE"] := by
  intro isGate globals env debug e e'
  have hoffers : env.Offers Native.EagerButAt := by
    refine ⟨?_, fun frame hframe => absurd hframe List.not_mem_nil, fun _ _ _ _ => trivial⟩
    have hbuiltins : Env.builtins.All (Expr.Natives Native.EagerButAt) :=
      Env.all_builtins nofun nofun fun _ => rfl
    refine hbuiltins.insertAll ?_
    simp [isGate, Expr.Natives]
  have he : e.Natives Native.EagerButAt := by simp [e, debug, Expr.Natives]
  have hsteps : Relation.ReflTransGen Expr.Quieted e e' :=
    .head (.callee _ (.here ⟨nofun, nofun⟩)) <|
    .head (.args _ (.lhs _ _ (.here ⟨nofun, nofun⟩))) <|
    .head (.args _ (.rhs _ _ (.here ⟨nofun, nofun⟩))) <|
    .head (.args _ (.rhs _ _ (.rhs _ _ (.callee _ (.here ⟨nofun, nofun⟩))))) .refl
  refine ⟨hoffers, hsteps, fun result => ?_, Env.tells_of_run 9 (by decide +kernel),
    Env.tells_of_run 9 (by decide +kernel)⟩
  exact debug_calls_idle rfl (by decide) rfl hoffers he hsteps none result

end Passage
