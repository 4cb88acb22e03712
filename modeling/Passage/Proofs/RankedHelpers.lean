import Passage.Proofs.Sight
import Passage.Proofs.Upkeep

/-!
# Ranked helpers

Helpers that call each other in a circle never return, and a function that is called through a
parameter can close such a circle unseen. Neither can happen where every callee is the global name
of `debug`, of `at` or of a helper, and every helper calls helpers of a lower rank only: whatever is
handed on, functions included, is never called. Then there is a depth that suffices for every
context, whatever is published (`ranked_helpers_end`). Each step of an evaluation goes to a part of
the expression at hand or to the body of a helper of lower rank, so a depth of the height of the
expression and, for each rank below, that of the tallest body is enough.
-/
namespace Passage

open Passage.Action

namespace Expr

/-- The callees in an expression are variables whose names have a property. Nothing is said of the
bodies of its functions. -/
def Callees (P : String → Prop) : Expr → Prop
  | .call (.var name) args => P name ∧ args.Callees P
  | .call _ _ => False
  | .binary _ lhs rhs => lhs.Callees P ∧ rhs.Callees P
  | .empty | .bool _ | .text _ | .var _ | .native _ | .function _ _ => True

theorem Callees.imp {P P' : String → Prop} (himp : ∀ name, P name → P' name) {e : Expr}
    (h : e.Callees P) : e.Callees P' := by
  induction e with
  | call callee args _ ih =>
    cases callee with
    | var name => exact ⟨himp name h.1, ih h.2⟩
    | _ => exact h
  | binary op lhs rhs ihl ihr => exact ⟨ihl h.1, ihr h.2⟩
  | _ => trivial

/-- How deep the parts of an expression go, the bodies of its functions aside. -/
def height : Expr → Nat
  | .call callee args => max callee.height args.height + 1
  | .binary _ lhs rhs => max lhs.height rhs.height + 1
  | .empty | .bool _ | .text _ | .var _ | .native _ | .function _ _ => 1

def bodyHeight : Expr → Nat
  | .function _ body => body.height
  | _ => 0

theorem height_pos (e : Expr) : 0 < e.height := by
  cases e with
  | call _ _ | binary _ _ _ => exact Nat.succ_pos _
  | _ => exact Nat.one_pos

theorem height_arguments (e : Expr) : ∀ arg ∈ e.arguments, arg.height ≤ e.height := by
  refine forall_arguments (P := fun part => part.height ≤
    e.height) (fun lhs rhs h => ?_) (Nat.le_refl _)
  rw [height] at h
  omega

end Expr

namespace Table

theorem exists_bound {α : Type} (t : Table α) (f : String → α → Nat) :
    ∃ bound, ∀ name value, t.get? name = some value → f name value ≤ bound := by
  obtain ⟨bound, hbound⟩ : ∃ bound, ∀ entry ∈ t.entries, f entry.1 entry.2 ≤ bound := by
    induction t.entries with
    | nil => exact ⟨0, fun entry hentry => absurd hentry List.not_mem_nil⟩
    | cons entry rest ih =>
      obtain ⟨bound, hbound⟩ := ih
      refine ⟨max (f entry.1 entry.2) bound,
        List.forall_mem_cons.mpr ⟨Nat.le_max_left _ _, fun other hother => ?_⟩⟩
      exact Nat.le_trans (hbound other hother) (Nat.le_max_right _ _)
  exact ⟨bound, fun name value hvalue => hbound (name, value) (get?_eq_some_iff.mp hvalue)⟩

end Table

namespace Env

/-- A name is globally bound to a function of the rule language. -/
def Helps (env : Env) (name : String) (params : List String) (body : Expr) : Prop :=
  env.globals.get? name = some (.function params body)

/-- A name that is globally bound to `debug`, `at` or a helper, and that is not the selector. -/
def Callable (env : Env) (name : String) : Prop :=
  name ≠ env.config.selector ∧ (env.globals.get? name = some (.native .debug) ∨
    env.globals.get? name = some (.native .atPlace) ∨ ∃ params body, env.Helps name params body)

/-- If a name stands for a helper, then for one below the bound. -/
def Below (env : Env) (rank : String → Nat) (bound : Nat) (name : String) : Prop :=
  ∀ params body, env.Helps name params body → rank name < bound

/-- A helper calls what is callable, by names that are not its parameters, and only helpers of lower
rank. -/
def Ranked (env : Env) (rank : String → Nat) : Prop :=
  ∀ name params body, env.Helps name params body →
    body.Callees fun callee => callee ∉ params ∧ env.Callable callee ∧
      env.Below rank (rank name) callee

/-- From all environments that look the same to rules, the action comes to an end, and they look the
same after it. -/
def Completes (env : Env) (act : Eval α) : Prop :=
  ∀ now, now.visible = env.visible →
    ∃ result after, act.outcome now = some (result, after) ∧ after.visible = env.visible

variable {env : Env} {context : Option String}

theorem completes_pure (a : α) : env.Completes (pure a) := fun now h => ⟨_, now, rfl, h⟩

theorem completes_throw (fault : Fault) : env.Completes (throw fault : Eval α) :=
  fun now h => ⟨_, now, rfl, h⟩

theorem completes_ofExcept (result : Except Fault α) : env.Completes (Action.ofExcept result) :=
  fun now h => ⟨_, now, rfl, h⟩

theorem completes_read (f : Env → α) : env.Completes (Action.read f) :=
  fun now h => ⟨_, now, rfl, h⟩

theorem completes_note (event : Event) : env.Completes (Eval.note event) :=
  fun _ h => ⟨_, _, rfl, h⟩

theorem completes_lookup (name : String) : env.Completes (Eval.lookup name context) :=
  fun now h => ⟨_, now, rfl, h⟩

theorem completes_bind {act : Eval α} {next : α → Eval β} (h : env.Completes act)
    (hnext : ∀ a, env.Completes (next a)) : env.Completes (act >>= next) := by
  intro now hnow
  obtain ⟨result, mid, hact, hmid⟩ := h now hnow
  cases result with
  | ok a =>
    rw [outcome_bind_ok hact]
    exact hnext a mid hmid
  | error fault => exact ⟨_, mid, outcome_bind_error hact next, hmid⟩

theorem completes_mapM {act : α → Eval β} {list : List α} (h : ∀ a ∈ list, env.Completes (act a)) :
    env.Completes (list.mapM act) := by
  induction list with
  | nil => exact completes_pure []
  | cons a rest ih =>
    rw [List.mapM_cons]
    refine completes_bind (h a List.mem_cons_self) fun b => ?_
    refine completes_bind (ih fun c hc => h c (List.mem_cons_of_mem _ hc)) fun bs => ?_
    exact completes_pure _

theorem completes_inFrame {frame : Frame} {body : Eval Expr} (h : (env.push frame).Completes body) :
    env.Completes (Eval.inFrame frame body) := by
  intro now hnow
  obtain ⟨result, inner, hbody, hinner⟩ :=
    h (now.push frame) (by rw [visible_push, hnow, visible_push])
  refine ⟨result, inner.pop, Eval.outcome_inFrame hbody, ?_⟩
  rw [visible_pop, hinner]
  rfl

/-- The frame of a call says nothing about names that are not parameters. -/
theorem local?_push_zip {params : List String} (values : List Expr) {name : String}
    (h : name ∉ params) : (env.push (.ofList (params.zip values))).local? name = none := by
  refine (Table.get?_insertAll_of_notMem .empty fun hname => ?_).trans (Table.get?_empty name)
  obtain ⟨binding, hbinding, rfl⟩ := List.mem_map.mp hname
  exact h (List.of_mem_zip hbinding).1

/-- The callees can be told before anything is evaluated: they are global, and none is of the bound
or above. -/
def Calls (env : Env) (rank : String → Nat) (bound : Nat) (e : Expr) : Prop :=
  e.Callees fun name => env.local? name = none ∧ env.Callable name ∧ env.Below rank bound name

variable {rank : String → Nat} {bound : Nat}

theorem Calls.arguments {e : Expr} (h : env.Calls rank bound e) :
    ∀ arg ∈ e.arguments, env.Calls rank bound arg :=
  Expr.forall_arguments (fun _ _ h => h) h

theorem Ranked.push (h : env.Ranked rank) (frame : Frame) : (env.push frame).Ranked rank := h

/-- Whatever a helper is given, the callees in its body are global and of lower rank. -/
theorem Ranked.calls (h : env.Ranked rank) {name : String} {params : List String} {body : Expr}
    (hname : env.Helps name params body) (values : List Expr) :
    (env.push (.ofList (params.zip values))).Calls rank (rank name) body :=
  (h name params body hname).imp fun _ hcallee => ⟨local?_push_zip values hcallee.1, hcallee.2⟩

theorem completes_debug (ev : Expr → Eval Expr) (args : List Expr) :
    env.Completes (applyNative ev context .debug args) := by
  match args with
  | [value] => exact completes_bind (completes_note _) fun _ => completes_pure value
  | [] | _ :: _ :: _ => exact completes_throw _

/-- `at` evaluates its arguments, the second one perhaps, and nothing else. -/
theorem completes_atPlace {ev : Expr → Eval Expr} {args : List Expr}
    (h : ∀ arg ∈ args, env.Completes (ev arg)) :
    env.Completes (applyNative ev context .atPlace args) := by
  match args with
  | [place, guarded] =>
    refine completes_bind (h place (by simp)) fun value => ?_
    cases value with
    | text region =>
      refine completes_bind (completes_read _) fun reached => ?_
      cases reached with
      | true => exact h guarded (by simp)
      | false => exact completes_pure _
    | _ => exact completes_throw _
  | [] | [_] | _ :: _ :: _ :: _ => exact completes_throw _

/-- What is called by its name comes to an end once its arguments do, and the body of a helper on
any values. -/
theorem completes_apply {ev : Expr → Eval Expr} {name : String} {args : List Expr} {f : Expr}
    (hname : env.Callable name) (hf : env.globals.get? name = some f)
    (hargs : ∀ arg ∈ args, env.Completes (ev arg))
    (hbody : ∀ params body, env.Helps name params body → ∀ values,
      (env.push (.ofList (params.zip values))).Completes (ev body)) :
    env.Completes (apply ev context (.var name) args f) := by
  have hvalues := completes_mapM hargs
  rcases hname.2 with hdebug | hat | ⟨params, body, hhelper⟩
  · obtain rfl := Option.some.inj (hf.symm.trans hdebug)
    exact completes_bind hvalues fun values => completes_debug ev values
  · obtain rfl := Option.some.inj (hf.symm.trans hat)
    exact completes_atPlace hargs
  · obtain rfl := Option.some.inj (hf.symm.trans hhelper)
    refine completes_bind hvalues fun values => completes_bind (completes_read _) fun strict => ?_
    split
    · exact completes_throw _
    · exact completes_inFrame (hbody params body hhelper values)

theorem Callable.exists_global {name : String} (h : env.Callable name) :
    ∃ value, env.globals.get? name = some value := by
  rcases h.2 with hdebug | hat | ⟨params, body, hhelper⟩
  · exact ⟨_, hdebug⟩
  · exact ⟨_, hat⟩
  · exact ⟨_, hhelper⟩

/-- A depth that suffices: the height of the expression, and for each rank that it may call the
height of the tallest body. -/
theorem Ranked.completes_evaluate (h : env.Ranked rank) {tallest : Nat}
    (htallest : ∀ name params body, env.Helps name params body → body.height ≤ tallest) {e : Expr}
    (he : env.Calls rank bound e) {depth : Nat} (hdepth : e.height + bound * tallest ≤ depth) :
    env.Completes (evaluate context depth e) := by
  induction depth generalizing env bound e with
  | zero =>
    have := e.height_pos
    omega
  | succ depth ih =>
    cases e with
    | var name => exact completes_lookup name
    | binary op lhs rhs =>
      rw [Expr.height] at hdepth
      cases op with
      | sequence => exact completes_throw _
      | or | and | equal =>
        refine completes_bind (ih h htallest he.1 (by omega)) fun l => ?_
        exact completes_bind (ih h htallest he.2 (by omega)) fun r => completes_ofExcept _
    | call callee args =>
      rw [Expr.height] at hdepth
      cases callee with
      | var name =>
        obtain ⟨⟨hlocal, hname, hbelow⟩, hargs⟩ := he
        obtain ⟨f, hf⟩ := hname.exists_global
        obtain ⟨lower, rfl⟩ : ∃ lower, depth = lower + 1 :=
          ⟨depth - 1, by have := args.height_pos; omega⟩
        intro now hnow
        have hcallee : (evaluate context (lower + 1) (.var name)).outcome now =
            some (.ok f, now) := by
          show some (now.lookup name context, now) = _
          rw [← now.lookup_visible, hnow, lookup_visible, lookup_of_global hlocal hname.1 hf]
        show ∃ result after, (evaluate context (lower + 1) (.var name) >>= _).outcome now = _ ∧ _
        rw [outcome_bind_ok hcallee]
        refine completes_apply hname hf (fun arg harg => ?_)
          (fun params body hhelper values => ?_) now hnow
        · have := args.height_arguments arg harg
          exact ih h htallest (Calls.arguments hargs arg harg) (by omega)
        · -- One rank down pays for the body, however tall it is.
          have hrank : rank name < bound := hbelow params body hhelper
          have hheight : body.height ≤ tallest := htallest name params body hhelper
          have hpaid : (rank name + 1) * tallest ≤ bound * tallest := Nat.mul_le_mul_right _ hrank
          rw [Nat.add_mul, Nat.one_mul] at hpaid
          exact ih (h.push _) htallest (h.calls hhelper values) (by omega)
      | _ => exact he.elim
    | empty | bool _ | text _ | function _ _ | native _ => exact completes_pure _

end Env

/-- With no call in progress, a rule whose callees are global names of `debug`, `at` and helpers
comes to an end, with a value or a failure, if helpers can be ranked so that each calls only those
of a lower rank, by names that are none of its parameters. One depth suffices for every context and
all published graphs, and for the body of each helper as well, whatever values its parameters stand
for, functions included. -/
theorem ranked_helpers_end {env : Env} (hstack : env.stack = []) {rank : String → Nat}
    (hranked : env.Ranked rank) {e : Expr} (he : e.Callees env.Callable) :
    ∃ enough, ∀ depth ≥ enough, ∀ context graphs graphRoot,
      let now := { env with graphs := graphs, graphRoot := graphRoot }
      (∃ result after, (evaluate context depth e).outcome now = some (result, after)) ∧
      ∀ name params body values, env.Helps name params body → ∃ result after,
        (evaluate context depth body).outcome (now.push (.ofList (params.zip values))) =
          some (result, after) := by
  obtain ⟨bound, hbound⟩ := env.globals.exists_bound fun name _ => rank name + 1
  obtain ⟨tallest, htallest⟩ := env.globals.exists_bound fun _ value => value.bodyHeight
  have htallest (name params body) (h : env.Helps name params body) : body.height ≤ tallest :=
    htallest name _ h
  refine ⟨e.height + tallest + bound * tallest, ?_⟩
  intro depth hdepth context graphs graphRoot now
  have hnow : now.Ranked rank := hranked
  constructor
  · have hcalls : now.Calls rank bound e := he.imp fun name hname =>
      ⟨Env.local?_of_stack_nil hstack name, hname, fun _ _ hhelper => hbound name _ hhelper⟩
    have hends : now.Completes (evaluate context depth e) :=
      hnow.completes_evaluate htallest hcalls (by omega)
    obtain ⟨result, after, ho, -⟩ := hends now rfl
    exact ⟨result, after, ho⟩
  · intro name params body values hhelper
    have hrank : rank name < bound := hbound name _ hhelper
    have hheight : body.height ≤ tallest := htallest name params body hhelper
    have hpaid : rank name * tallest ≤ bound * tallest :=
      Nat.mul_le_mul_right _ (Nat.le_of_lt hrank)
    have hends : (now.push (.ofList (params.zip values))).Completes (evaluate context depth body) :=
      (hnow.push _).completes_evaluate htallest (hnow.calls hhelper values) (by omega)
    obtain ⟨result, after, ho, -⟩ := hends _ rfl
    exact ⟨result, after, ho⟩

/-- A function that would call what it is given on itself is handed on through two helpers, and
comes back untouched where the gate is reached. In place of the gate the outer helper refuses it,
and does so at the same depth. -/
theorem ranked_helpers_end_handed_on :
    let loop : Expr := .function ["x"] (.call (.var "x") (.var "x"))
    let behind : Expr := .call (.var "at")
      (.binary .sequence (.var "place") (.call (.var "tell") (.var "f")))
    let globals := (Env.builtins.insert "tell"
      (.function ["x"] (.call (.var "debug") (.var "x")))).insert "behind"
      (.function ["place", "f"] behind)
    let env : Env := .fresh {} globals Env.noHosts
    let rank := fun name => if name = "behind" then 1 else 0
    let e : Expr := .call (.var "behind") (.binary .sequence
      (.call (.var "tell") (.text "gate")) loop)
    env.Ranked rank ∧ e.Callees env.Callable ∧
    (∃ enough, ∀ depth ≥ enough, ∀ context graphs graphRoot,
      let now := { env with graphs := graphs, graphRoot := graphRoot }
      (∃ result after, (evaluate context depth e).outcome now = some (result, after)) ∧
      ∃ result after, (evaluate context depth behind).outcome
        (now.push (.ofList [("place", loop), ("f", loop)])) =
        some (result, after)) ∧
    let reached := { env with
      graphs := .ofList [("ADULT", .ofEdges [("home", "gate")])], graphRoot := some "home" }
    ((evaluate none 8 e).outcome reached).map Prod.fst = some (.ok loop) ∧
    ((evaluate none 8 behind).outcome (reached.push (.ofList [("place", loop), ("f", loop)]))).map
      Prod.fst =
      some (.error (.placeNotText loop)) := by
  intro loop behind globals env rank e
  have hat : env.Callable "at" := ⟨by decide, .inr (.inl rfl)⟩
  have hdebug : env.Callable "debug" := ⟨by decide, .inl rfl⟩
  have htell : env.Callable "tell" := ⟨by decide, .inr (.inr ⟨_, _, rfl⟩)⟩
  have hbehind : env.Callable "behind" := ⟨by decide, .inr (.inr ⟨_, _, rfl⟩)⟩
  have hranked : env.Ranked rank := by
    intro name params body hhelper
    have hentry : (name, Expr.function params body) ∈ env.globals.entries :=
      Table.get?_eq_some_iff.mp hhelper
    have hentries : env.globals.entries = [("eval", .native .evalText), ("debug", .native .debug),
        ("at", .native .atPlace), ("tell", .function ["x"] (.call (.var "debug") (.var "x"))),
        ("behind", .function ["place", "f"] behind)] := by decide
    rw [hentries] at hentry
    simp only [List.mem_cons, Prod.mk.injEq, reduceCtorEq, and_false, false_or, Expr.function.injEq,
      List.not_mem_nil, or_false] at hentry
    rcases hentry with ⟨rfl, rfl, rfl⟩ | ⟨rfl, rfl, rfl⟩
    · exact ⟨⟨by decide, hdebug, fun _ _ h => nomatch h⟩, trivial⟩
    · exact ⟨⟨by decide, hat, fun _ _ h => nomatch h⟩, trivial,
        ⟨by decide, htell, fun _ _ _ => by decide⟩, trivial⟩
  have he : e.Callees env.Callable := ⟨hbehind, ⟨htell, trivial⟩, trivial⟩
  refine ⟨hranked, he, ?_, by decide +kernel, by decide +kernel⟩
  obtain ⟨enough, henough⟩ := ranked_helpers_end rfl hranked he
  refine ⟨enough, fun depth hdepth context graphs graphRoot => ?_⟩
  obtain ⟨hrule, hbody⟩ := henough depth hdepth context graphs graphRoot
  exact ⟨hrule, hbody "behind" ["place", "f"] behind [loop, loop] rfl⟩

end Passage
