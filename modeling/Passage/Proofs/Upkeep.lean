import Passage.Proofs.Contracts
import Passage.Proofs.Grammar
import Passage.Proofs.Simulation

/-!
# What evaluation keeps up

What an evaluation can come to depends on the native functions that it can get hold of: those in the
bindings, in the arguments of the calls in progress, and in what functions of the host program
return. A text that is read brings in none. So an evaluation keeps up a property of native
functions, together with one of values and one of faults (`Upkeep`). The lemmas go through the
evaluator, one for each former, and relate it to one that inspects the environment at every step: it
finds nothing there but what the contract allows (`Upkeep.concur_inspected`).
-/
namespace Passage

open Passage.Action

/-- All values of a table have a property. -/
def Table.All {α : Type} (P : α → Prop) (t : Table α) : Prop :=
  ∀ name value, t.get? name = some value → P value

namespace Table

variable {α : Type} {P : α → Prop} {t : Table α}

theorem all_empty : (empty : Table α).All P := by
  intro name value h
  cases h

theorem All.insert (h : t.All P) (name : String) {value : α} (hvalue : P value) :
    (t.insert name value).All P := by
  intro other found hfound
  rw [get?_insert] at hfound
  split at hfound
  · cases hfound
    exact hvalue
  · exact h other found hfound

theorem All.insertAll (h : t.All P) {bindings : List (String × α)}
    (hvalues : ∀ binding ∈ bindings, P binding.2) : (t.insertAll bindings).All P := by
  induction bindings generalizing t with
  | nil => exact h
  | cons binding rest ih =>
    refine ih (h.insert binding.1 (hvalues binding List.mem_cons_self)) ?_
    exact fun other hother => hvalues other (List.mem_cons_of_mem _ hother)

theorem all_ofList {bindings : List (String × α)} (h : ∀ binding ∈ bindings, P binding.2) :
    (ofList bindings).All P :=
  all_empty.insertAll h

end Table

namespace Expr

/-- The native functions in an expression, and in the bodies of its functions, have a property. -/
def Natives (Q : Native → Prop) : Expr → Prop
  | .native n => Q n
  | .function _ body => body.Natives Q
  | .call callee args => callee.Natives Q ∧ args.Natives Q
  | .binary _ lhs rhs => lhs.Natives Q ∧ rhs.Natives Q
  | .empty | .bool _ | .text _ | .var _ => True

variable {Q : Native → Prop} {e : Expr}

/-- What a comma chain hands on to both of its sides holds of all members of an expression. -/
theorem forall_members {P : Expr → Prop}
    (hchain : ∀ lhs rhs, P (.binary .sequence lhs rhs) → P lhs ∧ P rhs) (h : P e) :
    ∀ member ∈ e.members, P member := by
  induction e with
  | binary op lhs rhs _ ihr =>
    cases op with
    | sequence =>
      intro member hmember
      rcases List.mem_cons.mp hmember with rfl | hrest
      · exact (hchain _ _ h).1
      · exact ihr (hchain _ _ h).2 member hrest
    | or | and | equal =>
      intro member hmember
      rwa [List.mem_singleton.mp hmember]
  | _ =>
    intro member hmember
    rwa [List.mem_singleton.mp hmember]

theorem forall_arguments {P : Expr → Prop}
    (hchain : ∀ lhs rhs, P (.binary .sequence lhs rhs) → P lhs ∧ P rhs) (h : P e) :
    ∀ arg ∈ e.arguments, P arg := by
  cases e with
  | empty =>
    intro arg harg
    cases harg
  | _ => exact forall_members hchain h

theorem Natives.arguments (h : e.Natives Q) : ∀ arg ∈ e.arguments, arg.Natives Q :=
  forall_arguments (fun _ _ h => h) h

/-- A text brings in no native functions. -/
theorem natives_of_derives {level : Reading.Level} {front : List Symbol}
    (h : Reading.Derives level front e) : e.Natives Q := by
  induction h with
  | alone _ _ ih | term _ ih | group _ ih => exact ih
  | join _ _ _ _ _ ihl ihr => exact ⟨ihl, ihr⟩
  | call _ _ _ ihl ihr => exact ⟨ihl, ihr⟩
  | name | bool | text | nothing => trivial

theorem natives_of_read {rule : RuleText} (h : rule.expr = .ok e) : e.Natives Q := by
  obtain ⟨_, _, _, _, _, hderives⟩ := RuleText.exists_derives h
  exact natives_of_derives hderives

end Expr

theorem Env.all_builtins {P : Expr → Prop} (heval : P (.native .evalText))
    (hdebug : P (.native .debug)) (hat : P (.native .atPlace)) : Env.builtins.All P := by
  refine Table.all_ofList fun binding hbinding => ?_
  simp only [List.map_cons, List.map_nil, List.mem_cons, List.not_mem_nil, or_false] at hbinding
  rcases hbinding with rfl | rfl | rfl
  · exact heval
  · exact hdebug
  · exact hat

/-- Two operands are joined to a truth value, or else the rule language is at fault. -/
theorem cases_of_combine (op : BinaryOp) (l r : Expr) :
    (∃ b, combine op l r = .ok (.bool b)) ∨
      ∃ fault, combine op l r = .error fault ∧ fault.isOwn = true := by
  cases op with
  | sequence => exact .inr ⟨_, rfl, rfl⟩
  | or | and =>
    cases l with
    | bool b =>
      cases r with
      | bool c => exact .inl ⟨_, rfl⟩
      | _ => exact .inr ⟨_, rfl, rfl⟩
    | _ => exact .inr ⟨_, rfl, rfl⟩
  | equal =>
    cases l with
    | bool b =>
      cases r with
      | bool c => exact .inl ⟨_, rfl⟩
      | _ => exact .inr ⟨_, rfl, rfl⟩
    | text s =>
      cases r with
      | text s' => exact .inl ⟨_, rfl⟩
      | _ => exact .inr ⟨_, rfl, rfl⟩
    | _ => exact .inr ⟨_, rfl, rfl⟩

/-- What a native function is given: expressions as they stand if it is lazy, and their values if it
is not. -/
def Native.Takes (Q : Native → Prop) (V : Expr → Prop) (n : Native) (arg : Expr) : Prop :=
  if n.isLazy then arg.Natives Q else V arg

/-- What an evaluation keeps up: an invariant of environments, in which the native functions, the
values and the faults that can be got hold of have a property each. -/
structure Upkeep (I : Env → Prop) (Q : Native → Prop) (V : Expr → Prop) (F : Fault → Prop)
    (context : Option String) : Prop where
  own : ∀ fault, fault.isOwn = true → F fault
  values : ∀ e : Expr, e.Natives Q → e.isValue = true → V e
  natives : ∀ v, V v → v.Natives Q
  globals : ∀ {env}, I env → env.globals.All V
  stack : ∀ {env}, I env → ∀ frame ∈ env.stack, frame.All V
  hosts : ∀ {env}, I env → ∀ number name isLazy args, Q (.host number name isLazy) →
    (∀ arg ∈ args, (Native.host number name isLazy).Takes Q V arg) →
      Fits V F (env.hosts number args context)
  note : ∀ {env}, I env → ∀ event, I (env.note event)
  readRule : ∀ {env}, I env → ∀ text, I (env.readRule text).2
  push : ∀ {env}, I env → ∀ {frame : Frame}, frame.All V → I (env.push frame)
  pop : ∀ {env}, I env → I env.pop

namespace Inspected

variable (inspect : Expr → Eval Unit) (context : Option String)

/-- Evaluation within a depth, with a look at the environment before each step. The body of a call
is such a step, so a new frame is looked at as soon as it is there, even where the depth is used
up. -/
def evaluate : Nat → Expr → Eval Expr
  | 0, e => do
    inspect e
    tooDeep
  | depth + 1, e => do
    inspect e
    reduce (evaluate depth) context e

/-- Without the look it is evaluation. -/
theorem evaluate_pure (depth : Nat) (e : Expr) :
    evaluate (fun _ => pure ()) context depth e = Passage.evaluate context depth e := by
  induction depth generalizing e with
  | zero => rfl
  | succ depth ih =>
    have hsame : evaluate (fun _ => pure ()) context depth = Passage.evaluate context depth :=
      funext ih
    show reduce (evaluate (fun _ => pure ()) context depth) context e = _
    rw [hsame]
    rfl

end Inspected

namespace Upkeep

variable {I : Env → Prop} {Q : Native → Prop} {V : Expr → Prop} {F : Fault → Prop}
  {context : Option String} {ev ev' : Expr → Eval Expr}

theorem bool (U : Upkeep I Q V F context) (b : Bool) : V (.bool b) := U.values _ trivial rfl

theorem text (U : Upkeep I Q V F context) (s : String) : V (.text s) := U.values _ trivial rfl

theorem fits_lookup (U : Upkeep I Q V F context) {env : Env} (h : I env) (name : String) :
    Fits V F (env.lookup name context) := by
  unfold Env.lookup
  cases hlocal : env.local? name with
  | some value =>
    obtain ⟨frame, hframe, hvalue⟩ := Option.bind_eq_some_iff.mp hlocal
    exact U.stack h frame (List.mem_of_mem_head? hframe) name value hvalue
  | none =>
    dsimp only
    split
    · exact U.text _
    · cases hglobal : env.globals.get? name with
      | some value => exact U.globals h name value hglobal
      | none => exact U.own _ rfl

theorem fits_combine (U : Upkeep I Q V F context) (op : BinaryOp) (l r : Expr) :
    Fits V F (combine op l r) := by
  rcases cases_of_combine op l r with ⟨b, hb⟩ | ⟨fault, hfault, hown⟩
  · rw [hb]
    exact U.bool b
  · rw [hfault]
    exact U.own fault hown

theorem ensures_fault (U : Upkeep I Q V F context) {fault : Fault} (hown : fault.isOwn = true) :
    Ensures I V F (throw fault : Eval Expr) :=
  ensures_throw (U.own fault hown)

theorem ensures_lookup (U : Upkeep I Q V F context) (name : String) :
    Ensures I V F (Eval.lookup name context) := by
  intro env h result after ho
  rw [Eval.outcome_lookup] at ho
  cases ho
  exact ⟨U.fits_lookup h name, h⟩

/-- What a text is read as brings in no native functions, whatever is remembered. -/
theorem ensures_readRule (U : Upkeep I Q V F context) (text : String) :
    Ensures I (Expr.Natives Q) F (Eval.readRule text) := by
  intro env h result after ho
  rw [Eval.outcome_readRule, env.fst_readRule] at ho
  cases ho
  refine ⟨?_, U.readRule h text⟩
  cases hread : RuleText.expr ⟨text, env.config.allowTrailing⟩ with
  | ok e => exact Expr.natives_of_read hread
  | error error => cases error <;> exact U.own _ rfl

theorem ensures_callHost (U : Upkeep I Q V F context) {number : Nat} {name : String} {isLazy : Bool}
    (hn : Q (.host number name isLazy)) {args : List Expr}
    (hargs : ∀ arg ∈ args, (Native.host number name isLazy).Takes Q V arg) :
    Ensures I V F (Eval.callHost number name args context) := by
  intro env h result after ho
  rw [Eval.outcome_callHost] at ho
  cases ho
  exact ⟨U.hosts h number name isLazy args hn hargs, U.note h _⟩

theorem concur_inFrame (U : Upkeep I Q V F context) {frame : Frame} (hframe : frame.All V)
    {body other : Eval Expr} (hbody : Concur I V F body other) :
    Concur I V F (Eval.inFrame frame body) (Eval.inFrame frame other) := by
  constructor
  · intro env h result after ho
    obtain ⟨inner, hinner, rfl⟩ := Eval.cases_of_inFrame ho
    obtain ⟨hfits, hleft⟩ := hbody.1 _ (U.push h hframe) result inner hinner
    exact ⟨hfits, U.pop hleft⟩
  · intro env h
    exact congrArg (Option.map _) (hbody.2 _ (U.push h hframe))

/-- Two evaluators that concur on the expressions whose native functions have the property. -/
abbrev ConcurOn (I : Env → Prop) (Q : Native → Prop) (V : Expr → Prop) (F : Fault → Prop)
    (ev ev' : Expr → Eval Expr) : Prop :=
  ∀ e : Expr, e.Natives Q → Concur I V F (ev e) (ev' e)

theorem concur_applyNative (U : Upkeep I Q V F context) (hev : ConcurOn I Q V F ev ev') {n : Native}
    (hn : Q n) {args : List Expr} (hargs : ∀ arg ∈ args, n.Takes Q V arg) :
    Concur I V F (applyNative ev context n args) (applyNative ev' context n args) := by
  cases n with
  | evalText =>
    rcases args with _ | ⟨source, _ | ⟨second, rest⟩⟩
    · exact (U.ensures_fault rfl).concur
    · cases source with
      | text s => exact concur_bind (U.ensures_readRule s).concur hev
      | _ => exact (U.ensures_fault rfl).concur
    · cases source <;> exact (U.ensures_fault rfl).concur
  | debug =>
    match args with
    | [value] =>
      refine concur_bind (ensures_update fun env h => U.note h _).concur fun _ _ => ?_
      exact (ensures_pure (hargs value List.mem_cons_self)).concur
    | [] | _ :: _ :: _ => exact (U.ensures_fault rfl).concur
  | atPlace =>
    -- `at` is lazy: what it is given are expressions, which the evaluators are asked for.
    match args with
    | [place, guarded] =>
      refine concur_bind (hev place (hargs place (by simp))) fun value _ => ?_
      cases value with
      | text region =>
        refine concur_bind (V := fun _ => True) (ensures_read fun _ _ =>
          trivial).concur fun reached _ => ?_
        cases reached with
        | true => exact hev guarded (hargs guarded (by simp))
        | false => exact (ensures_pure (U.bool false)).concur
      | _ => exact (U.ensures_fault rfl).concur
    | [] | [_] | _ :: _ :: _ :: _ => exact (U.ensures_fault rfl).concur
  | host number name isLazy => exact (U.ensures_callHost hn hargs).concur

theorem concur_apply (U : Upkeep I Q V F context) (hev : ConcurOn I Q V F ev ev') (callee : Expr)
    {args : List Expr} (hargs : ∀ arg ∈ args, arg.Natives Q) {f : Expr} (hf : V f) :
    Concur I V F (apply ev context callee args f) (apply ev' context callee args f) := by
  have hvalues : Concur I (fun values => ∀ value ∈ values,
      V value) F (args.mapM ev) (args.mapM ev') :=
    concur_mapM fun arg harg => hev arg (hargs arg harg)
  cases f with
  | function params body =>
    refine concur_bind hvalues fun values hvalues => ?_
    refine concur_bind (V := fun _ => True) (ensures_read fun _ _ => trivial).concur
      fun strict _ => ?_
    split
    · exact (U.ensures_fault rfl).concur
    · -- The arguments have been evaluated, so the frame binds what fits, and the invariant holds
      -- under it.
      have hbody : body.Natives Q := U.natives (.function params body) hf
      refine U.concur_inFrame (Table.all_ofList fun binding hbinding => ?_) (hev body hbody)
      exact hvalues binding.2 (List.of_mem_zip hbinding).2
  | native n =>
    have hn : Q n := U.natives (.native n) hf
    show Concur I V F (if n.isLazy then _ else _) (if n.isLazy then _ else _)
    split
    · next hlazy =>
      refine U.concur_applyNative hev hn fun arg harg => ?_
      rw [Native.Takes, if_pos hlazy]
      exact hargs arg harg
    · next heager =>
      refine concur_bind hvalues fun values hvalues =>
        U.concur_applyNative hev hn fun arg harg => ?_
      rw [Native.Takes, if_neg heager]
      exact hvalues arg harg
  | _ => exact (U.ensures_fault rfl).concur

theorem concur_reduce (U : Upkeep I Q V F context) (hev : ConcurOn I Q V F ev ev') :
    ConcurOn I Q V F (reduce ev context) (reduce ev' context) := by
  intro e he
  cases e with
  | var name => exact (U.ensures_lookup name).concur
  | binary op lhs rhs =>
    cases op with
    | sequence => exact (U.ensures_fault rfl).concur
    | or | and | equal =>
      refine concur_bind (hev lhs he.1) fun l _ => ?_
      refine concur_bind (hev rhs he.2) fun r _ => ?_
      exact (ensures_ofExcept (U.fits_combine _ l r)).concur
  | call callee args =>
    refine concur_bind (hev callee he.1) fun f hf => ?_
    exact U.concur_apply hev callee he.2.arguments hf
  | empty | bool _ | text _ | function _ _ | native _ =>
    exact (ensures_pure (U.values _ he rfl)).concur

/-- An evaluation meets its contract to every depth, and whoever inspects the environment on the way
sees nothing but what keeps the invariant. -/
theorem concur_inspected (U : Upkeep I Q V F context) {inspect : Expr → Eval Unit}
    (hsilent : ∀ e now, I now → (inspect e).outcome now = some (.ok (), now)) (depth : Nat) :
    ConcurOn I Q V F (evaluate context depth) (Inspected.evaluate inspect context depth) := by
  induction depth with
  | zero =>
    intro e he
    refine ⟨ensures_tooDeep, fun s hs => ?_⟩
    show (inspect e >>= fun _ => tooDeep).outcome s = _
    rw [outcome_bind_ok (hsilent e s hs)]
    rfl
  | succ depth ih =>
    intro e he
    obtain ⟨hensures, hsame⟩ := U.concur_reduce ih e he
    refine ⟨hensures, fun s hs => ?_⟩
    show (inspect e >>= fun _ => reduce (Inspected.evaluate inspect context depth) context
      e).outcome s = _
    rw [outcome_bind_ok (hsilent e s hs)]
    exact hsame s hs

theorem ensures_evaluate (U : Upkeep I Q V F context) (depth : Nat) {e : Expr} (he : e.Natives Q) :
    Ensures I V F (evaluate context depth e) :=
  (U.concur_inspected (fun _ _ _ => outcome_pure () _) depth e he).1

end Upkeep

end Passage
