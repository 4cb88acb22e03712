import Passage.Proofs.Upkeep

/-!
# Known host functions

What an evaluation can come to depends on the functions of the host program that it can get hold of:
those in the bindings, in the arguments of the calls in progress, and in what such functions return.
If none of them fails on its own account, that is with a failure which is none of the rule language,
then no evaluation does (`trusted_evaluate`).
-/
namespace Passage

open Passage.Action

/-- The host functions in an expression, and in the bodies of its functions, are known by their
numbers. -/
def Expr.CallsOnly (known : Nat → Prop) : Expr → Prop
  | .native (.host number _ _) => known number
  | .function _ body => body.CallsOnly known
  | .call callee args => callee.CallsOnly known ∧ args.CallsOnly known
  | .binary _ lhs rhs => lhs.CallsOnly known ∧ rhs.CallsOnly known
  | .empty | .bool _ | .text _ | .var _ | .native _ => True

/-- An environment in which no other host functions can be got hold of than those known. They return
values in which again only such functions occur, or fail with a fault of the rule language. -/
structure Env.Knows (env : Env) (known : Nat → Prop) : Prop where
  globals : env.globals.All (Expr.CallsOnly known)
  stack : ∀ frame ∈ env.stack, frame.All (Expr.CallsOnly known)
  hosts : ∀ number, known number → ∀ args context, (∀ arg ∈ args, arg.CallsOnly known) →
    Fits (Expr.CallsOnly known) (fun fault => fault.isOwn = true) (env.hosts number args context)

/-- Of the native functions, only those of the host program have to be known. -/
def Native.IsKnown (known : Nat → Prop) : Native → Prop
  | .host number _ _ => known number
  | .evalText | .debug | .atPlace => True

namespace Expr

variable {known : Nat → Prop} {e : Expr}

theorem callsOnly_iff_natives : e.CallsOnly known ↔ e.Natives (Native.IsKnown known) := by
  induction e with
  | native n => cases n <;> exact Iff.rfl
  | function _ _ ih => exact ih
  | call _ _ ihl ihr | binary _ _ _ ihl ihr => exact and_congr ihl ihr
  | empty | bool _ | text _ | var _ => exact Iff.rfl

/-- A text brings in no host functions. -/
theorem callsOnly_of_read {rule : RuleText} (h : rule.expr = .ok e) : e.CallsOnly known :=
  callsOnly_iff_natives.mpr (natives_of_read h)

end Expr

/-- The built-in functions are none of the host program. -/
theorem Env.callsOnly_builtins {known : Nat → Prop} : Env.builtins.All (Expr.CallsOnly known) :=
  Env.all_builtins trivial trivial trivial

/-- Evaluation does not get hold of host functions that were not known. -/
theorem Upkeep.knows (known : Nat → Prop) (context : Option String) :
    Upkeep (Env.Knows · known) (Native.IsKnown known) (Expr.CallsOnly known)
      (fun fault => fault.isOwn = true) context where
  own fault hown := hown
  values e he _ := Expr.callsOnly_iff_natives.mpr he
  natives v hv := Expr.callsOnly_iff_natives.mp hv
  globals h := h.globals
  stack h := h.stack
  hosts := by
    intro env h number name isLazy args hknown hargs
    refine h.hosts number hknown args context fun arg harg => ?_
    -- Lazy or not, an argument is given to the function with known ones inside.
    have htakes := hargs arg harg
    rw [Native.Takes] at htakes
    split at htakes
    · exact Expr.callsOnly_iff_natives.mpr htakes
    · exact htakes
  note h _ := ⟨h.globals, h.stack, h.hosts⟩
  readRule h _ := ⟨h.globals, h.stack, h.hosts⟩
  push h _ hframe := ⟨h.globals, List.forall_mem_cons.mpr ⟨hframe, h.stack⟩, h.hosts⟩
  pop h := ⟨h.globals, fun frame hframe => h.stack frame (List.mem_of_mem_tail hframe), h.hosts⟩

/-- The contract of an evaluation: from an environment that knows its host functions, to a value in
which only these occur or to a fault of the rule language. -/
abbrev Eval.Trusted {α : Type} (known : Nat → Prop) (V : α → Prop) (act : Eval α) : Prop :=
  Ensures (Env.Knows · known) V (fun fault => fault.isOwn = true) act

/-- An evaluator that keeps its contract on the expressions in which only known functions occur. -/
abbrev TrustedOn (known : Nat → Prop) (ev : Expr → Eval Expr) : Prop :=
  ∀ e : Expr, e.CallsOnly known → Eval.Trusted known (Expr.CallsOnly known) (ev e)

/-- Evaluation keeps its contract, to every depth. -/
theorem trusted_evaluate {known : Nat → Prop} {context : Option String} (depth : Nat) :
    TrustedOn known (evaluate context depth) :=
  fun _ he => (Upkeep.knows known context).ensures_evaluate depth (Expr.callsOnly_iff_natives.mp he)

end Passage
