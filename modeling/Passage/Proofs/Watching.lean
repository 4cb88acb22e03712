import Passage.Evaluation

/-!
# Watching the calls of native functions

An evaluator that does something before each call of a function that is not written in the rule
language, and is otherwise the same: watched by nobody it is `evaluate` (`evaluate_unwatched`).
Evaluation puts only the calls of host functions on record; with `onRecord` those of the built-in
functions are there as well.
-/
namespace Passage.Watched

open Passage.Action

variable (watch : Native → List Expr → Eval Unit) (context : Option String)

/-- Calls an evaluated callee, as `Passage.apply` does. -/
def apply (evaluate : Expr → Eval Expr) (callee : Expr) (args : List Expr) : Expr → Eval Expr
  | .native n => do
    if n.isLazy then
      watch n args
      applyNative evaluate context n args
    else
      let values ← args.mapM evaluate
      watch n values
      applyNative evaluate context n values
  | f => Passage.apply evaluate context callee args f

def reduce (evaluate : Expr → Eval Expr) : Expr → Eval Expr
  | .call callee args => do
    let f ← evaluate callee
    apply watch context evaluate callee args.arguments f
  | e => Passage.reduce evaluate context e

/-- Evaluation within a depth, with something done before each call of a native function. -/
def evaluate : Nat → Expr → Eval Expr
  | 0, _ => tooDeep
  | depth + 1, e => reduce watch context (evaluate depth) e

def unwatched : Native → List Expr → Eval Unit := fun _ _ => pure ()

theorem apply_unwatched (evaluate : Expr → Eval Expr) (callee : Expr)
    (args : List Expr) (f : Expr) :
    apply unwatched context evaluate callee args f =
      Passage.apply evaluate context callee args f := by
  cases f with
  | native n => rfl
  | _ => rfl

/-- Evaluation that nobody watches is evaluation. -/
theorem evaluate_unwatched (depth : Nat) (e : Expr) :
    evaluate unwatched context depth e = Passage.evaluate context depth e := by
  induction depth generalizing e with
  | zero => rfl
  | succ depth ih =>
    have hsame : evaluate unwatched context depth = Passage.evaluate context depth := funext ih
    show reduce unwatched context _ e = Passage.reduce _ context e
    rw [hsame]
    cases e with
    | call callee args =>
      exact congrArg (fun next => Passage.evaluate context depth callee >>= next)
        (funext (apply_unwatched context _ callee args.arguments))
    | _ => rfl

/-- Puts the calls of built-in functions on record, as those of host functions are. -/
def onRecord : Native → List Expr → Eval Unit
  | .host _ _ _, _ => pure ()
  | n, args => Eval.note (.hostCall n.name args context)

end Passage.Watched
