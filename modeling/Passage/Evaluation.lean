import Passage.Env

/-!
# Evaluation

Evaluation reduces an expression to a value under an environment and, possibly, the label of a
context. Both operands of an operator are always evaluated, the left one first; arguments are
evaluated from left to right before the frame of the call is there. A call's frame is gone after the
call, whether its body gave a value or failed. Only the built-in function `at` leaves an argument
unevaluated, where the region asked for is not reached.

One step of evaluation is a function of evaluation itself (`reduce`); tying the knot to a given
depth gives `evaluate`.
-/
namespace Passage

abbrev Eval (α : Type) := Action Env Fault α

namespace Eval

def note (event : Event) : Eval Unit := Action.update (·.note event)

def lookup (name : String) (context : Option String) : Eval Expr :=
  Action.ofOutcome fun env => some (env.lookup name context, env)

def readRule (text : String) : Eval Expr :=
  Action.ofOutcome fun env =>
    let (result, env) := env.readRule text
    some (result.mapError .unreadable, env)

/-- Calls a function of the host program, on the record. -/
def callHost (number : Nat) (name : String) (args : List Expr) (context : Option String) :
    Eval Expr := do
  note (.hostCall name args context)
  let hosts ← Action.read Env.hosts
  Action.ofExcept (hosts number args context)

/-- Carries out the body of a call under its frame, which goes however the body ends. -/
def inFrame (frame : Frame) (body : Eval α) : Eval α :=
  Action.ofOutcome fun env =>
    (body.outcome (env.push frame)).map fun (result, env) =>
      (result, { env with stack := env.stack.tail })

end Eval

def truth (op : BinaryOp) (hand : Hand) : Expr → Except Fault Bool
  | .bool b => .ok b
  | other => .error (.notTruth op hand other)

/-- Joins two evaluated operands. Only two truth values or two texts can be compared. -/
def combine : BinaryOp → Expr → Expr → Except Fault Expr
  | .sequence, _, _ => .error .looseSequence
  | .or, lhs, rhs => do
    let l ← truth .or .left lhs
    let r ← truth .or .right rhs
    return .bool (l || r)
  | .and, lhs, rhs => do
    let l ← truth .and .left lhs
    let r ← truth .and .right rhs
    return .bool (l && r)
  | .equal, .bool l, .bool r => .ok (.bool (l == r))
  | .equal, .text l, .text r => .ok (.bool (l == r))
  | .equal, lhs, rhs => .error (.incomparable lhs rhs)

def applyNative (evaluate : Expr → Eval Expr) (context : Option String) :
    Native → List Expr → Eval Expr
  | .evalText, [.text s] => do
    let e ← Eval.readRule s
    evaluate e
  | .evalText, [other] => throw (.evalOfNonText other)
  | .evalText, args => throw (.nativeArity .evalText 1 args.length)
  | .debug, [value] => do
    Eval.note (.message value.render)
    return value
  | .debug, args => throw (.nativeArity .debug 1 args.length)
  | .atPlace, [place, guarded] => do
    match ← evaluate place with
    | .text region =>
      if ← Action.read (·.reaches region) then evaluate guarded else return .bool false
    | other => throw (.placeNotText other)
  | .atPlace, args => throw (.nativeArity .atPlace 2 args.length)
  | .host number name _, args => Eval.callHost number name args context

/-- Calls an evaluated callee. A parameter without an argument stays unbound, and an argument
without a parameter is dropped, unless the configuration is strict about their number. -/
def apply (evaluate : Expr → Eval Expr) (context : Option String) (callee : Expr)
    (args : List Expr) : Expr → Eval Expr
  | .function params body => do
    let values ← args.mapM evaluate
    if (← Action.read (·.config.strictArity)) ∧ values.length ≠ params.length then
      throw (.arity callee params.length values.length)
    else
      Eval.inFrame (.ofList (params.zip values)) (evaluate body)
  | .native n => do
    if n.isLazy then applyNative evaluate context n args
    else
      let values ← args.mapM evaluate
      applyNative evaluate context n values
  | other => throw (.notCallable callee other)

def reduce (evaluate : Expr → Eval Expr) (context : Option String) : Expr → Eval Expr
  | .var name => Eval.lookup name context
  | .binary .sequence _ _ => throw .looseSequence
  | .binary op lhs rhs => do
    let l ← evaluate lhs
    let r ← evaluate rhs
    Action.ofExcept (combine op l r)
  | .call callee args => do
    let f ← evaluate callee
    apply evaluate context callee args.arguments f
  | value => return value

/-- The value of an expression, reached within a depth. -/
def evaluate (context : Option String) : Nat → Expr → Eval Expr
  | 0, _ => Action.tooDeep
  | depth + 1, e => reduce (evaluate context depth) context e

theorem evaluate_of_isValue {e : Expr} (h : e.isValue = true) (context : Option String)
    (depth : Nat) : evaluate context (depth + 1) e = pure e := by
  cases e with
  | var _ | call _ _ | binary _ _ _ => cases h
  | empty | bool _ | text _ | function _ _ | native _ => rfl

end Passage
