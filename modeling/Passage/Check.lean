import Passage.Evaluation

/-!
# Checking rules

A rule is a text that has to come out as a truth value. A text that is no expression is reported as
it is; whatever goes wrong later is reported together with the rule in which it happened. A failure
of the host program passes through.
-/
namespace Passage

def Expr.toTruth : Expr → Except Fault Bool
  | .bool b => .ok b
  | other => .error (.resultNotTruth other)

def Expr.toText : Expr → Except Fault String
  | .text s => .ok s
  | other => .error (.resultNotText other)

inductive CheckError where
  | unreadable (error : ReadError)
  | failed (rule : Expr) (cause : Fault)
  | host (failure : HostFailure)
deriving DecidableEq, Repr

namespace CheckError

/-- What a fault in the evaluation of a rule is reported as. -/
def ofFault (rule : Expr) : Fault → CheckError
  | .host failure => host failure
  | fault => failed rule fault

def message : CheckError → String
  | unreadable error => error.message
  | failed rule cause =>
    "Error while evaluating this expression: " ++ rule.render ++ "\n" ++ cause.message
  | host failure => failure.message

theorem ofFault_of_isOwn {fault : Fault} (h : fault.isOwn = true) (rule : Expr) :
    ofFault rule fault = failed rule fault := by
  cases fault with
  | host failure => cases h
  | _ => rfl

end CheckError

abbrev Check (α : Type) := Action Env CheckError α

namespace Check

def note (event : Event) : Check Unit := Action.update (·.note event)

def readRule (rule : String) : Check Expr :=
  Action.ofOutcome fun env =>
    let (result, env) := env.readRule rule
    some (result.mapError .unreadable, env)

def judge (depth : Nat) (context : Option String) (rule : Expr) : Check Bool :=
  Action.mapError (CheckError.ofFault rule) do
    let value ← evaluate context depth rule
    Action.ofExcept value.toTruth

end Check

/-- Whether a rule holds under a context; the verdict goes on record. -/
def checkRule (depth : Nat) (rule : String) (context : Option String) : Check Bool := do
  let root ← Check.readRule rule
  let holds ← Check.judge depth context root
  Check.note (.verdict context root holds)
  return holds

end Passage
