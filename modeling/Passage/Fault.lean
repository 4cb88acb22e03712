import Passage.Expr.Reading

/-!
# Faults

Why an evaluation gives no value. A fault carries its cause; its kind and its message are read off
the cause. A failure of the host program is no fault of the rule language and is kept apart from
those that are (`isOwn`).
-/
namespace Passage

inductive Hand where
  | left
  | right
deriving DecidableEq, Repr

def Hand.word : Hand → String
  | left => "left"
  | right => "right"

inductive HostFailure where
  | noSuchArgument
deriving DecidableEq, Repr

def HostFailure.message : HostFailure → String
  | noSuchArgument => "list index out of range"

inductive Fault where
  | undefined (name : String)
  /-- A comma chain where a value is asked for. -/
  | looseSequence
  | notTruth (op : BinaryOp) (hand : Hand) (got : Expr)
  | incomparable (lhs rhs : Expr)
  | notCallable (callee got : Expr)
  | arity (callee : Expr) (expected got : Nat)
  | nativeArity (native : Native) (expected got : Nat)
  | evalOfNonText (got : Expr)
  | placeNotText (got : Expr)
  /-- A text handed to `eval` that is no expression. -/
  | unreadable (error : ReadError)
  | resultNotTruth (got : Expr)
  | resultNotText (got : Expr)
  | emptyStack
  | host (failure : HostFailure)
deriving DecidableEq, Repr

inductive FaultKind where
  | evaluation
  | undefined
  | mismatch
  | arity
  | token
  | grammar
  | host
deriving DecidableEq, Repr

namespace Fault

def kind : Fault → FaultKind
  | undefined _ => .undefined
  | looseSequence | emptyStack => .evaluation
  | notTruth _ _ _ | incomparable _ _ | notCallable _ _ | evalOfNonText _ | placeNotText _
  | resultNotTruth _ | resultNotText _ => .mismatch
  | arity _ _ _ | nativeArity _ _ _ => .arity
  | unreadable (.token _) => .token
  | unreadable (.grammar _ _ _) => .grammar
  | host _ => .host

/-- Whether the rule language itself is at fault. -/
def isOwn (fault : Fault) : Bool := fault.kind != .host

/-- An operand as a message shows it; one that leaves no text is shown by its kind. -/
def shown (e : Expr) : String := if e.render = "" then e.kind else e.render

def message : Fault → String
  | undefined name => "Undefined variable: " ++ name
  | looseSequence => "Cannot evaluate a sequence outside of a call's argument list"
  | notTruth op hand got =>
    "Expected boolean on " ++ hand.word ++ " hand side of " ++ op.symbol ++ ", got " ++ shown got
  | incomparable lhs rhs =>
    "Cannot compare " ++ lhs.kind ++ " " ++ lhs.render ++ " with " ++ rhs.kind ++ " " ++ rhs.render
  | notCallable callee got => callee.render ++ " is not callable (got " ++ got.kind ++ ")"
  | arity callee expected got =>
    callee.render ++ s!" expects {expected} argument(s), got {got}"
  | nativeArity n expected got =>
    "Wrong number of arguments to " ++ n.name ++ s!": expected {expected}, got {got}"
  | evalOfNonText got => "Cannot eval anything but a string, got " ++ got.render
  | placeNotText got => "Expected string as first argument to at, got " ++ got.render
  | unreadable error => error.message
  | resultNotTruth got =>
    "Expected a boolean result, got " ++ got.kind ++ " " ++ Text.quoted got.render
  | resultNotText got =>
    "Expected a string result, got " ++ got.kind ++ " " ++ Text.quoted got.render
  | emptyStack => "Cannot pop record off empty stack"
  | host failure => failure.message

end Fault

end Passage
