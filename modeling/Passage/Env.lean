import Passage.Action
import Passage.Config
import Passage.Fault
import Passage.Graph
import Passage.Memo

/-!
# Environments

An environment holds all that a rule can see: the configuration, the global bindings, the frames of
the calls in progress, the graphs published so far with the region that they are measured from, and
the functions of the host program. Trees of rule texts are remembered in it, and what evaluation
lets the outside know is written to its journal.

A name is looked up in the innermost frame, then as the selector, then among the globals; the
frames of the callers are never seen.
-/
namespace Passage

/-- The arguments of one call in progress, by parameter. -/
abbrev Frame := Table Expr

/-- A function of the host program, on its arguments and the label of the context. -/
abbrev Host := List Expr → Option String → Except Fault Expr

inductive Event where
  /-- The written form of a value given to `debug`. -/
  | message (text : String)
  | hostCall (name : String) (args : List Expr) (context : Option String)
  /-- A rule that was checked without a failure, and its verdict. -/
  | verdict (context : Option String) (rule : Expr) (holds : Bool)
  /-- One pass of a survey, with the number of edges that it added under each label. -/
  | pass (number : Nat) (added : List (String × Nat))
deriving DecidableEq, Repr

abbrev Trees := Memo RuleText.expr 1000

structure Env where
  config : Config
  hosts : Nat → Host
  globals : Table Expr
  /-- The frames of the calls in progress, the innermost first. -/
  stack : List Frame
  /-- The published graphs by the label of their context. -/
  graphs : Table Graph
  /-- The region from which the published graphs are measured. -/
  graphRoot : Option String
  trees : Trees
  journal : List Event

namespace Env

def builtins : Table Expr :=
  .ofList ([Native.evalText, .debug, .atPlace].map fun n => (n.name, Expr.native n))

/-- An environment with nothing in progress and nothing published. -/
def fresh (config : Config) (globals : Table Expr) (hosts : Nat → Host) : Env where
  config := config
  hosts := hosts
  globals := globals
  stack := []
  graphs := .empty
  graphRoot := config.atRoot
  trees := .empty
  journal := []

def noHosts : Nat → Host := fun _ _ _ => .error (.host .noSuchArgument)

def bind (env : Env) (name : String) (value : Expr) : Env :=
  { env with globals := env.globals.insert name value }

def bindAll (env : Env) (bindings : List (String × Expr)) : Env :=
  { env with globals := env.globals.insertAll bindings }

def push (env : Env) (frame : Frame) : Env := { env with stack := frame :: env.stack }

def note (env : Env) (event : Event) : Env := { env with journal := env.journal ++ [event] }

/-- The value that the innermost frame gives to a name. -/
def local? (env : Env) (name : String) : Option Expr := env.stack.head?.bind (·.get? name)

def lookup (env : Env) (name : String) (context : Option String) : Except Fault Expr :=
  match env.local? name with
  | some value => .ok value
  | none =>
    match context, decide (name = env.config.selector) with
    | some label, true => .ok (.text label)
    | _, _ =>
      match env.globals.get? name with
      | some value => .ok value
      | none => .error (.undefined name)

theorem local?_of_stack_nil {env : Env} (h : env.stack = []) (name : String) :
    env.local? name = none := by
  rw [local?, h]
  rfl

/-- A name that no frame and no context has a meaning for is a global one. -/
theorem lookup_of_global {env : Env} {name : String} {value : Expr}
    (hlocal : env.local? name = none) (hselector : name ≠ env.config.selector)
    (hglobal : env.globals.get? name = some value)
    (context : Option String) : env.lookup name context = .ok value := by
  simp [lookup, hlocal, hselector, hglobal]

def graphOf (env : Env) (side : Side) : Option Graph :=
  env.graphs.get? (env.config.contexts.label side)

def reaches (env : Env) (region : String) : Bool :=
  match env.graphRoot with
  | none => false
  | some root =>
    [Side.first, .second].any fun side => (env.graphOf side).any (·.canReach root region)

/-- Reads a text, with the help of the trees remembered. -/
def readRule (env : Env) (text : String) : Except ReadError Expr × Env :=
  let (result, trees) := env.trees.request ⟨text, env.config.allowTrailing⟩
  (result, { env with trees := trees })

/-- What is remembered has no influence on what a text is read as. -/
theorem fst_readRule (env : Env) (text : String) :
    (env.readRule text).1 = RuleText.expr ⟨text, env.config.allowTrailing⟩ :=
  env.trees.answer_request _

end Env

end Passage
