import Passage.Text.Quoted

/-!
# Configuration

Every rule is judged under one of two contexts, known by different labels. The selector is the name
by which a rule asks for the label it runs under.
-/
namespace Passage

/-- One of the two contexts; the first one is always asked first. -/
inductive Side where
  | first
  | second
deriving DecidableEq, Repr

structure Contexts where
  first : String
  second : String
  distinct : first ≠ second

inductive ConfigError where
  | notTwo (labels : List String)
  | same (labels : List String)
deriving DecidableEq, Repr

def ConfigError.message : ConfigError → String
  | notTwo labels => "Exactly two context labels are required, got " ++ Text.quotedTuple labels
  | same labels => "Context labels must differ, got " ++ Text.quotedTuple labels

namespace Contexts

def label (contexts : Contexts) : Side → String
  | .first => contexts.first
  | .second => contexts.second

def ofList : List String → Except ConfigError Contexts
  | [first, second] =>
    if h : first = second then .error (.same [first, second]) else .ok ⟨first, second, h⟩
  | labels => .error (.notTwo labels)

/-- The labels in use where none are given. -/
def standard : Contexts := ⟨"CHILD", "ADULT", by decide⟩

end Contexts

structure Config where
  /-- The name whose value is the label of the context. -/
  selector : String := "AGE"
  contexts : Contexts := .standard
  /-- The region from which the built-in function `at` measures before any graph is built. -/
  atRoot : Option String := none
  /-- Whether a call must give a function as many arguments as it has parameters. -/
  strictArity : Bool := false
  /-- Whether tokens behind a complete rule are ignored. -/
  allowTrailing : Bool := false
  debug : Bool := false

instance : Inhabited Config := ⟨{}⟩

/-- A setting asks for the trace by the text `1`; no setting means no trace. -/
def debugRequested (setting : Option String) : Bool := setting == some "1"

def Config.ofSetting (setting : Option String) : Config := { debug := debugRequested setting }

end Passage
