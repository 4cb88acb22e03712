import Passage.Survey

/-!
# Atlases

An atlas answers questions about the regions of one environment. It surveys them when a graph is
first asked for and keeps the graphs until an item is granted or revoked. A survey that fails keeps
nothing, although what it has published so far stays visible to rules.
-/
namespace Passage

structure Atlas where
  env : Env
  regions : List Region
  root : Option String
  /-- The graphs of the last survey, by label, unless they are out of date. -/
  built : Option (Table Graph)

inductive AtlasError where
  | check (error : CheckError)
  /-- A label that is none of the known ones, which are given in ascending order. -/
  | unknownContext (label : String) (known : List String)
deriving DecidableEq, Repr

def AtlasError.message : AtlasError → String
  | check error => error.message
  | unknownContext label known =>
    "Unknown context " ++ Text.quoted label ++ "; expected one of " ++ Text.quotedList known

abbrev Tour (ε α : Type) := Action Atlas ε α

namespace Atlas

def new (env : Env) (regions : List Region) (root : Option String) : Atlas :=
  ⟨env, regions, root, none⟩

def inEnv (act : Action Env ε α) : Tour ε α :=
  act.onPart Atlas.env fun env atlas => { atlas with env := env }

/-- Binds an item and gives up the graphs, which may depend on it. -/
def set (name : String) (value : Bool) (atlas : Atlas) : Atlas :=
  { atlas with env := atlas.env.bind name (.bool value), built := none }

def grant (name : String) (atlas : Atlas) : Atlas := atlas.set name true

def revoke (name : String) (atlas : Atlas) : Atlas := atlas.set name false

def check (depth : Nat) (rule : String) (context : Option String) : Tour CheckError Bool :=
  inEnv (checkRule depth rule context)

/-- Surveys the regions anew and keeps the graphs. -/
def build (depth : Nat) : Tour CheckError (Table Graph) := do
  let regions ← Action.read Atlas.regions
  let root ← Action.read Atlas.root
  let survey ← inEnv (Survey.build depth regions root)
  let contexts ← Action.read (·.env.config.contexts)
  let graphs := survey.byLabel contexts
  Action.update fun atlas => { atlas with built := some graphs }
  return graphs

/-- The graph of a context, from the graphs at hand if there are any. -/
def graph (depth : Nat) (label : String) : Tour AtlasError Graph := do
  let graphs ← match ← Action.read Atlas.built with
    | some graphs => pure graphs
    | none => Action.mapError .check (build depth)
  match graphs.get? label with
  | some g => return g
  | none => throw (.unknownContext label (graphs.sorted.map Prod.fst))

def reachable (depth : Nat) (label root : String) : Tour AtlasError (List String) := do
  let g ← graph depth label
  return g.reachable root

def canReach (depth : Nat) (label source destination : String) : Tour AtlasError Bool := do
  let g ← graph depth label
  return g.canReach source destination

def available (depth : Nat) (label root : String) : Tour AtlasError (List String) := do
  let g ← graph depth label
  let regions ← Action.read Atlas.regions
  Action.mapError .check (inEnv (Passage.available depth regions g root (some label)))

end Atlas

end Passage
