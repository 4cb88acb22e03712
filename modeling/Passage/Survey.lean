import Passage.Check
import Passage.Region

/-!
# Surveys

A survey finds the edges between regions under both contexts. It asks the rules of all exits over
and over, in passes, until a pass adds no edge; a rule is asked only while its edge is missing under
its context. The two graphs are published from the start, so a rule sees the edges found before it.
An edge stays once it is there, so there cannot be more passes than exits have rules, and one more.

A judge decides rules on behalf of a survey, so the order of the questions does not depend on how
they are decided. The report keeps, for every pass, which steps were asked and with what verdict.
-/
namespace Passage

/-- The rule of one exit under one context. -/
structure Step where
  side : Side
  source : String
  destination : String
  rule : String
deriving DecidableEq, Repr

/-- The steps of a region: exit by exit, the first context before the second. -/
def Region.steps (region : Region) : List Step :=
  region.exits.flatMap fun exit =>
    [⟨.first, region.id, exit.destination, exit.rule .first⟩,
     ⟨.second, region.id, exit.destination, exit.rule .second⟩]

/-- Decides rules, each for one of the contexts. -/
abbrev Judge := Side → String → Check Bool

/-- Checks a rule under the label of its context. -/
def Judge.byLabel (depth : Nat) : Judge := fun side rule => do
  let contexts ← Action.read (·.config.contexts)
  checkRule depth rule (some (contexts.label side))

/-- The steps that were asked in one pass, each with its verdict. -/
abbrev Round := List (Step × Bool)

namespace Round

def added (round : Round) (side : Side) : Nat :=
  round.countP fun asked => asked.2 && asked.1.side == side

def grew (round : Round) : Bool := round.any fun asked => asked.2

end Round

/-- The graphs of both contexts, and how they came about. -/
structure Survey where
  first : Graph
  second : Graph
  rounds : List Round
deriving DecidableEq

namespace Survey

def graph (survey : Survey) : Side → Graph
  | .first => survey.first
  | .second => survey.second

def byLabel (survey : Survey) (contexts : Contexts) : Table Graph :=
  .ofList [(contexts.first, survey.first), (contexts.second, survey.second)]

def steps (regions : List Region) : List Step := regions.flatMap Region.steps

/-- A graph with all regions and no edge. -/
def bare (regions : List Region) : Graph := regions.foldl (fun g r => g.addNode r.id) .empty

/-- The region to measure from: the one asked for, else the configured one, else the first one. An
empty id asks for nothing. -/
def rootFor (config : Config) (regions : List Region) (root : Option String) : Option String :=
  ((root.filter (· ≠ "")).or (config.atRoot.filter (· ≠ ""))).or (regions.head?.map Region.id)

/-- Publishes the bare graphs under both labels, in place of all that was published before. -/
def publish (regions : List Region) (root : Option String) (env : Env) : Env :=
  { env with
    graphs := byLabel ⟨bare regions, bare regions, []⟩ env.config.contexts
    graphRoot := rootFor env.config regions root }

def known (step : Step) (env : Env) : Bool :=
  (env.graphOf step.side).any (·.hasEdge step.source step.destination)

def record (step : Step) (env : Env) : Env :=
  match env.graphOf step.side with
  | none => env
  | some g =>
    { env with
      graphs := env.graphs.insert (env.config.contexts.label step.side)
        (g.addEdge step.source step.destination) }

/-- Asks the rule of a step, unless its edge is known. -/
def ask (judge : Judge) (step : Step) : Check (Option Bool) := do
  if ← Action.read (known step) then return none
  else
    let holds ← judge step.side step.rule
    if holds then Action.update (record step)
    return some holds

def pass (judge : Judge) : List Step → Check Round
  | [] => return []
  | step :: rest => do
    let verdict ← ask judge step
    let round ← pass judge rest
    return match verdict with
      | none => round
      | some holds => (step, holds) :: round

def report (number : Nat) (round : Round) : Check Unit :=
  Action.update fun env =>
    let contexts := env.config.contexts
    env.note (.pass number
      [(contexts.first, round.added .first), (contexts.second, round.added .second)])

/-- Passes until one adds nothing, at most as many as the first number says; the second number is
that of the next pass. -/
def passes (judge : Judge) (steps : List Step) : Nat → Nat → Check (List Round)
  | 0, _ => Action.tooDeep
  | left + 1, number => do
    let round ← pass judge steps
    report number round
    if round.grew then
      let later ← passes judge steps left (number + 1)
      return round :: later
    else return [round]

def published (side : Side) : Check Graph := Action.read fun env => (env.graphOf side).getD .empty

/-- Surveys the regions. When a rule fails, the edges found before it stay published. -/
def buildBy (judge : Judge) (regions : List Region) (root : Option String) : Check Survey := do
  Action.update (publish regions root)
  let rounds ← passes judge (steps regions) ((steps regions).length + 1) 1
  let first ← published .first
  let second ← published .second
  return ⟨first, second, rounds⟩

def build (depth : Nat) (regions : List Region) (root : Option String) : Check Survey :=
  buildBy (Judge.byLabel depth) regions root

end Survey

def holding (depth : Nat) (context : Option String) : List Obtainable → Check (List String)
  | [] => return []
  | thing :: rest => do
    let holds ← checkRule depth thing.rule context
    let later ← holding depth context rest
    return if holds then thing.id :: later else later

def available (depth : Nat) (regions : List Region) (g : Graph) (root : String)
    (context : Option String) : Check (List String) :=
  let reached := g.reachable root
  holding depth context ((regions.filter fun r => reached.contains r.id).flatMap Region.obtainables)

end Passage
