import Passage.Formula.Reading

/-!
# Journeys

A journey asks whether one region can be reached from another without surveying all of them. It
works through a queue of regions and checks the rules of their exits, which are formulas, on the
way. Exits may be forbidden region by region, and what a region is made of is looked at only when
the journey comes to it.
-/
namespace Passage

inductive Territory where
  | absent
  | exits (rules : Table Value)
  /-- Exits that are no mapping, known by their shape. -/
  | exitless (shape : String)
  /-- Something that is no mapping and has no exits to speak of. -/
  | shapeless (shape : String)

namespace Territory

def rules : Territory → Table Value
  | exits rules => rules
  | absent | exitless _ | shapeless _ => .empty

/-- Exits are a mapping from destinations to rules; what counts as nothing stands for none. -/
def ofExits (found : Value) : Territory :=
  if found.isFalsy then exits .empty
  else
    match found with
    | .record entries => exits (.ofList entries)
    | other => exitless other.shape

def ofValue : Value → Territory
  | .null => absent
  | .record fields =>
    match Table.find "exits" fields with
    | none => exits .empty
    | some found => ofExits found
  | other => shapeless other.shape

end Territory

inductive JourneyError where
  | shapeless (region shape : String)
  /-- The exits of a region cannot be gone through. -/
  | exitless (shape : String)
  /-- No id can be looked for in what is banned. -/
  | unsearchable (shape : String)
  /-- A rule that is no text. -/
  | wordless (shape : String)
  | rule (fault : FormulaFault)
deriving Repr

/-- The message of an error, where it has a text of its own. -/
def JourneyError.message : JourneyError → Option String
  | shapeless region shape =>
    some ("Region " ++ Text.quoted region ++
      " must be a mapping of the form \x7b\x22exits\x22: \x7bdestination: rule\x7d\x7d, got " ++
      shape)
  | exitless _ | unsearchable _ | wordless _ => none
  | rule fault => some fault.message

inductive Ban where
  | ids (list : List String)
  /-- All exits whose id occurs in a text; an empty text bans none. -/
  | mentionedIn (text : String)
deriving DecidableEq, Repr

/-- Whether the characters of `part` stand in a row somewhere in a text. -/
def occursIn (part : List Char) : List Char → Bool
  | [] => part.isEmpty
  | c :: rest => part.isPrefixOf (c :: rest) || occursIn part rest

namespace Ban

/-- A text that stands in a list of ids. -/
def idOfValue : Value → Option String
  | .text id => some id
  | _ => none

/-- The exits that a value bans: the ids in a list, the names in a mapping, or whatever a text
mentions. What counts as nothing bans none, and in other values nothing can be looked for. -/
def ofValue (value : Value) : Except JourneyError Ban :=
  if value.isFalsy then .ok (ids [])
  else
    match value with
    | .list items => .ok (ids (items.filterMap idOfValue))
    | .record fields => .ok (ids (fields.map Prod.fst))
    | .text text => .ok (mentionedIn text)
    | other => .error (.unsearchable other.shape)

def forbids : Ban → String → Bool
  | ids list, id => list.contains id
  | mentionedIn text, id => text ≠ "" && occursIn id.toList text.toList

end Ban

structure Terrain where
  territories : Table Territory
  bans : Table (Except JourneyError Ban)
  flags : Table Value

structure Trip where
  /-- The regions whose exits were looked at, the last one first. -/
  scanned : List String
  result : Except JourneyError Bool

namespace Terrain

def exits (terrain : Terrain) (region : String) : Except JourneyError (List (String × Value)) :=
  match terrain.territories.get? region with
  | some (.shapeless shape) => .error (.shapeless region shape)
  | some (.exitless shape) => .error (.exitless shape)
  | some territory => .ok territory.rules.entries
  | none => .ok []

/-- Whether an exit is forbidden, if that can be told. -/
def barred (terrain : Terrain) (region destination : String) : Except JourneyError Bool :=
  match terrain.bans.get? region with
  | some ban => ban.map (·.forbids destination)
  | none => .ok false

def forbids (terrain : Terrain) (region destination : String) : Bool :=
  (terrain.barred region destination).toOption.getD false

def check (terrain : Terrain) : Value → Except JourneyError Bool
  | .text rule => (checkFormula terrain.flags rule).mapError .rule
  | other => .error (.wordless other.shape)

/-- The destinations of the exits that can be used and do not lead to a region done with. Only of
the others it is asked whether they are forbidden, and only of those that are not, whether their
rules hold. -/
def usable (terrain : Terrain) (region : String) (done : List String) :
    List (String × Value) → Except JourneyError (List String)
  | [] => .ok []
  | (destination, rule) :: rest =>
    if destination ∈ done then terrain.usable region done rest
    else do
      let barred ← terrain.barred region destination
      if barred then terrain.usable region done rest
      else
        let holds ← terrain.check rule
        let later ← terrain.usable region done rest
        return if holds then destination :: later else later

/-- Works through the queue, for at most the given number of regions. A region may stand in the
queue more than once, but its exits are looked at only the first time. -/
def travel (terrain : Terrain) (goal : String) : Nat → (done queue : List String) → Trip
  | 0, done, _ => ⟨done, .ok false⟩
  | _ + 1, done, [] => ⟨done, .ok false⟩
  | visits + 1, done, region :: queue =>
    if region = goal then ⟨done, .ok true⟩
    else if region ∈ done then terrain.travel goal visits done queue
    else
      match terrain.exits region >>= terrain.usable region done with
      | .error e => ⟨region :: done, .error e⟩
      | .ok found => terrain.travel goal visits (region :: done) (queue ++ found)

/-- How many regions can stand in the queue in all: the start, and one for every exit. -/
def visits (terrain : Terrain) : Nat :=
  (terrain.territories.entries.flatMap fun entry => entry.2.rules.entries).length + 1

def trip (terrain : Terrain) (start goal : String) : Trip :=
  terrain.travel goal terrain.visits [] [start]

def canReach (terrain : Terrain) (start goal : String) : Except JourneyError Bool :=
  (terrain.trip start goal).result

end Terrain

end Passage
