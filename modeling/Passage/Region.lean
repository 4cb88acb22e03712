import Passage.Config

/-!
# Regions

A region has exits to other regions and holds things that can be obtained in it. An exit has a rule
for each of the two contexts, an obtainable thing has one rule. Regions come from a provider as
records with missing parts; a record is a region if every id is there and every exit has its three
members.
-/
namespace Passage

structure Exit where
  destination : String
  firstRule : String
  secondRule : String
deriving DecidableEq, Repr

def Exit.rule (exit : Exit) : Side → String
  | .first => exit.firstRule
  | .second => exit.secondRule

structure Obtainable where
  id : String
  rule : String
  description : String
  category : String
deriving DecidableEq, Repr

structure Region where
  id : String
  location : String
  exits : List Exit
  obtainables : List Obtainable
deriving DecidableEq, Repr

structure ObtainableRecord where
  id : Option String
  rules : Option String
  rule : Option String
  description : Option String
  category : Option String
deriving DecidableEq, Repr

structure RegionRecord where
  id : Option String
  location : Option String
  exits : List (List String)
  obtainables : List ObtainableRecord
deriving DecidableEq, Repr

inductive RegionError where
  | missingId
  | exitShape
deriving DecidableEq, Repr

def Exit.ofList : List String → Except RegionError Exit
  | [destination, firstRule, secondRule] => .ok ⟨destination, firstRule, secondRule⟩
  | _ => .error .exitShape

def requireId : Option String → Except RegionError String
  | some id => .ok id
  | none => .error .missingId

/-- A thing without a rule can always be had. -/
def Obtainable.ofRecord (record : ObtainableRecord) : Except RegionError Obtainable := do
  let id ← requireId record.id
  return {
    id := id
    rule := (record.rules.or record.rule).getD "TRUE"
    description := record.description.getD ""
    category := record.category.getD "" }

/-- A missing id is noticed before an exit of the wrong shape. -/
def Region.ofRecord (record : RegionRecord) : Except RegionError Region := do
  let obtainables ← record.obtainables.mapM Obtainable.ofRecord
  let id ← requireId record.id
  let exits ← record.exits.mapM Exit.ofList
  return {
    id := id
    location := record.location.getD ""
    exits := exits
    obtainables := obtainables }

end Passage
