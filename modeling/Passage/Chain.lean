import Passage.Seed
import Passage.Survey

/-!
# The chain

A world of any size for measuring surveys: regions in a row, each with an exit to the next one that
asks for a key, and from every third one an exit back to where the last two steps began. An adult
needs the key itself, a child needs the skip.
-/
namespace Passage.Chain

def helpers : List Helper :=
  [⟨"isAdult", [], "AGE == \x22ADULT\x22"⟩,
   ⟨"isChild", [], "AGE == \x22CHILD\x22"⟩,
   ⟨"canPass", ["key"], "(isAdult() AND eval(key)) OR (isChild() AND SKIP_GAP)"⟩]

def regionId (place : Nat) : String := s!"R{place}"

/-- The seven keys come in turn. -/
def key (place : Nat) : String := s!"KEY_{place % 7}"

def skip : String := "SKIP_GAP"

/-- An exit with the same rule under both contexts. -/
def exit (destination rule : String) : Exit := ⟨destination, rule, rule⟩

def onward (place : Nat) : Exit :=
  exit (regionId (place + 1)) ("canPass(\x22" ++ key place ++ "\x22)")

def back (place : Nat) : Exit := exit (regionId (place - 2)) "at(\x22R0\x22, TRUE)"

def region (count place : Nat) : Region where
  id := regionId place
  location := ""
  exits := (if place + 1 < count then [onward place] else []) ++
    (if place % 3 = 2 then [back place] else [])
  obtainables := []

def regions (count : Nat) : List Region := (List.range count).map (region count)

def seed : Seed where
  items := (List.range 7).map key
  skips := [skip]
  helpers := helpers
  initialContext := none

def env (granted : List String) : Except HelperError Env :=
  (seed.env {} Env.noHosts).map fun env =>
    env.bindAll (granted.map fun name => (name, .bool true))

end Passage.Chain
