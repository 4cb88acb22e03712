import Passage.Text.Word

/-!
# Tokens of formulas

Every text is a row of tokens: parentheses, runs of name characters, and strays, which belong to no
formula. A run is a keyword if it is spelled like one and no word character follows, be it a letter
of any script; otherwise it is a name. Offsets count characters from zero.
-/
namespace Passage.Formula

inductive Mark where
  | opening
  | closing
  | and
  | or
  | const (b : Bool)
  | name (s : String)
  | stray (c : Char)
deriving DecidableEq, Repr

/-- A run that stands alone is a keyword if it is spelled like one. -/
def Mark.ofRun (alone : Bool) (run : String) : Mark :=
  if alone then
    if run = "AND" then and
    else if run = "OR" then or
    else if run = "TRUE" ∨ run = "true" then const true
    else if run = "FALSE" ∨ run = "false" then const false
    else name run
  else name run

structure Token where
  mark : Mark
  offset : Nat
deriving DecidableEq, Repr

namespace Token

/-- A run under way, with the offset of its first character; the characters heard so far stand in
reverse. -/
inductive Mode where
  | between
  | inRun (start : Nat) (heard : List Char)
deriving DecidableEq, Repr

def isBlank (c : Char) : Bool := c == ' ' || c == '\t' || c == '\n' || c == '\r'

def ofRun (alone : Bool) (start : Nat) (heard : List Char) : Token :=
  ⟨.ofRun alone (String.ofList heard.reverse), start⟩

def first (offset : Nat) (c : Char) : List Token × Mode :=
  if isBlank c then ([], .between)
  else if c = '(' then ([⟨.opening, offset⟩], .between)
  else if c = ')' then ([⟨.closing, offset⟩], .between)
  else if Text.isNameChar c then ([], .inRun offset [c])
  else ([⟨.stray c, offset⟩], .between)

/-- One character: the tokens that it completes, and the mode after it. -/
def step : Mode → Nat → Char → List Token × Mode
  | .between, offset, c => first offset c
  | .inRun start heard, offset, c =>
    if Text.isNameChar c then ([], .inRun start (c :: heard))
    else
      let (found, mode) := first offset c
      (ofRun (!Text.isWordChar c) start heard :: found, mode)

/-- A run of characters: the tokens that it completes, and the mode after it. -/
def run : Mode → Nat → List Char → List Token × Mode
  | mode, _, [] => ([], mode)
  | mode, offset, c :: rest =>
    let (found, mode) := step mode offset c
    let (later, mode) := run mode (offset + 1) rest
    (found ++ later, mode)

/-- The end of the text completes the run under way. -/
def finish : Mode → List Token
  | .between => []
  | .inRun start heard => [ofRun true start heard]

def scan (text : String) : List Token :=
  let (found, mode) := run .between 0 text.toList
  found ++ finish mode

theorem run_append (mode : Mode) (offset : Nat) (front back : List Char) :
    run mode offset (front ++ back) =
      ((run mode offset front).1 ++ (run (run mode offset front).2 (offset + front.length) back).1,
        (run (run mode offset front).2 (offset + front.length) back).2) := by
  induction front generalizing mode offset with
  | nil => simp [run]
  | cons c rest ih =>
    simp only [List.cons_append, run, ih, List.length_cons, List.append_assoc, Nat.add_assoc,
      Nat.add_comm 1]

end Token

end Passage.Formula
