import Passage.Text.Quoted
import Passage.Text.Word

/-!
# Tokens of rule text

Rule text is a run of items: blanks, parentheses, commas, the pair `==`, texts between double
quotes and runs of name characters. The scanner reads it one character at a time; its mode says
which item is under way, so a run of characters takes any mode to the next one and the runs of two
texts compose (`run_append`). Positions count characters from one.
-/
namespace Passage

inductive Symbol where
  | opening
  | closing
  | comma
  | equal
  | and
  | or
  | bool (b : Bool)
  | text (s : String)
  | name (s : String)
  | ending
deriving DecidableEq, Repr

namespace Symbol

/-- The class of a symbol in a listing of tokens. -/
def label : Symbol → String
  | opening => "LPAREN"
  | closing => "RPAREN"
  | comma => "COMMA"
  | equal => "EQUAL_TO"
  | and => "AND"
  | or => "OR"
  | bool _ => "BOOLEAN"
  | text _ => "STRING"
  | name _ => "IDENT"
  | ending => "EOF"

/-- The characters of a symbol; those of a text stand without its quotes. -/
def spelling : Symbol → String
  | opening => "("
  | closing => ")"
  | comma => ","
  | equal => "=="
  | and => "AND"
  | or => "OR"
  | bool true => "TRUE"
  | bool false => "FALSE"
  | text s => s
  | name s => s
  | ending => ""

/-- A run of name characters is a name unless it is one of the four keywords. -/
def ofRun (run : String) : Symbol :=
  if run = "AND" then and
  else if run = "OR" then or
  else if run = "TRUE" then bool true
  else if run = "FALSE" then bool false
  else name run

/-- A run keeps its characters, keyword or not. -/
@[simp] theorem spelling_ofRun (run : String) : (ofRun run).spelling = run := by
  unfold ofRun
  split
  · simp_all [spelling]
  · split
    · simp_all [spelling]
    · split
      · simp_all [spelling]
      · split <;> simp_all [spelling]

end Symbol

structure Token where
  symbol : Symbol
  position : Nat
deriving DecidableEq, Repr

inductive TokenError where
  /-- A character that starts no item. -/
  | stray (position : Nat) (found : Char)
  /-- A quote without its partner. -/
  | unclosed (start : Nat)
  /-- Something other than the second half of a pair `==`. -/
  | loneEqual (position : Nat)
deriving DecidableEq, Repr

namespace TokenError

def position : TokenError → Nat
  | stray position _ => position
  | unclosed start => start
  | loneEqual position => position

def message : TokenError → String
  | stray position found =>
    s!"Unrecognizable syntax at character [{position}]: " ++ Text.quoted (String.singleton found)
  | unclosed start => s!"Unterminated string starting at character [{start}]"
  | loneEqual position => s!"Character = expected in expression at position [{position}]"

end TokenError

namespace Token

/-- The item under way, with the position of its first character; the characters heard so far
stand in reverse. -/
inductive Mode where
  | between
  | inName (start : Nat) (heard : List Char)
  | inText (start : Nat) (heard : List Char)
  | afterEqual (start : Nat)
deriving DecidableEq, Repr

def isBlank (c : Char) : Bool := c == ' ' || c == '\t' || c == '\n' || c == '\r'

def ofName (start : Nat) (heard : List Char) : Token :=
  ⟨.ofRun (String.ofList heard.reverse), start⟩

def first (position : Nat) (c : Char) : Except TokenError (List Token × Mode) :=
  if isBlank c then .ok ([], .between)
  else if c = '(' then .ok ([⟨.opening, position⟩], .between)
  else if c = ')' then .ok ([⟨.closing, position⟩], .between)
  else if c = ',' then .ok ([⟨.comma, position⟩], .between)
  else if c = '\x22' then .ok ([], .inText position [])
  else if c = '=' then .ok ([], .afterEqual position)
  else if Text.isNameChar c then .ok ([], .inName position [c])
  else .error (.stray position c)

theorem first_of_isNameChar {c : Char} (h : Text.isNameChar c = true) (position : Nat) :
    first position c = .ok ([], .inName position [c]) := by
  have hne (d : Char) (hd : Text.isNameChar d = false) : c ≠ d := by
    rintro rfl
    rw [h] at hd
    cases hd
  simp [first, isBlank, h, hne ' ' rfl, hne '\t' rfl, hne '\n' rfl, hne '\r' rfl, hne '(' rfl,
    hne ')' rfl, hne ',' rfl, hne '\x22' rfl, hne '=' rfl]

/-- One character: the tokens that it completes, and the mode after it. -/
def step : Mode → Nat → Char → Except TokenError (List Token × Mode)
  | .between, position, c => first position c
  | .inName start heard, position, c =>
    if Text.isNameChar c then .ok ([], .inName start (c :: heard))
    else (first position c).map fun (found, mode) => (ofName start heard :: found, mode)
  | .inText start heard, _, c =>
    if c = '\x22' then .ok ([⟨.text (String.ofList heard.reverse), start⟩], .between)
    else .ok ([], .inText start (c :: heard))
  | .afterEqual start, position, c =>
    if c = '=' then .ok ([⟨.equal, start⟩], .between) else .error (.loneEqual position)

/-- A run of characters: the tokens that it completes, and the mode after it. -/
def run : Mode → Nat → List Char → Except TokenError (List Token × Mode)
  | mode, _, [] => .ok ([], mode)
  | mode, position, c :: rest => do
    let (found, mode) ← step mode position c
    let (later, mode) ← run mode (position + 1) rest
    return (found ++ later, mode)

/-- The end of the text closes a name, and nothing else that is under way. -/
def finish : Mode → Nat → Except TokenError (List Token)
  | .between, _ => .ok []
  | .inName start heard, _ => .ok [ofName start heard]
  | .inText start _, _ => .error (.unclosed start)
  | .afterEqual _, position => .error (.loneEqual position)

def scanChars (text : List Char) : Except TokenError (List Token) := do
  let (found, mode) ← run .between 1 text
  let last ← finish mode (text.length + 1)
  return found ++ last

def scan (text : String) : Except TokenError (List Token) := scanChars text.toList

/-- The end mark stands one place behind the last character. -/
def endOf (text : String) : Token := ⟨.ending, text.length + 1⟩

def listing (text : String) : Except TokenError (List Token) :=
  (scan text).map fun tokens => tokens ++ [endOf text]

theorem run_append (mode : Mode) (position : Nat) (front back : List Char) :
    run mode position (front ++ back) = do
      let (found, mode) ← run mode position front
      let (later, mode) ← run mode (position + front.length) back
      return (found ++ later, mode) := by
  induction front generalizing mode position with
  | nil =>
    cases h : run mode position back <;>
      simp [run, h, bind, Except.bind, pure, Except.pure]
  | cons c rest ih =>
    simp only [List.cons_append, run, ih, bind_assoc, pure_bind, List.length_cons,
      List.append_assoc, Nat.add_assoc, Nat.add_comm 1]

end Token

end Passage
