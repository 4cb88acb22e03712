import Passage.Token

/-!
# Scanning item by item

The scanner goes through a text character by character, from one mode to the next. From outside it
takes one item after the other (`Token.scanFrom_item`): a blank, a sign, a text between quotes, or a
run of name characters up to the last one. An item leaves a token, unless it is a blank, and does
not depend on what comes before it.
-/
namespace Passage.Token

/-- Scans from an item under way to the end. -/
def scanFrom (mode : Mode) (position : Nat) (text : List Char) :
    Except TokenError (List Token) := do
  let (found, mode) ← run mode position text
  let last ← finish mode (position + text.length)
  return found ++ last

theorem scanFrom_cons (mode : Mode) (position : Nat) (c : Char) (rest : List Char) :
    scanFrom mode position (c :: rest) = do
      let (found, mode) ← step mode position c
      let later ← scanFrom mode (position + 1) rest
      return found ++ later := by
  have hend : position + (c :: rest).length = position + 1 + rest.length := by
    rw [List.length_cons]
    omega
  simp only [scanFrom, run, hend, bind_assoc, pure_bind, List.append_assoc]

theorem scanFrom_step {mode next : Mode} {position : Nat} {c : Char} {found : List Token}
    (h : step mode position c = .ok (found, next)) (rest : List Char) :
    scanFrom mode position (c :: rest) = do
      let later ← scanFrom next (position + 1) rest
      return found ++ later := by
  rw [scanFrom_cons, h]
  rfl

theorem scanFrom_silent {mode next : Mode} {position : Nat} {c : Char}
    (h : step mode position c = .ok ([], next)) (rest : List Char) :
    scanFrom mode position (c :: rest) = scanFrom next (position + 1) rest := by
  rw [scanFrom_step h]
  exact bind_pure _

theorem scan_eq_scanFrom (text : String) : scan text = scanFrom .between 1 text.toList := by
  rw [scan, scanChars, scanFrom, Nat.add_comm 1]

theorem ne_of_isNameChar {c d : Char} (hc : Text.isNameChar c = true)
    (hd : Text.isNameChar d = false) : c ≠ d := by
  rintro rfl
  rw [hc] at hd
  cases hd

/-- The text begins with no name character. -/
def Apart (text : List Char) : Prop := ∀ c rest, text = c :: rest → Text.isNameChar c = false

theorem apart_nil : Apart [] := nofun

theorem apart_cons {c : Char} (h : Text.isNameChar c = false) (rest : List Char) :
    Apart (c :: rest) := by
  intro d later he
  cases he
  exact h

variable {rest : List Char}

/-- The characters between two quotes are taken as they are. -/
theorem scanFrom_inText {chars : List Char} (hchars : '\x22' ∉ chars) (start position : Nat)
    (heard : List Char) :
    scanFrom (.inText start heard) position (chars ++ '\x22' :: rest) = do
      let later ← scanFrom .between (position + chars.length + 1) rest
      return ⟨.text (String.ofList (heard.reverse ++ chars)), start⟩ :: later := by
  induction chars generalizing position heard with
  | nil =>
    have hstep : step (.inText start heard) position '\x22' =
      .ok ([⟨.text (String.ofList heard.reverse), start⟩], .between) := rfl
    rw [List.nil_append, List.append_nil, scanFrom_step hstep]
    rfl
  | cons c chars ih =>
    rw [List.mem_cons, not_or] at hchars
    have hstep : step (.inText start heard) position c = .ok ([], .inText start (c :: heard)) :=
      if_neg (Ne.symm hchars.1)
    have hlength : position + 1 + chars.length = position + (c :: chars).length := by
      rw [List.length_cons]
      omega
    rw [List.cons_append, scanFrom_silent hstep, ih hchars.2, hlength, List.reverse_cons,
      List.append_assoc, List.singleton_append]

/-- A name goes on to the last name character. -/
theorem scanFrom_inName {chars : List Char} (hchars : chars.all Text.isNameChar = true)
    (hrest : Apart rest) (start position : Nat) (heard : List Char) :
    scanFrom (.inName start heard) position (chars ++ rest) = do
      let later ← scanFrom .between (position + chars.length) rest
      return ofName start (chars.reverse ++ heard) :: later := by
  induction chars generalizing position heard with
  | nil =>
    cases rest with
    | nil => rfl
    | cons c rest =>
      have hstep : step (.inName start heard) position c =
          (first position c).map fun (found, mode) => (ofName start heard :: found, mode) :=
        if_neg (by rw [hrest c rest rfl]; decide)
      rw [List.nil_append, List.length_nil, Nat.add_zero, scanFrom_cons, scanFrom_cons, hstep]
      show _ = ((first position c >>= _) >>= _)
      cases first position c with
      | error e => rfl
      | ok found =>
        obtain ⟨found, mode⟩ := found
        show (scanFrom mode (position + 1) rest >>= _) =
          ((scanFrom mode (position + 1) rest >>= _) >>= _)
        cases scanFrom mode (position + 1) rest <;> rfl
  | cons c chars ih =>
    rw [List.all_cons, Bool.and_eq_true] at hchars
    have hstep : step (.inName start heard) position c = .ok ([], .inName start (c :: heard)) :=
      if_pos hchars.1
    have hlength : position + 1 + chars.length = position + (c :: chars).length := by
      rw [List.length_cons]
      omega
    rw [List.cons_append, scanFrom_silent hstep, ih hchars.2, hlength, List.reverse_cons,
      List.append_assoc, List.singleton_append]

/-- An item of rule text. -/
inductive Item where
  | blank (c : Char) (h : isBlank c = true)
  | opening
  | closing
  | comma
  | equal
  | quoted (inner : List Char) (h : '\x22' ∉ inner)
  | run (chars : List Char) (hne : chars ≠ []) (h : chars.all Text.isNameChar = true)

namespace Item

def chars : Item → List Char
  | blank c _ => [c]
  | opening => ['(']
  | closing => [')']
  | comma => [',']
  | equal => ['=', '=']
  | quoted inner _ => '\x22' :: inner ++ ['\x22']
  | run chars _ _ => chars

/-- The characters of an item without quotes. -/
def inside : Item → List Char
  | quoted inner _ => inner
  | item => item.chars

/-- What an item says: a run is a keyword only if it is spelled like one from end to end. -/
def symbol? : Item → Option Symbol
  | blank _ _ => none
  | opening => some .opening
  | closing => some .closing
  | comma => some .comma
  | equal => some .equal
  | quoted inner _ => some (.text (String.ofList inner))
  | run chars _ _ =>
    match String.ofList chars with
    | "AND" => some .and
    | "OR" => some .or
    | "TRUE" => some (.bool true)
    | "FALSE" => some (.bool false)
    | name => some (.name name)

/-- The token that an item leaves, if any. -/
def tokens (position : Nat) (item : Item) : List Token :=
  (item.symbol?.map fun symbol => ⟨symbol, position⟩).toList

/-- A run does not end before a name character. -/
def Ends : Item → List Char → Prop
  | run _ _ _, rest => Apart rest
  | _, _ => True

theorem symbol?_run {chars : List Char} (hne : chars ≠ []) (h : chars.all Text.isNameChar = true) :
    (run chars hne h).symbol? = some (.ofRun (String.ofList chars)) := by
  unfold symbol? Symbol.ofRun
  dsimp only
  split <;> simp_all

/-- A symbol is spelled as its item is. -/
theorem spelling_symbol? {item : Item} {symbol : Symbol} (h : item.symbol? = some symbol) :
    symbol.spelling = String.ofList item.inside := by
  cases item with
  | blank c hc => cases h
  | opening | closing | comma | equal | quoted inner hinner =>
    cases h
    rfl
  | run chars hne hchars =>
    rw [symbol?_run] at h
    cases h
    exact Symbol.spelling_ofRun _

end Item

theorem scanFrom_item (item : Item) (h : item.Ends rest) (position : Nat) :
    scanFrom .between position (item.chars ++ rest) = do
      let later ← scanFrom .between (position + item.chars.length) rest
      return item.tokens position ++ later := by
  cases item with
  | blank c hblank =>
    have hstep : step .between position c = .ok ([], .between) := by
      rw [step, first, if_pos hblank]
    exact scanFrom_step hstep rest
  | opening | closing | comma => exact scanFrom_step rfl rest
  | equal =>
    have hfirst : step .between position '=' = .ok ([], .afterEqual position) := rfl
    have hsecond : step (.afterEqual position) (position + 1) '=' =
      .ok ([⟨.equal, position⟩], .between) := rfl
    show scanFrom .between position ('=' :: '=' :: rest) = _
    rw [scanFrom_silent hfirst, scanFrom_step hsecond]
    rfl
  | quoted inner hinner =>
    have hquote : step .between position '\x22' = .ok ([], .inText position []) := rfl
    have htext : (Item.quoted inner hinner).chars ++ rest =
        '\x22' :: (inner ++ '\x22' :: rest) := by
      simp [Item.chars]
    have hlength : position + (Item.quoted inner hinner).chars.length =
        position + 1 + inner.length + 1 := by
      simp only [Item.chars, List.length_append, List.length_cons, List.length_nil]
      omega
    rw [htext, hlength, scanFrom_silent hquote, scanFrom_inText hinner]
    rfl
  | run chars hne hchars =>
    obtain ⟨c, later, rfl⟩ := List.exists_cons_of_ne_nil hne
    have hall := hchars
    rw [List.all_cons, Bool.and_eq_true] at hall
    have hstep : step .between position c = .ok ([], .inName position [c]) :=
      first_of_isNameChar hall.1 position
    have hword : [ofName position (later.reverse ++ [c])] =
        (Item.run (c :: later) hne hchars).tokens position := by
      rw [Item.tokens, Item.symbol?_run, ofName, List.reverse_append, List.reverse_reverse]
      rfl
    have hlength : position + (Item.run (c :: later) hne hchars).chars.length =
        position + 1 + later.length := by
      simp only [Item.chars, List.length_cons]
      omega
    show scanFrom .between position (c :: (later ++ rest)) = _
    rw [scanFrom_silent hstep, scanFrom_inName hall.2 h, hlength, ← hword]
    rfl

end Passage.Token
