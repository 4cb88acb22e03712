import Passage.Action
import Passage.Cursor
import Passage.Token

/-!
# A scanner with a cursor

A scanner can also go through a text by a cursor that looks ahead before it moves: over a sign or a
blank place by place, over a name in one leap, over a text between quotes until it sees the second
quote. A move past the end would be a failure of its own kind. Each loop is bounded by a number of
turns.
-/
namespace Passage.Token

/-- What stops a scanner with a cursor: something in the text, or a move of the cursor. -/
inductive CursorScanError where
  | token (error : TokenError)
  | cursor (error : CursorError)
deriving DecidableEq, Repr

abbrev CursorScan (α : Type) := Action (Cursor Char) CursorScanError α

namespace CursorScan

def consume (k : Nat) : CursorScan Char := Action.ofOutcome fun cursor =>
  let (result, moved) := cursor.advance k
  some (result.mapError .cursor, moved)

/-- The name characters ahead, from the given number of places on. -/
def nameAhead (cursor : Cursor Char) :
    Nat → (places : Nat) → (heard : List Char) → CursorScan (List Char)
  | 0, _, _ => Action.tooDeep
  | turns + 1, places, heard =>
    match cursor.pastEnd places, cursor.peek? places with
    | false, some c =>
      if Text.isNameChar c then nameAhead cursor turns (places + 1) (c :: heard)
      else return heard.reverse
    | _, _ => return heard.reverse

/-- The rest of a text between quotes, with its second quote. -/
def restOfText (start : Nat) : Nat → (heard : List Char) → CursorScan (List Char)
  | 0, _ => Action.tooDeep
  | turns + 1, heard => do
    let cursor ← Action.read id
    if cursor.peek? 1 = some '\x22' then
      let _ ← consume 1
      return heard.reverse
    else if cursor.pastEnd 1 then throw (.token (.unclosed start))
    else
      let c ← consume 1
      restOfText start turns (c :: heard)

/-- The item that starts with the character ahead. -/
def item (turns position : Nat) (c : Char) : CursorScan (List Token) := do
  if isBlank c then
    let _ ← consume 1
    return []
  else if c = '(' then
    let _ ← consume 1
    return [⟨.opening, position⟩]
  else if c = ')' then
    let _ ← consume 1
    return [⟨.closing, position⟩]
  else if c = ',' then
    let _ ← consume 1
    return [⟨.comma, position⟩]
  else if c = '\x22' then
    let _ ← consume 1
    let inner ← restOfText position turns []
    return [⟨.text (String.ofList inner), position⟩]
  else if c = '=' then
    let _ ← consume 1
    let cursor ← Action.read id
    if cursor.peek? 1 = some '=' then
      let _ ← consume 1
      return [⟨.equal, position⟩]
    else throw (.token (.loneEqual (cursor.location.toNat + 1)))
  else
    let name ← nameAhead (← Action.read id) turns 1 []
    if name = [] then throw (.token (.stray position c))
    else
      let _ ← consume name.length
      return [⟨.ofRun (String.ofList name), position⟩]

/-- All items up to the end of the text, and the end mark. -/
def listing : Nat → CursorScan (List Token)
  | 0 => Action.tooDeep
  | turns + 1 => do
    let cursor ← Action.read id
    let position := cursor.location.toNat + 1
    match cursor.peek? 1 with
    | none => return [⟨.ending, position⟩]
    | some c =>
      let found ← item (turns + 1) position c
      let later ← listing turns
      return found ++ later

end CursorScan

end Passage.Token
