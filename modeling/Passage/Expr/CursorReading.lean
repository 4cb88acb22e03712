import Passage.Action
import Passage.Cursor
import Passage.Expr.Reading

/-!
# A reader with a cursor

A reader can also go through the tokens of a text, the end mark the last of them, by a cursor: it
looks at the token ahead, and takes it if that is the one it is after. A complaint is about the
token ahead at that moment. A move past the end mark would be a failure of its own kind.
-/
namespace Passage.Reading

/-- What stops a reader with a cursor: something about the tokens, or a move of the cursor. -/
inductive CursorReadError where
  | reading (error : ReadError)
  | cursor (error : CursorError)
deriving DecidableEq, Repr

abbrev CursorReader (α : Type) := Action (Cursor Token) CursorReadError α

namespace CursorReader

def ahead : CursorReader Token := Action.ofOutcome fun cursor =>
  some ((cursor.peekLast 1).mapError .cursor, cursor)

def take : CursorReader Token := Action.ofOutcome fun cursor =>
  let (found, moved) := cursor.advance 1
  some (found.mapError .cursor, moved)

def complain {α : Type} (text : String) (complaint : Complaint) : CursorReader α := do
  let token ← ahead
  throw (.reading (.grammar complaint token.position text))

def close (text : String) : CursorReader Unit := do
  let token ← ahead
  if token.symbol ≠ .closing then complain text .unclosed
  else
    let _ ← take
    return ()

/-- Reads an expression of a level from the tokens ahead, to a depth of at most the second
argument. -/
def read (text : String) : Nat → Level → CursorReader Expr
  | 0, _ => Action.tooDeep
  | depth + 1, .binary op => do
    let lhs ← read text depth (.ofOperand op)
    let token ← ahead
    if token.symbol ≠ op.mark then return lhs
    else if lhs = .empty then complain text (.missingLeft op)
    else
      let _ ← take
      let rhs ← read text depth (.binary op)
      if rhs = .empty then complain text (.missingRight op)
      else return .binary op lhs rhs
  | depth + 1, .call => do
    let callee ← read text depth .term
    let token ← ahead
    if token.symbol ≠ .opening then return callee
    else
      let _ ← take
      let args ← read text depth .whole
      close text
      return .call callee args
  | depth + 1, .term => do
    let token ← ahead
    match token.symbol with
    | .name s =>
      let _ ← take
      return .var s
    | .bool b =>
      let _ ← take
      return .bool b
    | .text s =>
      let _ ← take
      return .text s
    | .opening =>
      let _ ← take
      let inner ← read text depth .whole
      close text
      return inner
    | _ => return .empty

/-- Reads a text whose tokens are ahead. -/
def whole (depth : Nat) (rule : RuleText) : CursorReader Expr := do
  let e ← read rule.text depth .whole
  if rule.allowTrailing then return e
  else
    let token ← ahead
    if token.symbol ≠ .ending then complain rule.text (.leftOver token.symbol)
    else return e

end CursorReader

end Passage.Reading
