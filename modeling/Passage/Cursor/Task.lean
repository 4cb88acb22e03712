import Passage.Cursor
import Passage.Token

/-!
# Tasks for a cursor

A cursor looks ahead and moves ahead by one task after another, each with its reply. Over the
characters of a text it shows texts, and the empty text where there is no character; it also says
whether so many places ahead lie past the end, and where it stands. Over tokens it shows the last
one, which is the end mark, wherever there is no other.
-/
namespace Passage.Cursor

inductive Task where
  | peek (k : Int)
  | consume (k : Int)
deriving DecidableEq, Repr

/-- What a cursor over characters can be asked for. -/
inductive CharTask where
  | find (task : Task)
  | pastEnd (k : Int)
  | location
deriving DecidableEq, Repr

inductive CharReply where
  | found (result : Except CursorError String)
  | truth (b : Bool)
  | place (location : Int)

def findChar : Task → Cursor Char → Except CursorError String × Cursor Char
  | .peek k, c => (.ok (String.ofList (c.peek? k).toList), c)
  | .consume k, c =>
    let (found, moved) := c.advance k
    (found.map String.singleton, moved)

def answerChar : CharTask → Cursor Char → CharReply × Cursor Char
  | .find task, c =>
    let (found, moved) := findChar task c
    (.found found, moved)
  | .pastEnd k, c => (.truth (c.pastEnd k), c)
  | .location, c => (.place c.location, c)

def findToken : Task → Cursor Token → Except CursorError Token × Cursor Token
  | .peek k, c => (c.peekLast k, c)
  | .consume k, c => c.advance k

/-- The cursor that some tasks leave, served one after the other. -/
def after {τ ρ α : Type} (serve : τ → Cursor α → ρ × Cursor α) (tasks : List τ) (c : Cursor α) :
    Cursor α :=
  tasks.foldl (fun c task => (serve task c).2) c

end Passage.Cursor
