/-!
# Cursors

A cursor stands on an item of a sequence, or just before the first one, and moves by any number of
places. Moving past the end fails and leaves the cursor where it was. A place before the start is
read from the end of the sequence; a place too far before it fails after the move.
-/
namespace Passage

structure Cursor (α : Type) where
  items : List α
  /-- The place of the item under the cursor, one less than the place of the next item. -/
  place : Int
deriving DecidableEq, Repr

inductive CursorError where
  /-- A move past the last item, with the location of the next item and the number of items. -/
  | pastEnd (location : Int) (length : Nat)
  /-- A place so far before the start that reading from the end does not reach it. -/
  | beforeStart
deriving DecidableEq, Repr

namespace Cursor

variable {α : Type}

/-- A new cursor stands before the first item. -/
def start (items : List α) : Cursor α := ⟨items, -1⟩

def location (c : Cursor α) : Int := c.place + 1

/-- Whether the item `k` places ahead lies past the end. -/
def pastEnd (c : Cursor α) (k : Int) : Bool := decide ((c.items.length : Int) ≤ c.place + k)

/-- The item at a place, none outside of the sequence. -/
def item? (items : List α) (place : Int) : Option α :=
  if 0 ≤ place then items[place.toNat]? else none

/-- The item at a place, where a place before the start counts from the end. -/
def wrapped? (items : List α) (place : Int) : Option α :=
  if 0 ≤ place then items[place.toNat]? else item? items (place + items.length)

def peek? (c : Cursor α) (k : Int) : Option α := item? c.items (c.place + k)

/-- The item `k` places ahead; past the end it is the last one. -/
def peekLast (c : Cursor α) (k : Int) : Except CursorError α :=
  let found := if c.pastEnd k then c.items.getLast? else wrapped? c.items (c.place + k)
  match found with
  | some item => .ok item
  | none => .error .beforeStart

/-- Moves `k` places ahead and reads the item there. -/
def advance (c : Cursor α) (k : Int) : Except CursorError α × Cursor α :=
  if c.pastEnd k then (.error (.pastEnd c.location c.items.length), c)
  else
    let moved : Cursor α := ⟨c.items, c.place + k⟩
    match wrapped? c.items moved.place with
    | some item => (.ok item, moved)
    | none => (.error .beforeStart, moved)

@[simp] theorem items_advance (c : Cursor α) (k : Int) : (c.advance k).2.items = c.items := by
  unfold advance
  split
  · rfl
  · dsimp only
    split <;> rfl

theorem advance_of_pastEnd {c : Cursor α} {k : Int} (h : c.pastEnd k = true) :
    c.advance k = (.error (.pastEnd c.location c.items.length), c) := by
  simp [advance, h]

/-! ## What is passed and what is ahead -/

variable {front rest : List α}

/-- The cursor that has passed the items in front and has the rest ahead. -/
def between (front rest : List α) : Cursor α := ⟨front ++ rest, (front.length : Int) - 1⟩

theorem start_eq_between (items : List α) : start items = between [] items := rfl

theorem location_between : (between front rest).location = front.length := by
  show (front.length : Int) - 1 + 1 = front.length
  omega

/-- Ahead, beyond some items, lies the first one behind them. -/
theorem peek?_beyond (front seen rest : List α) :
    (between front (seen ++ rest)).peek? (seen.length + 1 : Nat) = rest.head? := by
  have hplace : (front.length : Int) - 1 + (seen.length + 1 : Nat) =
      ((front.length + seen.length : Nat) : Int) := by
    omega
  unfold peek? between item?
  rw [hplace, if_pos (Int.natCast_nonneg _), Int.toNat_natCast,
    List.getElem?_append_right (by omega),
    List.getElem?_append_right (by omega), List.head?_eq_getElem?]
  congr 1
  omega

theorem pastEnd_beyond (front seen rest : List α) :
    (between front (seen ++ rest)).pastEnd (seen.length + 1 : Nat) = rest.isEmpty := by
  unfold pastEnd between
  cases rest with
  | nil =>
    simp only [List.length_append, List.append_nil, List.isEmpty_nil, decide_eq_true_eq]
    omega
  | cons item rest =>
    simp only [List.length_append, List.length_cons, List.isEmpty_cons, decide_eq_false_iff_not]
    omega

theorem peek?_one (front rest : List α) : (between front rest).peek? 1 = rest.head? :=
  peek?_beyond front [] rest

theorem pastEnd_one (front rest : List α) : (between front rest).pastEnd 1 = rest.isEmpty :=
  pastEnd_beyond front [] rest

/-- A leap over some items ends on the last one of them. -/
theorem advance_between (skipped : List α) (hne : skipped ≠ []) :
    (between front (skipped ++ rest)).advance skipped.length =
      (.ok (skipped.getLast hne), between (front ++ skipped) rest) := by
  have hpos := List.length_pos_iff.mpr hne
  have hend : (between front (skipped ++ rest)).pastEnd skipped.length = false := by
    unfold pastEnd between
    simp only [List.length_append, decide_eq_false_iff_not]
    omega
  have hplace : (front.length : Int) - 1 + skipped.length =
      ((front.length + (skipped.length - 1) : Nat) : Int) := by
    omega
  have hfound : wrapped? (front ++ (skipped ++ rest)) ((front.length : Int) - 1 + skipped.length) =
      some (skipped.getLast hne) := by
    rw [hplace, wrapped?, if_pos (Int.natCast_nonneg _), Int.toNat_natCast,
      List.getElem?_append_right (by omega), Nat.add_sub_cancel_left,
      List.getElem?_append_left (by omega), List.getLast_eq_getElem, List.getElem?_eq_getElem]
  have hmoved : between (front ++ skipped) rest =
      ⟨front ++ (skipped ++ rest), (front.length : Int) - 1 + skipped.length⟩ := by
    unfold between
    rw [List.append_assoc, List.length_append]
    congr 1
    omega
  unfold advance
  rw [hend, hmoved]
  simp only [between, hfound]
  rfl

end Cursor

namespace CursorError

/-- The message for a cursor over `sequence`, whose items are those of a `container`. -/
def message (sequence container : String) : CursorError → String
  | pastEnd location length =>
    s!"Cannot consume past end of {sequence} (cursor {location}, length {length})"
  | beforeStart => s!"{container} index out of range"

end CursorError

end Passage
