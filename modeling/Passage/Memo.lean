/-!
# Remembered results

A memo keeps the results of a function that may fail, for the keys asked most recently. Every entry
is a result of the function (`valid`), so an answer is the same with or without the memo
(`answer_request`). Only successes are kept; asking for a kept key makes it the most recent one, and
a full memo gives up the entry that was asked longest ago.
-/
namespace Passage

/-- At most `capacity` results of `f`, the most recently asked last. -/
structure Memo {κ ε α : Type} (f : κ → Except ε α) (capacity : Nat) where
  entries : List (κ × α)
  valid : ∀ entry ∈ entries, f entry.1 = .ok entry.2

namespace Memo

variable {κ ε α : Type} {f : κ → Except ε α} {capacity : Nat}

def empty : Memo f capacity := ⟨[], by simp⟩

instance : EmptyCollection (Memo f capacity) := ⟨empty⟩
instance : Inhabited (Memo f capacity) := ⟨empty⟩

def size (memo : Memo f capacity) : Nat := memo.entries.length

def keys (memo : Memo f capacity) : List κ := memo.entries.map Prod.fst

def room (capacity : Nat) (entries : List (κ × α)) : List (κ × α) :=
  if capacity ≤ entries.length then entries.drop 1 else entries

theorem mem_of_mem_room {entries : List (κ × α)} {entry : κ × α}
    (h : entry ∈ room capacity entries) : entry ∈ entries := by
  unfold room at h
  split at h
  · exact List.mem_of_mem_drop h
  · exact h

variable [DecidableEq κ]

def kept? (memo : Memo f capacity) (key : κ) : Option (κ × α) :=
  memo.entries.find? fun entry => entry.1 = key

theorem eq_of_kept {memo : Memo f capacity} {key : κ} {entry : κ × α}
    (h : memo.kept? key = some entry) : entry.1 = key ∧ f key = .ok entry.2 := by
  have hk : entry.1 = key := by simpa using List.find?_some h
  exact ⟨hk, hk ▸ memo.valid entry (List.mem_of_find?_eq_some h)⟩

def remembers (memo : Memo f capacity) (key : κ) : Bool := (memo.kept? key).isSome

/-- Makes the entry of a key the most recent one. -/
def touch (memo : Memo f capacity) (entry : κ × α) (h : f entry.1 = .ok entry.2) :
    Memo f capacity where
  entries := memo.entries.filter (fun other => other.1 ≠ entry.1) ++ [entry]
  valid := by
    intro other hm
    rcases List.mem_append.1 hm with hm | hm
    · exact memo.valid other (List.mem_filter.1 hm).1
    · rw [List.mem_singleton.1 hm]; exact h

/-- Adds a result, at the cost of the oldest one when the memo is full. -/
def add (memo : Memo f capacity) (entry : κ × α) (h : f entry.1 = .ok entry.2) :
    Memo f capacity where
  entries := room capacity memo.entries ++ [entry]
  valid := by
    intro other hm
    rcases List.mem_append.1 hm with hm | hm
    · exact memo.valid other (mem_of_mem_room hm)
    · rw [List.mem_singleton.1 hm]; exact h

/-- The result for a key, and the memo after the question. -/
def request (memo : Memo f capacity) (key : κ) : Except ε α × Memo f capacity :=
  match h : memo.kept? key with
  | some entry =>
    (.ok entry.2, memo.touch entry ((eq_of_kept h).1 ▸ (eq_of_kept h).2))
  | none =>
    match hf : f key with
    | .ok result => (.ok result, memo.add (key, result) hf)
    | .error e => (.error e, memo)

theorem answer_request (memo : Memo f capacity) (key : κ) : (memo.request key).1 = f key := by
  unfold request
  split
  · rename_i entry h
    exact (eq_of_kept h).2.symm
  · split
    · rename_i hf; exact hf.symm
    · rename_i hf; exact hf.symm

theorem request_of_error {memo : Memo f capacity} {key : κ} {e : ε} (h : f key = .error e) :
    memo.request key = (.error e, memo) := by
  have hn : memo.kept? key = none := by
    cases hm : memo.kept? key with
    | none => rfl
    | some entry => have := (eq_of_kept hm).2; rw [h] at this; cases this
  unfold request
  split
  · rename_i hs; rw [hn] at hs; cases hs
  · split
    · rename_i hf; rw [h] at hf; cases hf
    · rename_i hf; rw [h] at hf; cases hf; rfl

end Memo

end Passage
