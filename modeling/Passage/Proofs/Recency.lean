import Mathlib.Data.List.Dedup
import Mathlib.Data.List.DropRight
import Passage.Env
import Passage.Formula.Reading

/-!
# What a memo holds

A memo that was empty at first holds the keys that were asked with success since it was cleared
last: each of them once, in the order in which they were last asked, and of these the last ones for
which there is room. The list of all such keys is made from the history of uses alone (`latest`).
Every use does to the keys in the memo what it does to the end of that list (`Latest.again`,
`Latest.another`), so a memo never has to know what it gave up.
-/
namespace Passage

namespace Memo

/-- What can be done with a memo. -/
inductive Use (κ : Type) where
  | ask (key : κ)
  | clear
deriving DecidableEq, Repr

variable {κ ε α : Type} {f : κ → Except ε α} {capacity : Nat}

namespace Use

def isAsk : Use κ → Bool
  | ask _ => true
  | clear => false

/-- The key that was asked, if there is a result for it. -/
def success? (f : κ → Except ε α) : Use κ → Option κ
  | ask key => (f key).toOption.map fun _ => key
  | clear => none

end Use

/-- The keys asked with success since the last time that all was cleared, from the first one to the
last. -/
def successes (f : κ → Except ε α) (uses : List (Use κ)) : List κ :=
  (uses.rtakeWhile Use.isAsk).filterMap (Use.success? f)

/-- The last keys of a list, as many as there is room for. -/
def Latest (capacity : Nat) (list last : List κ) : Prop :=
  ∃ front, list = front ++ last ∧ last.length ≤ capacity ∧ (front = [] ∨ last.length = capacity)

theorem Latest.eq_rtake {list last : List κ} (h : Latest capacity list last) :
    last = list.rtake capacity := by
  obtain ⟨front, rfl, hle, rfl | hfull⟩ := h
  · have hnone : ([] ++ last).length - capacity = 0 := by
      rw [List.nil_append]
      omega
    rw [List.rtake, hnone]
    rfl
  · have hfront : (front ++ last).length - capacity = front.length := by
      rw [List.length_append]
      omega
    rw [List.rtake, hfront, List.drop_left]

theorem length_rtake_le (list : List κ) : (list.rtake capacity).length ≤ capacity := by
  rw [List.rtake, List.length_drop]
  omega

theorem successes_ask (uses : List (Use κ)) (key : κ) :
    successes f (uses ++ [.ask key]) = successes f uses ++ (Use.success? f (.ask key)).toList := by
  have hask : (Use.ask key).isAsk = true := rfl
  rw [successes, List.rtakeWhile_concat, if_pos hask, List.filterMap_append, ← successes]
  cases hkey : Use.success? f (.ask key) <;> simp [hkey]

theorem successes_clear (uses : List (Use κ)) : successes f (uses ++ [.clear]) = [] := by
  have hclear : ¬ (Use.clear : Use κ).isAsk = true := Bool.false_ne_true
  rw [successes, List.rtakeWhile_concat, if_neg hclear]
  rfl

theorem map_fst_room (entries : List (κ × α)) : (room capacity entries).map Prod.fst =
    if capacity ≤ entries.length then (entries.map Prod.fst).drop 1 else entries.map Prod.fst := by
  unfold room
  split
  · rw [List.map_drop]
  · rfl

variable [DecidableEq κ]

/-- The same keys, each of them only where it was asked last. -/
def latest (f : κ → Except ε α) (uses : List (Use κ)) : List κ := (successes f uses).dedup

def use (memo : Memo f capacity) : Use κ → Memo f capacity
  | .ask key => (memo.request key).2
  | .clear => .empty

/-- A memo, empty at first, after it was used. -/
def used (f : κ → Except ε α) (capacity : Nat) (uses : List (Use κ)) : Memo f capacity :=
  uses.foldl use .empty

theorem used_concat (uses : List (Use κ)) (last : Use κ) :
    used f capacity (uses ++ [last]) = (used f capacity uses).use last := by
  rw [used, List.foldl_append]
  rfl

/-- A key that comes again gives up its earlier place. -/
theorem dedup_concat (list : List κ) (key : κ) :
    (list ++ [key]).dedup = list.dedup.filter (· ≠ key) ++ [key] := by
  induction list with
  | nil => simp
  | cons first rest ih =>
    rw [List.cons_append, List.dedup_cons, List.dedup_cons, ih]
    by_cases hrest : first ∈ rest
    · rw [if_pos hrest, if_pos (List.mem_append_left _ hrest)]
    · rw [if_neg hrest]
      by_cases hfirst : first = key
      · simp [hfirst]
      · simp [hrest, hfirst]

theorem latest_ask_ok {key : κ} {result : α} (h : f key = .ok result) (uses : List (Use κ)) :
    latest f (uses ++ [.ask key]) = (latest f uses).filter (· ≠ key) ++ [key] := by
  have hkey : Use.success? f (.ask key) = some key := by
    rw [Use.success?, h]
    rfl
  rw [latest, successes_ask, hkey, Option.toList_some, dedup_concat]
  rfl

theorem latest_ask_error {key : κ} {e : ε} (h : f key = .error e) (uses : List (Use κ)) :
    latest f (uses ++ [.ask key]) = latest f uses := by
  have hkey : Use.success? f (.ask key) = none := by
    rw [Use.success?, h]
    rfl
  rw [latest, successes_ask, hkey, Option.toList_none, List.append_nil]
  rfl

theorem latest_clear (uses : List (Use κ)) : latest f (uses ++ [.clear]) = [] := by
  rw [latest, successes_clear, List.dedup_nil]

/-! ## What a use does to the keys -/

variable {memo : Memo f capacity} {key : κ} {result : α} {list last : List κ}

theorem remembers_iff : memo.remembers key = true ↔ key ∈ memo.keys := by
  rw [remembers, kept?, List.find?_isSome, keys, List.mem_map]
  simp only [decide_eq_true_eq]

theorem keys_request_of_mem (h : key ∈ memo.keys) :
    (memo.request key).2.keys = memo.keys.filter (· ≠ key) ++ [key] := by
  unfold request
  split
  · rename_i entry hkept
    have hkey := (eq_of_kept hkept).1
    simp only [keys, touch, List.map_append, List.filter_map, List.map_singleton, hkey]
    rfl
  · rename_i hkept
    have hsome := remembers_iff.mpr h
    rw [remembers, hkept] at hsome
    cases hsome

theorem keys_request_of_notMem (h : key ∉ memo.keys) (hf : f key = .ok result) :
    (memo.request key).2.keys =
      (if capacity ≤ memo.keys.length then memo.keys.drop 1 else memo.keys) ++ [key] := by
  unfold request
  split
  · rename_i entry hkept
    have hsome : memo.remembers key = true := by rw [remembers, hkept]; rfl
    exact absurd (remembers_iff.mp hsome) h
  · split
    · simp only [keys, add, List.map_append, map_fst_room, List.map_singleton, List.length_map]
    · rename_i hfail
      rw [hf] at hfail
      cases hfail

/-! ## The end of the list -/

theorem length_filter_ne (h : last.Nodup) (hmem : key ∈ last) :
    (last.filter (· ≠ key)).length + 1 = last.length := by
  have herase := List.length_erase_of_mem hmem
  have hpos := List.length_pos_of_mem hmem
  have hfilter : last.erase key = last.filter (· ≠ key) := by
    rw [h.erase_eq_filter]
    refine List.filter_congr fun other _ => ?_
    simp [bne, beq_eq_decide]
  rw [hfilter] at herase
  omega

/-- A key that is among the last ones comes last among the same ones. -/
theorem Latest.again (h : Latest capacity list last) (hnodup : list.Nodup) (hmem : key ∈ last) :
    Latest capacity (list.filter (· ≠ key) ++ [key]) (last.filter (· ≠ key) ++ [key]) := by
  obtain ⟨front, rfl, hle, hroom⟩ := h
  have hlength : (last.filter (· ≠ key) ++ [key]).length = last.length := by
    rw [List.length_append, List.length_singleton]
    exact length_filter_ne (List.nodup_append.mp hnodup).2.1 hmem
  refine ⟨front.filter (· ≠ key), ?_, ?_, ?_⟩
  · rw [List.filter_append, List.append_assoc]
  · rw [hlength]
    exact hle
  · rw [hlength]
    refine hroom.imp_left fun hfront => ?_
    rw [hfront, List.filter_nil]

/-- Another key takes the place of the first of them, if there is no room left. -/
theorem Latest.another (hpos : 0 < capacity) (h : Latest capacity list last) (hnew : key ∉ last) :
    Latest capacity (list.filter (· ≠ key) ++ [key])
      ((if capacity ≤ last.length then last.drop 1 else last) ++ [key]) := by
  obtain ⟨front, rfl, hle, hroom⟩ := h
  have hlast : last.filter (· ≠ key) = last := by
    rw [List.filter_eq_self]
    intro other hother
    rw [decide_eq_true_eq]
    rintro rfl
    exact hnew hother
  rw [List.filter_append, hlast]
  by_cases hfull : capacity ≤ last.length
  · rw [if_pos hfull]
    cases last with
    | nil => exact absurd hfull (Nat.not_le_of_lt hpos)
    | cons oldest rest =>
      rw [List.length_cons] at hfull hle
      refine ⟨front.filter (· ≠ key) ++ [oldest], by simp, ?_, .inr ?_⟩
      · simp only [List.drop_one, List.tail_cons, List.length_append, List.length_singleton]
        exact hle
      · simp only [List.drop_one, List.tail_cons, List.length_append, List.length_singleton]
        omega
  · rw [if_neg hfull]
    have hfront : front = [] := hroom.resolve_right (by omega)
    refine ⟨[], by rw [hfront]; simp, ?_, .inl rfl⟩
    rw [List.length_append, List.length_singleton]
    omega

/-- Whatever was asked and cleared, the keys in the memo are the last ones of those it may hold. -/
theorem latest_keys_used (f : κ → Except ε α) (hpos : 0 < capacity) (uses : List (Use κ)) :
    Latest capacity (latest f uses) (used f capacity uses).keys := by
  induction uses using List.reverseRecOn with
  | nil => exact ⟨[], rfl, Nat.zero_le _, .inl rfl⟩
  | append_singleton uses last ih =>
    rw [used_concat]
    cases last with
    | clear =>
      rw [latest_clear]
      exact ⟨[], rfl, Nat.zero_le _, .inl rfl⟩
    | ask key =>
      cases hf : f key with
      | error e =>
        rw [latest_ask_error hf, use, request_of_error hf]
        exact ih
      | ok result =>
        rw [latest_ask_ok hf, use]
        by_cases hmem : key ∈ (used f capacity uses).keys
        · rw [keys_request_of_mem hmem]
          exact ih.again (List.nodup_dedup _) hmem
        · rw [keys_request_of_notMem hmem hf]
          exact ih.another hpos hmem

/-- A memo of a function, however it was used, answers as the function does and holds the keys that
were asked last with success. -/
structure HoldsLatest (f : κ → Except ε α) (capacity : Nat) : Prop where
  answer : ∀ uses key, ((used f capacity uses).request key).1 = f key
  hit : ∀ uses key,
    (used f capacity uses).remembers key = true ↔ key ∈ (latest f uses).rtake capacity
  failure : ∀ uses key e, f key = .error e →
    (used f capacity uses).request key = (.error e, used f capacity uses)
  keys : ∀ uses, (used f capacity uses).keys = (latest f uses).rtake capacity
  once : ∀ uses, (used f capacity uses).keys.Nodup
  bounded : ∀ uses, (used f capacity uses).size ≤ capacity
  results : ∀ uses, ∀ entry ∈ (used f capacity uses).entries, f entry.1 = .ok entry.2

theorem holdsLatest (f : κ → Except ε α) (hpos : 0 < capacity) : HoldsLatest f capacity := by
  have hkeys (uses : List (Use κ)) :
      (used f capacity uses).keys = (latest f uses).rtake capacity :=
    (latest_keys_used f hpos uses).eq_rtake
  have hsuffix (uses : List (Use κ)) : (latest f uses).rtake capacity <:+ latest f uses :=
    List.drop_suffix _ _
  refine ⟨?_, ?_, ?_, hkeys, ?_, ?_, ?_⟩
  · exact fun uses key => answer_request _ key
  · intro uses key
    rw [remembers_iff, hkeys]
  · exact fun uses key e he => request_of_error he
  · intro uses
    rw [hkeys]
    exact (List.nodup_dedup _).sublist (hsuffix uses).sublist
  · intro uses
    have hlength : (used f capacity uses).size = (used f capacity uses).keys.length :=
      (List.length_map Prod.fst).symm
    rw [hlength, hkeys]
    exact length_rtake_le _
  · exact fun uses => (used f capacity uses).valid

/-- With room for two keys, a failure takes no room, and a key that is asked again stays. -/
example : (used (fun key : Nat => if key = 0 then .error "none" else .ok key) 2
    [.ask 1, .ask 2, .ask 0, .ask 1, .ask 3]).keys = [1, 3] := by
  decide

end Memo

/-- The trees of rule texts and those of formulas are remembered without any trace in the answers:
of each kind the thousand that were asked last with success, and no others. -/
theorem memos_hold_latest :
    Memo.HoldsLatest RuleText.expr 1000 ∧ Memo.HoldsLatest Formula.Tree.ofText 1000 :=
  ⟨Memo.holdsLatest _ (by decide), Memo.holdsLatest _ (by decide)⟩

end Passage
