/-!
# Tables keyed by name

A table binds names to values, each name once, and keeps the names in the order in which they
first arrived. Binding a name again replaces its value and leaves its place. The lemmas state what
each operation does to `get?` and to `names`.
-/
namespace Passage

/-- Named values in order of first arrival. -/
structure Table (α : Type) where
  entries : List (String × α)
  distinct : (entries.map Prod.fst).Nodup

namespace Table

variable {α : Type}

@[ext] theorem ext {s t : Table α} (h : s.entries = t.entries) : s = t := by
  cases s; cases t; simp_all

instance [DecidableEq α] : DecidableEq (Table α) := fun s t =>
  if h : s.entries = t.entries then .isTrue (ext h)
  else .isFalse fun he => h (congrArg entries he)

def empty : Table α := ⟨[], .nil⟩

instance : EmptyCollection (Table α) := ⟨empty⟩
instance : Inhabited (Table α) := ⟨empty⟩

def names (t : Table α) : List String := t.entries.map Prod.fst

def size (t : Table α) : Nat := t.entries.length

/-- The value of `name` in a list of bindings: the first one counts. -/
def find (name : String) : List (String × α) → Option α
  | [] => none
  | (n, v) :: rest => if n = name then some v else find name rest

/-- Replaces the first binding of `name`, or adds one behind the others. -/
def put (name : String) (value : α) : List (String × α) → List (String × α)
  | [] => [(name, value)]
  | (n, v) :: rest => if n = name then (name, value) :: rest else (n, v) :: put name value rest

theorem map_fst_put (name : String) (value : α) (entries : List (String × α)) :
    (put name value entries).map Prod.fst =
      if name ∈ entries.map Prod.fst then entries.map Prod.fst
      else entries.map Prod.fst ++ [name] := by
  induction entries with
  | nil => simp [put]
  | cons entry rest ih =>
    obtain ⟨n, v⟩ := entry
    by_cases h : n = name
    · simp [put, h]
    · by_cases hm : name ∈ rest.map Prod.fst
      · have hm' : name ∈ ((n, v) :: rest).map Prod.fst := List.mem_cons_of_mem _ hm
        rw [if_pos hm] at ih
        rw [if_pos hm']
        simp [put, h, ih]
      · have hm' : name ∉ ((n, v) :: rest).map Prod.fst := by
          simpa [Ne.symm h] using hm
        rw [if_neg hm] at ih
        rw [if_neg hm']
        simp [put, h, ih]

theorem nodup_put (name : String) (value : α) {entries : List (String × α)}
    (h : (entries.map Prod.fst).Nodup) : ((put name value entries).map Prod.fst).Nodup := by
  rw [map_fst_put]
  split
  · exact h
  · rename_i hm
    rw [List.nodup_append]
    refine ⟨h, by simp, ?_⟩
    intro a ha b hb he
    simp only [List.mem_singleton] at hb
    exact hm (hb ▸ he ▸ ha)

def get? (t : Table α) (name : String) : Option α := find name t.entries

def contains (t : Table α) (name : String) : Bool := (t.get? name).isSome

/-- Binds `name`, in its old place when it already has one. -/
def insert (t : Table α) (name : String) (value : α) : Table α :=
  ⟨put name value t.entries, nodup_put name value t.distinct⟩

/-- Binds every listed name in turn, so that a later binding of a name wins. -/
def insertAll (t : Table α) (bindings : List (String × α)) : Table α :=
  bindings.foldl (fun t b => t.insert b.1 b.2) t

def ofList (bindings : List (String × α)) : Table α := insertAll empty bindings

/-- The same names with values made from them and their values. -/
def map {β : Type} (f : String → α → β) (t : Table α) : Table β where
  entries := t.entries.map fun entry => (entry.1, f entry.1 entry.2)
  distinct := by simpa [Function.comp_def] using t.distinct

def sorted (t : Table α) : List (String × α) :=
  t.entries.mergeSort fun a b => decide (a.1 ≤ b.1)

@[simp] theorem get?_empty (name : String) : (empty : Table α).get? name = none := rfl

theorem find_put (name other : String) (value : α) (entries : List (String × α)) :
    find other (put name value entries) = if other = name then some value
      else find other entries := by
  induction entries with
  | nil => by_cases h : name = other <;> simp [put, find, h, eq_comm]
  | cons entry rest ih =>
    obtain ⟨n, v⟩ := entry
    by_cases h : n = name
    · subst h
      by_cases ho : n = other
      · simp [put, find, ho]
      · simp [put, find, ho, Ne.symm ho]
    · by_cases ho : n = other
      · subst ho
        simp [put, find, h]
      · simp [put, find, h, ho, ih]

theorem get?_insert (t : Table α) (name other : String) (value : α) :
    (t.insert name value).get? other = if other = name then some value else t.get? other :=
  find_put name other value t.entries

@[simp] theorem get?_insert_self (t : Table α) (name : String) (value : α) :
    (t.insert name value).get? name = some value := by
  simp [get?_insert]

theorem get?_insert_of_ne (t : Table α) {name other : String} (value : α) (h : other ≠ name) :
    (t.insert name value).get? other = t.get? other := by
  simp [get?_insert, h]

/-- Bindings of other names leave a name what it was. -/
theorem get?_insertAll_of_notMem (t : Table α) {name : String} {bindings : List (String × α)}
    (h : name ∉ bindings.map Prod.fst) : (t.insertAll bindings).get? name = t.get? name := by
  induction bindings generalizing t with
  | nil => rfl
  | cons binding rest ih =>
    rw [List.map_cons, List.mem_cons, not_or] at h
    exact (ih (t.insert binding.1 binding.2) h.2).trans (get?_insert_of_ne t binding.2 h.1)

/-- Names that are all bound to one value have it, and other names keep theirs. -/
theorem get?_insertAll_same (t : Table α) (names : List String) (value : α) (name : String) :
    (t.insertAll (names.map fun name => (name, value))).get? name =
      if name ∈ names then some value else t.get? name := by
  induction names generalizing t with
  | nil => rfl
  | cons first rest ih =>
    have hrest := ih (t.insert first value)
    rw [get?_insert] at hrest
    refine hrest.trans ?_
    by_cases hmem : name ∈ rest
    · rw [if_pos hmem, if_pos (List.mem_cons_of_mem _ hmem)]
    · by_cases hfirst : name = first
      · rw [if_neg hmem, if_pos hfirst, if_pos (by simp [hfirst])]
      · rw [if_neg hmem, if_neg hfirst, if_neg (by simp [hmem, hfirst])]

theorem put_put (name : String) (value value' : α) (entries : List (String × α)) :
    put name value' (put name value entries) = put name value' entries := by
  induction entries with
  | nil => simp [put]
  | cons entry rest ih =>
    obtain ⟨n, v⟩ := entry
    by_cases h : n = name
    · simp [put, h]
    · simp [put, h, ih]

/-- The last binding of a name counts. -/
theorem insert_insert (t : Table α) (name : String) (value value' : α) :
    (t.insert name value).insert name value' = t.insert name value' :=
  ext (put_put name value value' t.entries)

theorem names_insert (t : Table α) (name : String) (value : α) :
    (t.insert name value).names = if name ∈ t.names then t.names else t.names ++ [name] :=
  map_fst_put name value t.entries

theorem find_eq_none_iff {name : String} {entries : List (String × α)} :
    find name entries = none ↔ name ∉ entries.map Prod.fst := by
  induction entries with
  | nil => simp [find]
  | cons entry rest ih =>
    obtain ⟨n, v⟩ := entry
    by_cases h : n = name
    · simp [find, h]
    · simp only [find, h, if_false, ih, List.map_cons, List.mem_cons, Ne.symm h, false_or]

theorem find_map {β : Type} (f : String → α → β) (name : String) (entries : List (String × α)) :
    find name (entries.map fun entry => (entry.1, f entry.1 entry.2)) =
      (find name entries).map (f name) := by
  induction entries with
  | nil => rfl
  | cons entry rest ih =>
    obtain ⟨n, v⟩ := entry
    by_cases h : n = name
    · simp [find, h]
    · simp [find, h, ih]

@[simp] theorem get?_map {β : Type} (f : String → α → β) (t : Table α) (name : String) :
    (t.map f).get? name = (t.get? name).map (f name) :=
  find_map f name t.entries

theorem mem_of_find {name : String} {value : α} {entries : List (String × α)}
    (h : find name entries = some value) : (name, value) ∈ entries := by
  induction entries with
  | nil => cases h
  | cons entry rest ih =>
    obtain ⟨n, v⟩ := entry
    by_cases hn : n = name
    · simp only [find, hn, if_true, Option.some.injEq] at h
      simp [hn, h]
    · simp only [find, hn, if_false] at h
      exact List.mem_cons_of_mem _ (ih h)

/-- A name that is bound once has the value of its binding. -/
theorem find_eq_some_iff {name : String} {value : α} {entries : List (String × α)}
    (h : (entries.map Prod.fst).Nodup) : find name entries = some value ↔
      (name, value) ∈ entries := by
  refine ⟨mem_of_find, ?_⟩
  induction entries with
  | nil => intro hmem; cases hmem
  | cons entry rest ih =>
    obtain ⟨n, v⟩ := entry
    rw [List.map_cons, List.nodup_cons] at h
    intro hmem
    rcases List.mem_cons.mp hmem with heq | hrest
    · cases heq
      simp [find]
    · have hne : n ≠ name := by
        rintro rfl
        exact h.1 (List.mem_map.mpr ⟨_, hrest, rfl⟩)
      simp only [find, hne, if_false]
      exact ih h.2 hrest

theorem get?_eq_some_iff {t : Table α} {name : String} {value : α} :
    t.get? name = some value ↔ (name, value) ∈ t.entries :=
  find_eq_some_iff t.distinct

theorem put_of_notMem {name : String} {entries : List (String × α)} (value : α)
    (h : name ∉ entries.map Prod.fst) : put name value entries = entries ++ [(name, value)] := by
  induction entries with
  | nil => rfl
  | cons entry rest ih =>
    obtain ⟨n, v⟩ := entry
    rw [List.map_cons, List.mem_cons, not_or] at h
    simp [put, Ne.symm h.1, ih h.2]

theorem entries_insertAll {t : Table α} {bindings : List (String × α)}
    (h : ((t.entries ++ bindings).map Prod.fst).Nodup) :
    (t.insertAll bindings).entries = t.entries ++ bindings := by
  induction bindings generalizing t with
  | nil => simp [insertAll]
  | cons binding rest ih =>
    obtain ⟨name, value⟩ := binding
    have hnew : name ∉ t.entries.map Prod.fst := by
      rw [List.map_append, List.nodup_append] at h
      exact fun hmem => h.2.2 name hmem name (by simp) rfl
    have hentries : (t.insert name value).entries = t.entries ++ [(name, value)] :=
      put_of_notMem value hnew
    have hrest := ih (t := t.insert name value) (by simpa [hentries] using h)
    rw [hentries, List.append_assoc, List.singleton_append] at hrest
    exact hrest

/-- Bindings of different names are kept as they are. -/
theorem entries_ofList {bindings : List (String × α)} (h : (bindings.map Prod.fst).Nodup) :
    (ofList bindings).entries = bindings :=
  entries_insertAll (t := empty) h

theorem get?_eq_none_iff {t : Table α} {name : String} : t.get? name = none ↔ name ∉ t.names :=
  find_eq_none_iff

theorem contains_iff {t : Table α} {name : String} : t.contains name = true ↔ name ∈ t.names := by
  have h : t.get? name = none ↔ name ∉ t.names := get?_eq_none_iff
  cases hg : t.get? name with
  | none => simp [contains, hg, h.1 hg]
  | some v => simpa [contains, hg] using h

end Table

end Passage
