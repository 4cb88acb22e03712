import Passage.Formula.Reading

/-!
# What a formula comes to

A formula looks up its flags one after the other. The first one that stands for no truth value gives
rise to its fault (`Formula.eval_eq`); if there is none, the formula holds or not by the truth
values of its flags, whatever else the table binds. Formulas are positive: flags that become true
make no formula false.
-/
namespace Passage

/-- The fault of a name that stands for no truth value. -/
inductive FlagError.Of (flags : Table Value) (name : String) : FlagError → Prop
  | undefined : flags.get? name = none → Of flags name (.undefined name)
  | notTruth {value : Value} : flags.get? name = some value → (∀ b, value ≠ .bool b) →
      Of flags name (.notTruth name value)

/-- The name stands for a truth value. -/
def IsFlag (flags : Table Value) (name : String) : Prop := ∃ b, flags.get? name = some (.bool b)

/-- The truth value of a name; a name that has none counts as false. -/
def truthOf (flags : Table Value) (name : String) : Bool :=
  match flags.get? name with
  | some (.bool b) => b
  | _ => false

variable {flags : Table Value} {name : String}

theorem truthOf_eq {b : Bool} (h : flags.get? name = some (.bool b)) : truthOf flags name = b := by
  rw [truthOf, h]

/-- A name has a truth value, or a fault. -/
theorem flagValue_spec (flags : Table Value) (name : String) :
    match flagValue flags name with
    | .ok b => flags.get? name = some (.bool b)
    | .error e => e.Of flags name := by
  unfold flagValue
  cases hvalue : flags.get? name with
  | none => exact .undefined hvalue
  | some value =>
    cases value with
    | bool b => rfl
    | null | int _ | real _ | text _ | list _ | record _ => exact .notTruth hvalue nofun

namespace FlagError.Of

variable {e e' : FlagError}

theorem not_isFlag (h : e.Of flags name) : ¬IsFlag flags name := by
  intro ⟨b, hb⟩
  cases h with
  | undefined hnone =>
    rw [hnone] at hb
    cases hb
  | notTruth hvalue hne =>
    rw [hvalue] at hb
    cases hb
    exact hne b rfl

theorem unique (h : e.Of flags name) (h' : e'.Of flags name) : e = e' := by
  cases h with
  | undefined hnone =>
    cases h' with
    | undefined _ => rfl
    | notTruth hvalue _ =>
      rw [hnone] at hvalue
      cases hvalue
  | notTruth hvalue _ =>
    cases h' with
    | undefined hnone =>
      rw [hnone] at hvalue
      cases hvalue
    | notTruth hvalue' _ =>
      rw [hvalue] at hvalue'
      cases hvalue'
      rfl

end FlagError.Of

/-- The fault of a name, if it has one. -/
def fault? (flags : Table Value) (name : String) : Option FlagError :=
  match flagValue flags name with
  | .ok _ => none
  | .error e => some e

theorem fault?_eq_none_iff : fault? flags name = none ↔ IsFlag flags name := by
  have hspec := flagValue_spec flags name
  unfold fault?
  cases hvalue : flagValue flags name with
  | ok b =>
    rw [hvalue] at hspec
    exact iff_of_true rfl ⟨b, hspec⟩
  | error e =>
    rw [hvalue] at hspec
    exact iff_of_false nofun hspec.not_isFlag

theorem fault?_eq_some_iff {e : FlagError} : fault? flags name = some e ↔ e.Of flags name := by
  have hspec := flagValue_spec flags name
  unfold fault?
  cases hvalue : flagValue flags name with
  | ok b =>
    rw [hvalue] at hspec
    exact iff_of_false nofun fun h => h.not_isFlag ⟨b, hspec⟩
  | error found =>
    rw [hvalue] at hspec
    constructor
    · rintro ⟨⟩
      exact hspec
    · intro h
      exact congrArg some (hspec.unique h)

/-- The fault of the first of some names that has one. -/
def firstFault (flags : Table Value) (names : List String) : Option FlagError :=
  names.findSome? (fault? flags)

theorem firstFault_eq_none_iff {names : List String} :
    firstFault flags names = none ↔ ∀ name ∈ names, IsFlag flags name := by
  simp only [firstFault, List.findSome?_eq_none_iff, fault?_eq_none_iff]

theorem exists_firstFault_iff {names : List String} :
    (∃ e, firstFault flags names = some e) ↔ ∃ name ∈ names, ¬IsFlag flags name := by
  rw [← Option.isSome_iff_exists, Option.isSome_iff_ne_none, Ne, firstFault_eq_none_iff]
  simp only [Classical.not_forall, exists_prop]

theorem firstFault_eq_some_iff {names : List String} {e : FlagError} :
    firstFault flags names = some e ↔ ∃ before name after, names = before ++ name :: after ∧
      e.Of flags name ∧ ∀ earlier ∈ before, IsFlag flags earlier := by
  simp only [firstFault, List.findSome?_eq_some_iff, fault?_eq_none_iff, fault?_eq_some_iff]

/-- A truth value, unless there is a fault. -/
def unlessFault (fault : Option FlagError) (b : Bool) : Except FlagError Bool :=
  match fault with
  | some e => .error e
  | none => .ok b

namespace Formula

/-- Whether the formula holds where the names have these truth values. -/
def holds (truth : String → Bool) : Formula → Bool
  | const b => b
  | flag name => truth name
  | and lhs rhs => lhs.holds truth && rhs.holds truth
  | or lhs rhs => lhs.holds truth || rhs.holds truth

/-- A formula comes to the fault of the first of its flags that has one, and to a truth value if
none has. -/
theorem eval_eq (flags : Table Value) (f : Formula) :
    f.eval flags = unlessFault (firstFault flags f.flags) (f.holds (truthOf flags)) := by
  -- The faults of the left operand come before those of the right one.
  have hjoin (connect : Bool → Bool → Bool) {lhs rhs : Formula}
      (ihl : lhs.eval flags = unlessFault (firstFault flags lhs.flags) (lhs.holds (truthOf flags)))
      (ihr : rhs.eval flags = unlessFault (firstFault flags rhs.flags)
        (rhs.holds (truthOf flags))) :
      (do let l ← lhs.eval flags; let r ← rhs.eval flags; return connect l r) =
        unlessFault (firstFault flags (lhs.flags ++ rhs.flags))
          (connect (lhs.holds (truthOf flags)) (rhs.holds (truthOf flags))) := by
    have happend : firstFault flags (lhs.flags ++ rhs.flags) =
        (firstFault flags lhs.flags).or (firstFault flags rhs.flags) := List.findSome?_append
    rw [ihl, ihr, happend]
    cases firstFault flags lhs.flags with
    | some e => rfl
    | none => cases firstFault flags rhs.flags <;> rfl
  induction f with
  | const b => rfl
  | flag name =>
    have hspec := flagValue_spec flags name
    rw [eval, Formula.flags, firstFault, List.findSome?_singleton, fault?, holds]
    cases hvalue : flagValue flags name with
    | error e => rfl
    | ok b =>
      rw [hvalue] at hspec
      rw [truthOf_eq hspec]
      rfl
  | and lhs rhs ihl ihr => exact hjoin (· && ·) ihl ihr
  | or lhs rhs ihl ihr => exact hjoin (· || ·) ihl ihr

theorem eval_of_isFlag {f : Formula} (h : ∀ name ∈ f.flags, IsFlag flags name) :
    f.eval flags = .ok (f.holds (truthOf flags)) := by
  rw [eval_eq, firstFault_eq_none_iff.mpr h]
  rfl

/-- Flags that become true make no formula false. -/
theorem holds_mono {f : Formula} {truth truth' : String → Bool}
    (h : ∀ name ∈ f.flags, truth name = true → truth' name = true) (hf : f.holds truth = true) :
    f.holds truth' = true := by
  induction f with
  | const b => exact hf
  | flag name => exact h name List.mem_cons_self hf
  | and lhs rhs ihl ihr =>
    rw [holds, Bool.and_eq_true] at hf ⊢
    exact ⟨ihl (fun name hname => h name (List.mem_append_left _ hname)) hf.1,
      ihr (fun name hname => h name (List.mem_append_right _ hname)) hf.2⟩
  | or lhs rhs ihl ihr =>
    rw [holds, Bool.or_eq_true] at hf ⊢
    exact hf.imp (ihl fun name hname => h name (List.mem_append_left _ hname))
      (ihr fun name hname => h name (List.mem_append_right _ hname))

end Formula

end Passage
