import Passage.Proofs.Actions

/-!
# Contracts of actions

A contract says what an action comes to if it comes to an end: from a state with an invariant it
leads to a state with the invariant again, with a value of one kind or a failure of another. Two
actions concur under a contract if the first one meets it and the second one comes to the same.
There is one lemma for each way to build an action.
-/
namespace Passage.Action

variable {σ ε α β : Type}

/-- A value with one property, or a failure with the other one. -/
def Fits (V : α → Prop) (F : ε → Prop) : Except ε α → Prop
  | .ok a => V a
  | .error e => F e

/-- Whatever the action comes to from a state with the invariant fits, and the invariant is kept. -/
def Ensures (I : σ → Prop) (V : α → Prop) (F : ε → Prop) (act : Action σ ε α) : Prop :=
  ∀ s, I s → ∀ result after, act.outcome s = some (result, after) → Fits V F result ∧ I after

variable {I : σ → Prop} {V : α → Prop} {W : β → Prop} {F : ε → Prop}

theorem fits_bind {first : Except ε α} {next : α → Except ε β} (h : Fits V F first)
    (hn : ∀ a, V a → Fits W F (next a)) : Fits W F (first >>= next) := by
  cases first with
  | ok a => exact hn a h
  | error e => exact h

theorem fits_mapM {f : β → Except ε α} {list : List β} (h : ∀ b ∈ list, Fits V F (f b)) :
    Fits (fun values => ∀ value ∈ values, V value) F (list.mapM f) := by
  induction list with
  | nil => exact fun value hvalue => absurd hvalue List.not_mem_nil
  | cons b rest ih =>
    rw [List.mapM_cons]
    refine fits_bind (h b List.mem_cons_self) fun a ha => ?_
    refine fits_bind (ih fun c hc => h c (List.mem_cons_of_mem _ hc)) fun values hvalues => ?_
    exact List.forall_mem_cons.mpr ⟨ha, hvalues⟩

theorem ensures_ofExcept {result : Except ε α} (h : Fits V F result) :
    Ensures I V F (ofExcept result) := by
  intro s hs inner after ho
  cases ho
  exact ⟨h, hs⟩

theorem ensures_pure {a : α} (h : V a) : Ensures I V F (pure a) := by
  intro s hs result after ho
  cases ho
  exact ⟨h, hs⟩

theorem ensures_throw {e : ε} (h : F e) : Ensures I V F (throw e) := by
  intro s hs result after ho
  cases ho
  exact ⟨h, hs⟩

/-- An action without an outcome meets every contract. -/
theorem ensures_tooDeep : Ensures I V F tooDeep := by
  intro s hs result after ho
  cases ho

theorem ensures_read {f : σ → α} (h : ∀ s, I s → V (f s)) : Ensures I V F (read f) := by
  intro s hs result after ho
  cases ho
  exact ⟨h s hs, hs⟩

theorem ensures_update {f : σ → σ} (h : ∀ s, I s → I (f s)) :
    Ensures I (fun _ => True) F (update f) := by
  intro s hs result after ho
  cases ho
  exact ⟨trivial, h s hs⟩

theorem ensures_bind {act : Action σ ε α} {next : α → Action σ ε β} (ha : Ensures I V F act)
    (hn : ∀ a, V a → Ensures I W F (next a)) : Ensures I W F (act >>= next) := by
  intro s hs result after ho
  rcases cases_of_bind ho with ⟨a, mid, hact, hnext⟩ | ⟨e, hact, rfl⟩
  · obtain ⟨hfits, hmid⟩ := ha s hs _ mid hact
    exact hn a hfits mid hmid result after hnext
  · obtain ⟨hfits, hafter⟩ := ha s hs _ after hact
    exact ⟨hfits, hafter⟩

/-! ## Two actions under one contract -/

/-- The first action meets the contract, and from a state with the invariant the second one comes to
the same. -/
def Concur (I : σ → Prop) (V : α → Prop) (F : ε → Prop) (act other : Action σ ε α) : Prop :=
  Ensures I V F act ∧ ∀ s, I s → other.outcome s = act.outcome s

theorem Ensures.concur {act : Action σ ε α} (h : Ensures I V F act) : Concur I V F act act :=
  ⟨h, fun _ _ => rfl⟩

/-- What comes next has to concur on values that fit only, where the invariant is kept. -/
theorem concur_bind {act other : Action σ ε α} {next next' : α → Action σ ε β}
    (ha : Concur I V F act other) (hn : ∀ a, V a → Concur I W F (next a) (next' a)) :
    Concur I W F (act >>= next) (other >>= next') := by
  refine ⟨ensures_bind ha.1 fun a hfits => (hn a hfits).1, fun s hs => ?_⟩
  rw [outcome_bind, outcome_bind, ha.2 s hs]
  cases hact : act.outcome s with
  | none => rfl
  | some pair =>
    obtain ⟨result, mid⟩ := pair
    obtain ⟨hfits, hmid⟩ := ha.1 s hs result mid hact
    cases result with
    | ok a => exact (hn a hfits).2 mid hmid
    | error e => rfl

theorem concur_mapM {act other : β → Action σ ε α} {list : List β}
    (h : ∀ b ∈ list, Concur I V F (act b) (other b)) :
    Concur I (fun values => ∀ value ∈ values, V value) F (list.mapM act) (list.mapM other) := by
  induction list with
  | nil => exact (ensures_pure (by simp)).concur
  | cons b rest ih =>
    rw [List.mapM_cons, List.mapM_cons]
    refine concur_bind (h b List.mem_cons_self) fun a ha => ?_
    refine concur_bind (ih fun c hc => h c (List.mem_cons_of_mem _ hc)) fun values hvalues => ?_
    exact (ensures_pure (List.forall_mem_cons.mpr ⟨ha, hvalues⟩)).concur

end Passage.Action
