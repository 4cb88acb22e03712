import Mathlib.Data.List.Forall2
import Passage.Proofs.Contracts

/-!
# Actions with matching results

Where one action follows another they come to the same result. Here the results need only match,
value with value and failure with failure, as two relations say. Again there is one lemma for each
way to build an action. If two actions match each other in both directions, they come to an end
together (`rel_outcome_of_matches`).
-/
namespace Passage.Action

variable {σ τ ε ε' δ δ' α α' β β' : Type}

/-- Two values that are related, or two failures that are. -/
def Agree (V : α → α' → Prop) (F : ε → ε' → Prop) : Except ε α → Except ε' α' → Prop
  | .ok a, .ok a' => V a a'
  | .error e, .error e' => F e e'
  | .ok _, .error _ | .error _, .ok _ => False

/-- Whatever the first action comes to, from every related state the second one comes to a result
that agrees, and the states after are related again. -/
def Matches (R : σ → τ → Prop) (V : α → α' → Prop) (F : ε → ε' → Prop) (act : Action σ ε α)
    (other : Action τ ε' α') : Prop :=
  ∀ s t, R s t → ∀ result after, act.outcome s = some (result, after) →
    ∃ result' after', other.outcome t = some (result', after') ∧ Agree V F result result' ∧
      R after after'

variable {R : σ → τ → Prop} {V : α → α' → Prop} {W : β → β' → Prop} {F : ε → ε' → Prop}

theorem matches_ofExcept {result : Except ε α} {result' : Except ε' α'}
    (h : Agree V F result result') : Matches R V F (ofExcept result) (ofExcept result') := by
  intro s t hst inner after ho
  cases ho
  exact ⟨result', t, rfl, h, hst⟩

theorem matches_pure {a : α} {a' : α'} (h : V a a') :
    Matches R V F (pure a : Action σ ε α) (pure a' : Action τ ε' α') := by
  intro s t hst result after ho
  cases ho
  exact ⟨.ok a', t, rfl, h, hst⟩

theorem matches_throw {e : ε} {e' : ε'} (h : F e e') :
    Matches R V F (throw e : Action σ ε α) (throw e' : Action τ ε' α') := by
  intro s t hst result after ho
  cases ho
  exact ⟨.error e', t, rfl, h, hst⟩

/-- An action without an outcome matches every action. -/
theorem matches_tooDeep (other : Action τ ε' α') :
    Matches R V F (tooDeep : Action σ ε α) other := by
  intro s t hst result after ho
  cases ho

theorem matches_read {f : σ → α} {g : τ → α'} (h : ∀ s t, R s t → V (f s) (g t)) :
    Matches R V F (read f) (read g) := by
  intro s t hst result after ho
  cases ho
  exact ⟨.ok (g t), t, rfl, h s t hst, hst⟩

theorem matches_update {f : σ → σ} {g : τ → τ} (h : ∀ s t, R s t → R (f s) (g t)) :
    Matches R (fun _ _ => True) F (update f) (update g) := by
  intro s t hst result after ho
  cases ho
  exact ⟨.ok (), g t, rfl, trivial, h s t hst⟩

theorem matches_bind {act : Action σ ε α} {other : Action τ ε' α'} {next : α → Action σ ε β}
    {next' : α' → Action τ ε' β'} (ha : Matches R V F act other)
    (hn : ∀ a a', V a a' → Matches R W F (next a) (next' a')) :
    Matches R W F (act >>= next) (other >>= next') := by
  intro s t hst result after ho
  rcases cases_of_bind ho with ⟨a, mid, hact, hnext⟩ | ⟨e, hact, rfl⟩
  · obtain ⟨first, mid', hother, hfirst, hmid⟩ := ha s t hst _ mid hact
    cases first with
    | error e => exact hfirst.elim
    | ok a' =>
      rw [outcome_bind_ok hother]
      exact hn a a' hfirst mid mid' hmid result after hnext
  · obtain ⟨first, after', hother, hfirst, hafter⟩ := ha s t hst _ after hact
    cases first with
    | ok a' => exact hfirst.elim
    | error e' => exact ⟨.error e', after', outcome_bind_error hother _, hfirst, hafter⟩

theorem matches_mapM {act : β → Action σ ε α} {other : β' → Action τ ε' α'}
    (h : ∀ b b', W b b' → Matches R V F (act b) (other b')) {list : List β} {list' : List β'}
    (hlist : List.Forall₂ W list list') :
    Matches R (List.Forall₂ V) F (list.mapM act) (list'.mapM other) := by
  induction hlist with
  | nil => exact matches_pure .nil
  | cons hb _ ih =>
    rw [List.mapM_cons, List.mapM_cons]
    refine matches_bind (h _ _ hb) fun a a' ha => ?_
    exact matches_bind ih fun as as' has => matches_pure (.cons ha has)

theorem matches_mapError {G : δ → δ' → Prop} {f : ε → δ} {g : ε' → δ'}
    (hf : ∀ e e', F e e' → G (f e) (g e')) {act : Action σ ε α} {other : Action τ ε' α'}
    (h : Matches R V F act other) : Matches R V G (act.mapError f) (other.mapError g) := by
  intro s t hst result after ho
  obtain ⟨inner, hact, rfl⟩ := cases_of_mapError ho
  obtain ⟨inner', after', hother, hinner, hafter⟩ := h s t hst inner after hact
  refine ⟨inner'.mapError g, after', by rw [outcome_mapError, hother]; rfl, ?_, hafter⟩
  cases inner with
  | ok a =>
    cases inner' with
    | ok a' => exact hinner
    | error e' => exact hinner.elim
  | error e =>
    cases inner' with
    | ok a' => exact hinner.elim
    | error e' => exact hf e e' hinner

/-- What is known of the values of the first action can be kept in mind. -/
theorem Matches.ensured {act : Action σ ε α} {other : Action τ ε' α'} {I : σ → Prop} {P : α → Prop}
    {G : ε → Prop} (h : Matches R V F act other) (hact : Ensures I P G act)
    (hI : ∀ s t, R s t → I s) :
    Matches R (fun a a' => V a a' ∧ P a) F act other := by
  intro s t hst result after ho
  obtain ⟨result', after', ho', hagree, hafter⟩ := h s t hst result after ho
  have hfits : Fits P G result := (hact s (hI s t hst) result after ho).1
  refine ⟨result', after', ho', ?_, hafter⟩
  cases result with
  | ok a =>
    cases result' with
    | ok a' => exact ⟨hagree, hfits⟩
    | error e' => exact hagree
  | error e => cases result' <;> exact hagree

/-- Actions that match in both directions come to an end together, and agree. -/
theorem rel_outcome_of_matches {act : Action σ ε α} {other : Action τ ε' α'} {R' : τ → σ → Prop}
    {V' : α' → α → Prop} {F' : ε' → ε → Prop} (h : Matches R V F act other)
    (hback : Matches R' V' F' other act) {P : Except ε α × σ → Except ε' α' × τ → Prop}
    (hP : ∀ {result result' s t}, Agree V F result result' → R s t → P (result, s) (result', t))
    {s : σ} {t : τ} (hst : R s t) (hts : R' t s) :
    Option.Rel P (act.outcome s) (other.outcome t) := by
  cases hact : act.outcome s with
  | some pair =>
    obtain ⟨result', after', hother, hagree, hafter⟩ := h s t hst pair.1 pair.2 hact
    rw [hother]
    exact .some (hP hagree hafter)
  | none =>
    cases hother : other.outcome t with
    | none => exact .none
    | some pair =>
      obtain ⟨_, _, hact', _⟩ := hback t s hts pair.1 pair.2 hother
      rw [hact] at hact'
      cases hact'

end Passage.Action
