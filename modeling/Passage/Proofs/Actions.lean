import Passage.Action

/-!
# Reasoning about actions

Two properties of actions that go through every way to build one. An action keeps a part of the
state if that part is the same after it, whether it ended with a value or a failure. An action is
followed by another one if whatever the first comes to, from some state, the second comes to from
every related state, and the states after are related again. Failures that are excused bind the
second action to nothing. Neither property says that an action comes to an end.
-/
namespace Passage.Action

variable {σ τ ρ ε ε' α β : Type}

/-- Results can be compared, so that what a given action comes to can be decided. -/
instance [DecidableEq ε] [DecidableEq α] : DecidableEq (Except ε α)
  | .ok a, .ok b => decidable_of_iff (a = b) (by simp)
  | .error e, .error e' => decidable_of_iff (e = e') (by simp)
  | .ok _, .error _ => .isFalse nofun
  | .error _, .ok _ => .isFalse nofun

/-- A sequence that came to a result did so through a value of its first action, or failed there. -/
theorem cases_of_bind {act : Action σ ε α} {next : α → Action σ ε β} {s after : σ}
    {result : Except ε β} (h : (act >>= next).outcome s = some (result, after)) :
    (∃ a mid, act.outcome s = some (.ok a, mid) ∧ (next a).outcome mid = some (result, after)) ∨
      (∃ e, act.outcome s = some (.error e, after) ∧ result = .error e) := by
  rw [outcome_bind] at h
  cases hact : act.outcome s with
  | none => rw [hact] at h; cases h
  | some pair =>
    obtain ⟨first, mid⟩ := pair
    rw [hact] at h
    cases first with
    | ok a => exact .inl ⟨a, mid, rfl, h⟩
    | error e => cases h; exact .inr ⟨e, rfl, rfl⟩

/-- A sequence that came to a value did so through a value of its first action. -/
theorem ok_of_bind {act : Action σ ε α} {next : α → Action σ ε β} {s after : σ} {b : β}
    (h : (act >>= next).outcome s = some (.ok b, after)) :
    ∃ a mid, act.outcome s = some (.ok a, mid) ∧ (next a).outcome mid = some (.ok b, after) := by
  rcases cases_of_bind h with hok | ⟨e, _, he⟩
  · exact hok
  · cases he

/-- Values correspond to what they were made from. -/
theorem length_of_mapM {act : α → Action σ ε β} {list : List α} {s after : σ} {values : List β}
    (h : (list.mapM act).outcome s = some (.ok values, after)) : values.length = list.length := by
  induction list generalizing s values with
  | nil =>
    cases h
    rfl
  | cons a rest ih =>
    rw [List.mapM_cons] at h
    obtain ⟨b, mid, _, hrest⟩ := ok_of_bind h
    obtain ⟨bs, last, hbs, hvalues⟩ := ok_of_bind hrest
    cases hvalues
    rw [List.length_cons, List.length_cons, ih hbs]

/-- What an action whose failures are renamed came to, before they were. -/
theorem cases_of_mapError {f : ε → ε'} {act : Action σ ε α} {s after : σ} {result : Except ε' α}
    (h : (act.mapError f).outcome s = some (result, after)) :
    ∃ inner, act.outcome s = some (inner, after) ∧ result = inner.mapError f := by
  rw [outcome_mapError] at h
  obtain ⟨⟨inner, mid⟩, hact, he⟩ := Option.map_eq_some_iff.mp h
  cases he
  exact ⟨inner, hact, rfl⟩

/-- An action that is seen to return something has returned. -/
theorem ok_of_seen {act : Action σ ε α} {s : σ} {see : α → β} {b : β}
    (h : ((act.outcome s).bind fun (result, _) => result.toOption.map see) = some b) :
    ∃ a after, act.outcome s = some (.ok a, after) ∧ see a = b := by
  obtain ⟨⟨result, after⟩, hact, hresult⟩ := Option.bind_eq_some_iff.mp h
  cases result with
  | error e => cases hresult
  | ok a => exact ⟨a, after, hact, Option.some.inj hresult⟩

/-! ## Parts of the state that are kept -/

/-- However the action ends, a part of the state is what it was. -/
def Keeps (part : σ → τ) (act : Action σ ε α) : Prop :=
  ∀ s result after, act.outcome s = some (result, after) → part after = part s

variable {part : σ → τ}

theorem keeps_pure (a : α) : Keeps part (pure a : Action σ ε α) := by
  intro s result after h
  cases h
  rfl

theorem keeps_throw (e : ε) : Keeps part (throw e : Action σ ε α) := by
  intro s result after h
  cases h
  rfl

theorem keeps_tooDeep : Keeps part (tooDeep : Action σ ε α) := by
  intro s result after h
  cases h

theorem keeps_ofExcept (result : Except ε α) : Keeps part (ofExcept result : Action σ ε α) := by
  intro s result after h
  cases h
  rfl

theorem keeps_read (f : σ → α) : Keeps part (read f : Action σ ε α) := by
  intro s result after h
  cases h
  rfl

theorem keeps_update {f : σ → σ} (h : ∀ s, part (f s) = part s) :
    Keeps part (update f : Action σ ε Unit) := by
  intro s result after ho
  cases ho
  exact h s

theorem keeps_bind {act : Action σ ε α} {next : α → Action σ ε β} (ha : Keeps part act)
    (hn : ∀ a, Keeps part (next a)) : Keeps part (act >>= next) := by
  intro s result after h
  rcases cases_of_bind h with ⟨a, mid, hact, hnext⟩ | ⟨e, hact, _⟩
  · exact (hn a mid result after hnext).trans (ha s _ mid hact)
  · exact ha s _ after hact

theorem keeps_mapM {act : α → Action σ ε β} (h : ∀ a, Keeps part (act a)) (list : List α) :
    Keeps part (list.mapM act) := by
  induction list with
  | nil => exact keeps_pure []
  | cons a rest ih =>
    rw [List.mapM_cons]
    exact keeps_bind (h a) fun b => keeps_bind ih fun bs => keeps_pure (b :: bs)

theorem keeps_mapError (f : ε → ε') {act : Action σ ε α} (h : Keeps part act) :
    Keeps part (act.mapError f) := by
  intro s result after ho
  obtain ⟨inner, hact, _⟩ := cases_of_mapError ho
  exact h s inner after hact

/-- An action on a part of a larger state keeps what depends on the rest and on what it keeps
there. -/
theorem keeps_onPart {τ' : Type} {whole : ρ → τ'} {get : ρ → σ} {set : σ → ρ → ρ}
    (hset : ∀ s r, part s = part (get r) → whole (set s r) = whole r) {act : Action σ ε α}
    (h : Keeps part act) : Keeps whole (act.onPart get set) := by
  intro r result after ho
  rw [outcome_onPart] at ho
  obtain ⟨⟨inner, s⟩, hact, he⟩ := Option.map_eq_some_iff.mp ho
  cases he
  exact hset s r (h _ _ _ hact)

/-- A part of a kept part is kept. -/
theorem Keeps.comp {act : Action σ ε α} (h : Keeps part act) (smaller : τ → ρ) :
    Keeps (fun s => smaller (part s)) act := by
  intro s result after ho
  exact congrArg smaller (h s result after ho)

/-! ## Actions that follow one another -/

/-- Whatever the first action comes to, the second one comes to from every related state, unless it
is a failure that is excused. -/
def Follows (R : σ → τ → Prop) (Excused : ε → Prop) (act : Action σ ε α)
    (other : Action τ ε α) : Prop :=
  ∀ s t, R s t → ∀ result after, act.outcome s = some (result, after) →
    (∃ e, result = .error e ∧ Excused e) ∨
      ∃ after', other.outcome t = some (result, after') ∧ R after after'

variable {R : σ → τ → Prop} {Excused : ε → Prop}

/-- Unless the first action came to a failure that is excused, the second one comes to the same. -/
theorem Follows.unexcused {act : Action σ ε α} {other : Action τ ε α}
    (h : Follows R Excused act other) {s after : σ} {result : Except ε α}
    (ho : act.outcome s = some (result, after)) {t : τ} (hst : R s t)
    (hresult : ∀ e, result = .error e → ¬Excused e) :
    ∃ after', other.outcome t = some (result, after') ∧ R after after' := by
  rcases h s t hst result after ho with ⟨e, he, hx⟩ | hother
  · exact absurd hx (hresult e he)
  · exact hother

/-- Where no failure is excused, the second action comes to whatever the first one came to. -/
theorem Follows.always {act : Action σ ε α} {other : Action τ ε α}
    (h : Follows R (fun _ => False) act other) {s after : σ} {result : Except ε α}
    (ho : act.outcome s = some (result, after)) {t : τ} (hst : R s t) :
    ∃ after', other.outcome t = some (result, after') ∧ R after after' :=
  h.unexcused ho hst fun _ _ => id

theorem Follows.imp {Excused' : ε → Prop} {act : Action σ ε α} {other : Action τ ε α}
    (h : Follows R Excused act other) (himp : ∀ e, Excused e → Excused' e) :
    Follows R Excused' act other := by
  intro s t hst result after ho
  exact (h s t hst result after ho).imp_left fun ⟨e, he, hx⟩ => ⟨e, he, himp e hx⟩

theorem follows_pure (a : α) : Follows R Excused (pure a) (pure a) := by
  intro s t hst result after ho
  cases ho
  exact .inr ⟨t, rfl, hst⟩

theorem follows_throw (e : ε) :
    Follows R Excused (throw e : Action σ ε α) (throw e : Action τ ε α) := by
  intro s t hst result after ho
  cases ho
  exact .inr ⟨t, rfl, hst⟩

theorem follows_ofExcept (result : Except ε α) :
    Follows R Excused (ofExcept result) (ofExcept result) := by
  intro s t hst result after ho
  cases ho
  exact .inr ⟨t, rfl, hst⟩

/-- An action without an outcome is followed by any action. -/
theorem follows_tooDeep (other : Action τ ε α) : Follows R Excused tooDeep other := by
  intro s t hst result after h
  cases h

theorem follows_read {f : σ → α} {g : τ → α} (h : ∀ s t, R s t → f s = g t) :
    Follows R Excused (read f) (read g) := by
  intro s t hst result after ho
  cases ho
  refine .inr ⟨t, ?_, hst⟩
  rw [outcome_read, h s t hst]

theorem follows_update {f : σ → σ} {g : τ → τ} (h : ∀ s t, R s t → R (f s) (g t)) :
    Follows R Excused (update f) (update g) := by
  intro s t hst result after ho
  cases ho
  exact .inr ⟨g t, rfl, h s t hst⟩

theorem follows_bind {act : Action σ ε α} {other : Action τ ε α} {next : α → Action σ ε β}
    {next' : α → Action τ ε β} (ha : Follows R Excused act other)
    (hn : ∀ a, Follows R Excused (next a) (next' a)) :
    Follows R Excused (act >>= next) (other >>= next') := by
  intro s t hst result after h
  rcases cases_of_bind h with ⟨a, mid, hact, hnext⟩ | ⟨e, hact, rfl⟩
  · rcases ha s t hst _ mid hact with ⟨e, he, _⟩ | ⟨mid', hother, hmid⟩
    · cases he
    · rw [outcome_bind_ok hother]
      exact hn a mid mid' hmid result after hnext
  · rcases ha s t hst _ after hact with ⟨e', he, hx⟩ | ⟨after', hother, hafter⟩
    · cases he
      exact .inl ⟨e, rfl, hx⟩
    · exact .inr ⟨after', outcome_bind_error hother _, hafter⟩

theorem follows_mapM {act : α → Action σ ε β} {other : α → Action τ ε β}
    (h : ∀ a, Follows R Excused (act a) (other a)) (list : List α) :
    Follows R Excused (list.mapM act) (list.mapM other) := by
  induction list with
  | nil => exact follows_pure []
  | cons a rest ih =>
    rw [List.mapM_cons, List.mapM_cons]
    refine follows_bind (h a) fun b => ?_
    exact follows_bind ih fun bs => follows_pure (b :: bs)

/-- Renaming failures carries excuses along. -/
theorem follows_mapError {Excused' : ε' → Prop} {f : ε → ε'} (hf : ∀ e, Excused e → Excused' (f e))
    {act : Action σ ε α} {other : Action τ ε α} (h : Follows R Excused act other) :
    Follows R Excused' (act.mapError f) (other.mapError f) := by
  intro s t hst result after ho
  obtain ⟨inner, hact, rfl⟩ := cases_of_mapError ho
  rcases h s t hst inner after hact with ⟨e, rfl, hx⟩ | ⟨after', hother, hafter⟩
  · exact .inl ⟨f e, rfl, hf e hx⟩
  · refine .inr ⟨after', ?_, hafter⟩
    rw [outcome_mapError, hother]
    rfl

/-- Actions on parts of larger states follow one another if putting the parts back relates these
states. -/
theorem follows_onPart {ρ' : Type} {Q : ρ → ρ' → Prop} {get : ρ → σ} {get' : ρ' → τ}
    {set : σ → ρ → ρ} {set' : τ → ρ' → ρ'} (hget : ∀ r p, Q r p → R (get r) (get' p))
    (hset : ∀ r p s t, Q r p → R s t → Q (set s r) (set' t p)) {act : Action σ ε α}
    {other : Action τ ε α} (h : Follows R Excused act other) :
    Follows Q Excused (act.onPart get set) (other.onPart get' set') := by
  intro r p hrp result after ho
  obtain ⟨⟨inner, s⟩, hact, he⟩ := Option.map_eq_some_iff.mp ho
  obtain ⟨rfl, rfl⟩ := Prod.mk.inj he
  rcases h _ _ (hget r p hrp) inner s hact with hx | ⟨t, hother, hst⟩
  · exact .inl hx
  · refine .inr ⟨set' t p, ?_, hset r p s t hrp hst⟩
    rw [outcome_onPart, hother]
    rfl

/-- Two actions that follow each other come to the same, as far as related states are seen alike. -/
theorem outcome_eq_of_follows {ω : Type} {act : Action σ ε α} {other : Action τ ε α}
    (h : Follows R (fun _ => False) act other)
    (hback : Follows (fun t s => R s t) (fun _ => False) other act) {seen : σ → ω} {seen' : τ → ω}
    (hseen : ∀ s t, R s t → seen s = seen' t) {s : σ} {t : τ} (hst : R s t) :
    (act.outcome s).map (Prod.map id seen) = (other.outcome t).map (Prod.map id seen') := by
  cases hact : act.outcome s with
  | some pair =>
    obtain ⟨result, after⟩ := pair
    obtain ⟨after', hother, hafter⟩ := h.always hact hst
    rw [hother, Option.map_some, Option.map_some, Prod.map_apply, Prod.map_apply,
      hseen after after' hafter]
  | none =>
    cases hother : other.outcome t with
    | none => rfl
    | some pair =>
      obtain ⟨result, after⟩ := pair
      obtain ⟨after', hact', _⟩ := hback.always hother hst
      rw [hact] at hact'
      cases hact'

end Passage.Action
