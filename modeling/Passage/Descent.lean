/-!
# Readers by descent

A reader by descent takes items off the front of a list. It descends to a bounded depth and has no
outcome if that is not enough; else it comes to what it has read together with the items that are
left, or to a refusal, which names the items from its place on. Readers are put together by the bind
of `ExceptT` over `Option`; here is what such a bind comes to, and that no item is put back
(`Within`).
-/
namespace Passage.Descent

variable {τ ε α β : Type}

/-! ## One part after the other -/

theorem bind_ok {first : Option (Except ε α)} {a : α} (h : first = some (.ok a))
    (next : α → ExceptT ε Option β) :
    ExceptT.run (ExceptT.mk first >>= next) = ExceptT.run (next a) := by
  subst h; rfl

theorem bind_error {first : Option (Except ε α)} {refusal : ε} (h : first = some (.error refusal))
    (next : α → ExceptT ε Option β) :
    ExceptT.run (ExceptT.mk first >>= next) = some (.error refusal) := by
  subst h; rfl

/-- An outcome is the refusal of the first part, or comes from what that has read. -/
theorem cases_of_bind {first : Option (Except ε α)} {next : α → ExceptT ε Option β}
    {result : Except ε β} (h : ExceptT.run (ExceptT.mk first >>= next) = some result) :
    (∃ refusal, first = some (.error refusal) ∧ result = .error refusal) ∨
      ∃ a, first = some (.ok a) ∧ ExceptT.run (next a) = some result := by
  cases first with
  | none => cases h
  | some outcome =>
    cases outcome with
    | error refusal =>
      cases h
      exact .inl ⟨refusal, rfl, rfl⟩
    | ok a => exact .inr ⟨a, rfl, h⟩

/-- What was read comes from what the first part has read. -/
theorem ok_of_bind {first : Option (Except ε α)} {next : α → ExceptT ε Option β} {b : β}
    (h : ExceptT.run (ExceptT.mk first >>= next) = some (.ok b)) :
    ∃ a, first = some (.ok a) ∧ ExceptT.run (next a) = some (.ok b) := by
  rcases cases_of_bind h with ⟨refusal, _, hrefused⟩ | hread
  · cases hrefused
  · exact hread

/-! ## Depth that is not needed -/

/-- The second outcome is the first one, if there is a first one. -/
def Extends {ρ : Type} (first second : Option ρ) : Prop :=
  ∀ result, first = some result → second = some result

theorem extends_none {ρ : Type} (second : Option ρ) : Extends none second := nofun

namespace Extends

theorem refl {ρ : Type} (outcome : Option ρ) : Extends outcome outcome := fun _ h => h

theorem bind {first second : Option (Except ε α)} {next next' : α → ExceptT ε Option β}
    (h : Extends first second)
    (hnext : ∀ a, Extends (ExceptT.run (next a)) (ExceptT.run (next' a))) :
    Extends (ExceptT.run (ExceptT.mk first >>= next))
      (ExceptT.run (ExceptT.mk second >>= next')) := by
  intro result hresult
  rcases cases_of_bind hresult with ⟨refusal, hfirst, rfl⟩ | ⟨a, hfirst, hread⟩
  · exact bind_error (h _ hfirst) next'
  · rw [bind_ok (h _ hfirst)]
    exact hnext a result hread

end Extends

/-! ## No item is put back -/

/-- An outcome. The items that it leaves, or those from the place of its refusal on, stand at the
end of the items there were. -/
def Within (left : ε → List τ) (items : List τ) (outcome : Option (Except ε (α × List τ))) : Prop :=
  ∃ result, outcome = some result ∧
    (∀ a rest, result = .ok (a, rest) → rest <:+ items) ∧
    ∀ refusal, result = .error refusal → left refusal <:+ items

variable {left : ε → List τ} {items later rest : List τ}
  {outcome : Option (Except ε (α × List τ))}

theorem within_ok (a : α) (h : rest <:+ items) : Within left items (some (.ok (a, rest))) :=
  ⟨_, rfl, by rintro _ _ ⟨⟩; exact h, by rintro _ ⟨⟩⟩

theorem within_error {refusal : ε} (h : left refusal <:+ items) :
    Within left items (some (.error refusal) : Option (Except ε (α × List τ))) :=
  ⟨_, rfl, by rintro _ _ ⟨⟩, by rintro _ ⟨⟩; exact h⟩

namespace Within

theorem mono (h : Within left later outcome) (hlater : later <:+ items) :
    Within left items outcome := by
  obtain ⟨result, hresult, hok, herror⟩ := h
  exact ⟨result, hresult, fun a rest hread => (hok a rest hread).trans hlater,
    fun refusal hrefused => (herror refusal hrefused).trans hlater⟩

theorem bind {next : α × List τ → ExceptT ε Option (β × List τ)} (h : Within left items outcome)
    (hnext : ∀ a rest, rest <:+ items → Within left items (ExceptT.run (next (a, rest)))) :
    Within left items (ExceptT.run (ExceptT.mk outcome >>= next)) := by
  obtain ⟨result, hresult, hok, herror⟩ := h
  cases result with
  | error refusal =>
    rw [bind_error hresult]
    exact within_error (herror refusal rfl)
  | ok pair =>
    obtain ⟨a, rest⟩ := pair
    rw [bind_ok hresult]
    exact hnext a rest (hok a rest rfl)

end Within

/-- What closes a group takes the first item, or refuses at it. -/
structure Closes (left : ε → List τ) (close : List τ → Except ε (List τ)) : Prop where
  ok : ∀ items rest, close items = .ok rest → rest <:+ items
  error : ∀ items refusal, close items = .error refusal → left refusal = items

/-- A group is read up to what closes it. -/
theorem Within.group {close : List τ → Except ε (List τ)} (hclose : Closes left close)
    (wrap : α → β) (h : Within left items outcome) :
    Within left items (ExceptT.run do
      let (inner, rest) ← ExceptT.mk outcome
      let rest ← ExceptT.mk (some (close rest))
      return (wrap inner, rest)) := by
  refine h.bind fun inner rest hrest => ?_
  dsimp only
  cases hclosed : close rest with
  | error refusal =>
    rw [bind_error rfl]
    refine within_error ?_
    rw [hclose.error rest refusal hclosed]
    exact hrest
  | ok last =>
    rw [bind_ok rfl]
    exact within_ok _ ((hclose.ok rest last hclosed).trans hrest)

end Passage.Descent
