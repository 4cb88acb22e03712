import Passage.Proofs.Passes

/-!
# Surveys come to an end

A survey needs a verdict only where it asks for one: on a step whose edge is missing from the draft
of that moment. `Draft.UnderWay` lists the moments that it comes through. If there is a verdict at
each of them, every pass comes to its end, and since a pass that is followed by another one has
found an edge, so does the survey (`Survey.build_of_decided`).
-/
namespace Passage

namespace Draft

variable {start draft middle last : Draft} {root : Option String} {env : Env} {step : Step}
  {steps rest : List Step} {round : Round} {holds : Bool}

/-- The moments of a survey that begins with a draft: what has been found, and the steps that are
left in the pass. -/
inductive UnderWay (root : Option String) (env : Env) (steps : List Step) (start : Draft) :
    Draft → List Step → Prop
  | start : UnderWay root env steps start start steps
  | known {draft : Draft} {step : Step} {rest : List Step} :
      UnderWay root env steps start draft (step :: rest) → draft.knows step = true →
      UnderWay root env steps start draft rest
  | asked {draft : Draft} {step : Step} {rest : List Step} {holds : Bool} :
      UnderWay root env steps start draft (step :: rest) → draft.knows step = false →
      draft.Verdict root env step holds →
      UnderWay root env steps start (draft.answered step holds) rest
  | again {draft : Draft} :
      UnderWay root env steps start draft [] → UnderWay root env steps start draft steps

/-- Every rule that is asked gets a verdict. -/
def Decided (root : Option String) (env : Env) (steps : List Step) (start : Draft) : Prop :=
  ∀ draft step rest, UnderWay root env steps start draft (step :: rest) → draft.knows step = false →
    ∃ holds, draft.Verdict root env step holds

theorem UnderWay.subset (h : UnderWay root env steps start draft rest) : rest ⊆ steps := by
  induction h with
  | start | again => exact List.Subset.refl _
  | known _ _ ih | asked _ _ _ ih => exact List.subset_of_cons_subset ih

theorem UnderWay.coherent (h : UnderWay root env steps start draft rest) (hstart : start.Coherent) :
    draft.Coherent := by
  induction h with
  | start => exact hstart
  | known _ _ ih | again _ ih => exact ih
  | asked _ _ _ ih => exact ih.answered _ _

/-- A pass that grew has found an edge that was missing. -/
theorem Pass.exists_found (h : Pass root env draft rest round last) (hgrew : round.grew = true) :
    ∃ step ∈ rest, draft.knows step = false ∧ last.knows step = true := by
  induction h with
  | done => cases hgrew
  | known _ _ ih =>
    obtain ⟨found, hmem, hfound⟩ := ih hgrew
    exact ⟨found, List.mem_cons_of_mem _ hmem, hfound⟩
  | @asked draft _ step _ _ holds hunknown _ hpass ih =>
    cases holds with
    | false =>
      obtain ⟨found, hmem, hfound⟩ := ih hgrew
      exact ⟨found, List.mem_cons_of_mem _ hmem, hfound⟩
    | true => exact ⟨step, List.mem_cons_self, hunknown, hpass.knows (knows_add_self draft step)⟩

/-- How many steps are left to ask. -/
def missing (steps : List Step) (draft : Draft) : Nat :=
  (steps.filter fun step => !draft.knows step).length

theorem Pass.missing_lt (h : Pass root env draft steps round last) (hgrew : round.grew = true) :
    last.missing steps < draft.missing steps := by
  have hsub : (steps.filter fun step => !last.knows step) =
      (steps.filter fun step => !draft.knows step).filter fun step => !last.knows step := by
    rw [List.filter_filter]
    refine List.filter_congr fun step _ => ?_
    cases hknown : draft.knows step with
    | false => simp
    | true => simp [h.knows hknown]
  obtain ⟨step, hmem, hunknown, hknown⟩ := h.exists_found hgrew
  rw [missing, hsub, missing, List.length_filter_lt_length_iff_exists]
  refine ⟨step, List.mem_filter.mpr ⟨hmem, ?_⟩, ?_⟩
  · rw [hunknown]
    rfl
  · rw [hknown]
    decide

theorem Decided.exists_pass (hdecided : Decided root env steps start)
    (h : UnderWay root env steps start draft rest) :
    ∃ round last, Pass root env draft rest round last ∧ UnderWay root env steps start last [] := by
  induction rest generalizing draft with
  | nil => exact ⟨[], draft, .done, h⟩
  | cons step rest ih =>
    cases hknown : draft.knows step with
    | true =>
      obtain ⟨round, last, hpass, hlast⟩ := ih (h.known hknown)
      exact ⟨round, last, .known hknown hpass, hlast⟩
    | false =>
      obtain ⟨holds, hverdict⟩ := hdecided draft step rest h hknown
      obtain ⟨round, last, hpass, hlast⟩ := ih (h.asked hknown hverdict)
      exact ⟨(step, holds) :: round, last, .asked hknown hverdict hpass, hlast⟩

/-- There are at most as many passes as steps with a missing edge, and one more. -/
theorem Decided.exists_passes (hdecided : Decided root env steps start)
    (h : UnderWay root env steps start draft steps) :
    ∃ rounds last, Passes root env steps draft rounds last ∧
      rounds.length ≤ draft.missing steps + 1 := by
  -- Every pass but the last one finds an edge, so fewer steps are left to the passes behind it.
  induction hn : draft.missing steps using Nat.strongRecOn generalizing draft with
  | ind n ih =>
    obtain ⟨round, middle, hpass, hmiddle⟩ := hdecided.exists_pass h
    cases hgrew : round.grew with
    | false => exact ⟨[round], middle, .last hpass hgrew, by simp⟩
    | true =>
      have hlt := hpass.missing_lt hgrew
      rw [hn] at hlt
      obtain ⟨rounds, last, hpasses, hlength⟩ := ih _ hlt hmiddle.again rfl
      refine ⟨round :: rounds, last, .again hpass hgrew hpasses, ?_⟩
      rw [List.length_cons]
      omega

end Draft

open Draft

/-- A survey in which every rule that is asked gets a verdict comes to an end, the same from some
depth on. -/
theorem Survey.build_of_decided {env : Env} {regions : List Region} {root : Option String}
    (h : Decided (rootFor env.config regions root) env (steps regions) (Draft.bare regions)) :
    ∃ enough survey, ∀ depth ≥ enough, ∃ after,
      (build depth regions root).outcome env = some (.ok survey, after) := by
  obtain ⟨rounds, last, hpasses, hlength⟩ := h.exists_passes .start
  have hmissing : (Draft.bare regions).missing (steps regions) ≤ (steps regions).length :=
    List.length_filter_le _ _
  obtain ⟨enough, hbuild⟩ := build_of_passes hpasses (by omega)
  exact ⟨enough, _, hbuild⟩

end Passage
