import Passage.Proofs.Drafts

/-!
# Passes

`Draft.Pass` and `Draft.Passes` say how passes lead from draft to draft, in terms of the verdicts on
rules and not of the actions that find them. A survey that comes to an end has gone through such
passes (`passes_of_build`), and where there are such passes the survey goes through them, from some
depth on (`runs_build`). Every edge of the last draft was justified when it was found (`Grows`), and
no step has a verdict left that would change this draft (`Passes.stable`).
-/
namespace Passage.Draft

open Passage.Action

inductive Pass (root : Option String) (env : Env) : Draft → List Step → Round → Draft → Prop
  | done {draft : Draft} : Pass root env draft [] [] draft
  | known {draft last : Draft} {step : Step} {rest : List Step} {round : Round} :
      draft.knows step = true → Pass root env draft rest round last →
      Pass root env draft (step :: rest) round last
  | asked {draft last : Draft} {step : Step} {rest : List Step} {round : Round} {holds : Bool} :
      draft.knows step = false → draft.Verdict root env step holds →
      Pass root env (draft.answered step holds) rest round last →
      Pass root env draft (step :: rest) ((step, holds) :: round) last

/-- Pass after pass, up to the first one that adds nothing. -/
inductive Passes (root : Option String) (env : Env) (steps : List Step) :
    Draft → List Round → Draft → Prop
  | last {draft last : Draft} {round : Round} :
      Pass root env draft steps round last → round.grew = false →
      Passes root env steps draft [round] last
  | again {draft middle last : Draft} {round : Round} {rounds : List Round} :
      Pass root env draft steps round middle → round.grew = true →
      Passes root env steps middle rounds last →
      Passes root env steps draft (round :: rounds) last

variable {draft middle last : Draft} {root : Option String} {env now after : Env} {step : Step}
  {steps rest : List Step} {round : Round} {rounds : List Round} {holds : Bool}

/-! ## Passes and the survey -/

theorem pass_of_outcome {depth : Nat} (h : draft.Shown root env now)
    (ho : (Survey.pass (Judge.byLabel depth) steps).outcome now = some (.ok round, after)) :
    ∃ last, Pass root env draft steps round last ∧ last.Shown root env after := by
  induction steps generalizing draft now round with
  | nil =>
    cases ho
    exact ⟨draft, .done, h⟩
  | cons step rest ih =>
    obtain ⟨verdict, asked, hask, ho⟩ := ok_of_bind ho
    obtain ⟨later, mid, hpass, ho⟩ := ok_of_bind ho
    cases ho
    rcases cases_of_ask h hask with ⟨rfl, hknown, hasked⟩ | ⟨holds, rfl, hunknown, hverdict, hasked⟩
    · obtain ⟨last, hlast, hshown⟩ := ih hasked hpass
      exact ⟨last, .known hknown hlast, hshown⟩
    · obtain ⟨last, hlast, hshown⟩ := ih hasked hpass
      exact ⟨last, .asked hunknown hverdict hlast, hshown⟩

theorem runs_pass (h : Pass root env draft steps round last) :
    Runs root env draft (fun depth => Survey.pass (Judge.byLabel depth) steps) round last := by
  induction h with
  | done => exact runs_pure _ []
  | known hknown _ ih =>
    exact (runs_ask_known hknown).bind (ih.bind (runs_pure _ _))
  | asked hunknown hverdict _ ih =>
    exact (runs_ask_verdict hunknown hverdict).bind (ih.bind (runs_pure _ _))

theorem runs_report (draft : Draft) (number : Nat) (round : Round) :
    Runs root env draft (fun _ => Survey.report number round) () draft := by
  refine ⟨0, fun _ _ now h => ⟨_, rfl, ?_⟩⟩
  exact Eq.trans (Env.visible_note now _) h

theorem passes_of_outcome {depth left number : Nat} (h : draft.Shown root env now)
    (ho : (Survey.passes (Judge.byLabel depth) steps left number).outcome now =
      some (.ok rounds, after)) :
    ∃ last, Passes root env steps draft rounds last ∧ last.Shown root env after := by
  induction left generalizing draft now number rounds with
  | zero => cases ho
  | succ left ih =>
    obtain ⟨round, passed, hpass, ho⟩ := ok_of_bind ho
    obtain ⟨middle, hmiddle, hpassed⟩ := pass_of_outcome h hpass
    obtain ⟨_, reported, hreport, ho⟩ := ok_of_bind ho
    have hreported : middle.Shown root env reported := by
      cases hreport
      exact Eq.trans (Env.visible_note passed _) hpassed
    cases hgrew : round.grew with
    | false =>
      rw [hgrew] at ho
      cases ho
      exact ⟨middle, .last hmiddle hgrew, hreported⟩
    | true =>
      rw [hgrew] at ho
      obtain ⟨later, mid, hlater, ho⟩ := ok_of_bind ho
      cases ho
      obtain ⟨last, hlast, hshown⟩ := ih hreported hlater
      exact ⟨last, .again hmiddle hgrew hlast, hshown⟩

theorem runs_passes (h : Passes root env steps draft rounds last) {left : Nat}
    (hleft : rounds.length ≤ left) (number : Nat) :
    Runs root env draft (fun depth => Survey.passes (Judge.byLabel depth) steps left number) rounds
      last := by
  induction h generalizing left number with
  | last hpass hgrew =>
    obtain ⟨left, rfl⟩ := Nat.exists_eq_add_of_le' hleft
    refine (runs_pass hpass).bind ((runs_report _ number _).bind ?_)
    rw [hgrew]
    exact runs_pure _ _
  | again hpass hgrew _ ih =>
    rw [List.length_cons] at hleft
    obtain ⟨left, rfl⟩ := Nat.exists_eq_add_of_le' (Nat.le_of_add_left_le hleft)
    refine (runs_pass hpass).bind ((runs_report _ number _).bind ?_)
    rw [hgrew]
    exact (ih (by omega) (number + 1)).bind (runs_pure _ _)

/-- A finished survey has gone through passes from the bare graphs to its own, which are
published. -/
theorem passes_of_build {depth : Nat} {regions : List Region} {survey : Survey}
    (ho : (Survey.build depth regions root).outcome env = some (.ok survey, after)) :
    ∃ last, Passes (Survey.rootFor env.config regions root) env (Survey.steps regions)
        (bare regions) survey.rounds last ∧
      survey.first = last.first ∧ survey.second = last.second ∧
      last.Shown (Survey.rootFor env.config regions root) env after := by
  obtain ⟨_, _, hpublish, ho⟩ := ok_of_bind ho
  cases hpublish
  obtain ⟨rounds, passed, hpasses, ho⟩ := ok_of_bind ho
  cases ho
  have hbare : (bare regions).Shown (Survey.rootFor env.config regions root) env
      (Survey.publish regions root env) := rfl
  obtain ⟨last, hlast, hshown⟩ := passes_of_outcome hbare hpasses
  have hfirst := hshown.graphOf .first
  have hsecond := hshown.graphOf .second
  refine ⟨last, hlast, ?_, ?_, hshown⟩
  · show (after.graphOf .first).getD .empty = last.first
    rw [hfirst]
    rfl
  · show (after.graphOf .second).getD .empty = last.second
    rw [hsecond]
    rfl

/-- Where passes lead to, the survey gets, from some depth on. -/
theorem build_of_passes {regions : List Region}
    (h : Passes (Survey.rootFor env.config regions root) env (Survey.steps regions) (bare regions)
      rounds last) (hlength : rounds.length ≤ (Survey.steps regions).length + 1) :
    ∃ enough, ∀ depth ≥ enough, ∃ after,
      (Survey.build depth regions root).outcome env =
        some (.ok ⟨last.first, last.second, rounds⟩, after) := by
  obtain ⟨enough, hruns⟩ := runs_passes h hlength 1
  refine ⟨enough, fun depth hdepth => ?_⟩
  obtain ⟨after, hpasses, hshown⟩ := hruns depth hdepth (Survey.publish regions root env) rfl
  have hpublish : (update (Survey.publish regions root) : Check Unit).outcome env =
    some (.ok (), Survey.publish regions root env) := rfl
  refine ⟨after, ?_⟩
  rw [Survey.build, Survey.buildBy, outcome_bind_ok hpublish, outcome_bind_ok hpasses]
  have hfirst := hshown.graphOf .first
  have hsecond := hshown.graphOf .second
  show some (Except.ok (Survey.mk ((after.graphOf .first).getD .empty)
    ((after.graphOf .second).getD .empty) rounds), after) = _
  rw [hfirst, hsecond]
  rfl

theorem Pass.knows (h : Pass root env draft rest round last) {step : Step}
    (hknown : draft.knows step = true) : last.knows step = true := by
  induction h with
  | done => exact hknown
  | known _ _ ih => exact ih hknown
  | @asked _ _ other _ _ holds _ _ _ ih =>
    cases holds with
    | false => exact ih hknown
    | true => exact ih (knows_add hknown other)

theorem Pass.coherent (h : Pass root env draft rest round last) (hcoherent : draft.Coherent) :
    last.Coherent := by
  induction h with
  | done => exact hcoherent
  | known _ _ ih => exact ih hcoherent
  | @asked _ _ step _ _ holds _ _ _ ih => exact ih (hcoherent.answered step holds)

/-! ## Every edge was justified when it was found -/

/-- Steps of a survey, each with its edge missing and its rule holding at its moment, lead from one
draft to another one. -/
inductive Grows (root : Option String) (env : Env) (steps : List Step) :
    Draft → List Step → Draft → Prop
  | refl {draft : Draft} : Grows root env steps draft [] draft
  | add {draft last : Draft} {step : Step} {history : List Step} :
      step ∈ steps → draft.knows step = false → draft.Verdict root env step true →
      Grows root env steps (draft.add step) history last →
      Grows root env steps draft (step :: history) last

variable {history later : List Step}

theorem Grows.trans (h : Grows root env steps draft history middle)
    (hlater : Grows root env steps middle later last) :
    Grows root env steps draft (history ++ later) last := by
  induction h with
  | refl => exact hlater
  | add hmem hunknown hverdict _ ih => exact .add hmem hunknown hverdict (ih hlater)

theorem Pass.grows (h : Pass root env draft rest round last) (hsub : rest ⊆ steps) :
    ∃ history, Grows root env steps draft history last := by
  induction h with
  | done => exact ⟨[], .refl⟩
  | known _ _ ih => exact ih (List.subset_of_cons_subset hsub)
  | @asked _ _ step _ _ holds hunknown hverdict _ ih =>
    obtain ⟨history, hgrows⟩ := ih (List.subset_of_cons_subset hsub)
    cases holds with
    | false => exact ⟨history, hgrows⟩
    | true => exact ⟨step :: history, .add (hsub List.mem_cons_self) hunknown hverdict hgrows⟩

theorem Passes.grows (h : Passes root env steps draft rounds last) :
    ∃ history, Grows root env steps draft history last := by
  induction h with
  | last hpass _ => exact hpass.grows (List.Subset.refl steps)
  | again hpass _ _ ih =>
    obtain ⟨history, hgrows⟩ := hpass.grows (List.Subset.refl steps)
    obtain ⟨later, hlater⟩ := ih
    exact ⟨history ++ later, hgrows.trans hlater⟩

/-- Every part of a history leads from the draft before it to the draft after it. -/
theorem Grows.split {front back : List Step} (h : Grows root env steps draft (front ++ back) last) :
    Grows root env steps draft front (draft.addAll front) ∧
      Grows root env steps (draft.addAll front) back last := by
  induction front generalizing draft with
  | nil => exact ⟨.refl, h⟩
  | cons step front ih =>
    cases h with
    | add hmem hunknown hverdict hrest =>
      obtain ⟨hfront, hback⟩ := ih hrest
      exact ⟨.add hmem hunknown hverdict hfront, hback⟩

/-- What holds of a draft and of every justified addition holds of the last draft. -/
theorem Grows.invariant {P : Draft → Prop} (h : Grows root env steps draft history last)
    (hadd : ∀ draft, P draft → ∀ step ∈ steps, draft.Verdict root env step true →
      P (draft.add step))
    (hstart : P draft) : P last := by
  induction h with
  | refl => exact hstart
  | add hmem _ hverdict _ ih => exact ih (hadd _ hstart _ hmem hverdict)

theorem Grows.coherent (h : Grows root env steps draft history last) (hcoherent : draft.Coherent) :
    last.Coherent :=
  h.invariant (fun _ hd step _ _ => hd.add step) hcoherent

/-- The edges of both graphs are those of the history, in this order. -/
theorem Grows.edges (h : Grows root env steps draft history last) (side : Side) :
    (last.graph side).edges = (draft.graph side).edges ++ Step.edges side history := by
  induction h with
  | refl => rw [Step.edges_nil, List.append_nil]
  | @add draft _ step _ _ hunknown _ _ ih =>
    rw [ih, graph_add]
    by_cases hside : side = step.side
    · subst hside
      rw [if_pos rfl, Graph.edges_addEdge hunknown, Step.edges_cons_self, List.append_assoc,
        List.singleton_append]
    · rw [if_neg hside, Step.edges_cons_of_ne hside]

/-! ## What the last pass has seen -/

theorem Pass.last_eq (h : Pass root env draft steps round last) (hgrew : round.grew = false) :
    last = draft := by
  induction h with
  | done => rfl
  | known _ _ ih => exact ih hgrew
  | asked _ _ _ ih =>
    rw [Round.grew, List.any_cons, Bool.or_eq_false_iff] at hgrew
    obtain ⟨rfl, hgrew⟩ := hgrew
    exact ih hgrew

theorem Pass.stable (h : Pass root env draft steps round last) (hgrew : round.grew = false) :
    ∀ step ∈ steps, draft.knows step = false → draft.Verdict root env step false := by
  induction h with
  | done => simp
  | known hknown _ ih =>
    intro step hstep hunknown
    rcases List.mem_cons.mp hstep with rfl | hstep
    · rw [hknown] at hunknown
      cases hunknown
    · exact ih hgrew step hstep hunknown
  | asked _ hverdict _ ih =>
    rw [Round.grew, List.any_cons, Bool.or_eq_false_iff] at hgrew
    obtain ⟨rfl, hgrew⟩ := hgrew
    intro step hstep hunknown
    rcases List.mem_cons.mp hstep with rfl | hstep
    · exact hverdict
    · exact ih hgrew step hstep hunknown

/-- Against the last draft, every step whose edge is missing has a rule that does not hold. -/
theorem Passes.stable (h : Passes root env steps draft rounds last) :
    ∀ step ∈ steps, last.knows step = false → last.Verdict root env step false := by
  induction h with
  | last hpass hgrew =>
    rw [hpass.last_eq hgrew]
    exact hpass.stable hgrew
  | again _ _ _ ih => exact ih

end Passage.Draft
