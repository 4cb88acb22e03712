import Passage.Proofs.Passes

/-!
# Surveys are stable and justified

Rules may compare, call helpers and read texts, so more edges can make a rule fail that held before.
What can still be said of any survey that comes to an end: no rule of a missing edge holds against
its graphs, and each of its edges was found by a rule that held against the edges found before.
-/
namespace Passage

open Draft

/-- A finished survey. No exit is left whose edge is missing though its rule holds. There is an
order of all edges, of both contexts, in which the rule of each edge holds against the edges before
it. Every region has an entry in both graphs, and the two graphs are all that is published. -/
theorem survey_stable_justified {env after : Env} {depth : Nat} {regions : List Region}
    {root : Option String} {survey : Survey}
    (h : (Survey.build depth regions root).outcome env = some (.ok survey, after)) :
    (∀ region ∈ regions, ∀ exit ∈ region.exits, ∀ side,
      (region.id, exit.destination) ∉ (survey.graph side).edges →
        after.Checks (some (env.config.contexts.label side)) (exit.rule side) (.ok false)) ∧
    (∃ history : List Step,
      (∀ side, (survey.graph side).edges = Step.edges side history) ∧
      ∀ front step back, history = front ++ step :: back →
        (∃ region ∈ regions, region.id = step.source ∧ ∃ exit ∈ region.exits,
          exit.destination = step.destination ∧ exit.rule step.side = step.rule) ∧
        let moment := (bare regions).addAll front
        (∀ side, (moment.graph side).edges = Step.edges side front) ∧
          (moment.publish (Survey.rootFor env.config regions root) env).Checks
            (some (env.config.contexts.label step.side)) step.rule (.ok true)) ∧
    (∀ side, ∀ region ∈ regions, (survey.graph side).nodes.contains region.id = true) ∧
    after.graphs.entries =
      [(env.config.contexts.first, survey.first), (env.config.contexts.second, survey.second)] := by
  obtain ⟨last, hpasses, hfirst, hsecond, hshown⟩ := passes_of_build h
  have hgraph (side : Side) : survey.graph side = last.graph side := by
    cases side with
    | first => exact hfirst
    | second => exact hsecond
  obtain ⟨history, hgrows⟩ := hpasses.grows
  refine ⟨?_, ⟨history, ?_, ?_⟩, ?_, ?_⟩
  · intro region hregion exit hexit side hmissing
    have hcoherent : last.Coherent := hgrows.coherent (coherent_bare regions)
    have hstep : ⟨side, region.id, exit.destination, exit.rule side⟩ ∈ Survey.steps regions :=
      Survey.mem_steps.mpr ⟨region, hregion, exit, hexit, side, rfl⟩
    have hunknown : last.knows ⟨side, region.id, exit.destination, exit.rule side⟩ = false := by
      rw [hgraph, hcoherent side] at hmissing
      exact Bool.eq_false_iff.mpr hmissing
    have hverdict := hpasses.stable _ hstep hunknown
    exact Env.Checks.of_visible (Eq.symm hshown) hverdict
  · intro side
    rw [hgraph, hgrows.edges, edges_bare, List.nil_append]
  · intro front step back hsplit
    rw [hsplit] at hgrows
    obtain ⟨hfront, hback⟩ := hgrows.split
    cases hback with
    | add hmem _ hverdict _ =>
      obtain ⟨region, hregion, exit, hexit, side, rfl⟩ := Survey.mem_steps.mp hmem
      refine ⟨⟨region, hregion, rfl, exit, hexit, rfl, rfl⟩, ?_, hverdict⟩
      intro side
      rw [hfront.edges, edges_bare, List.nil_append]
  · intro side region hregion
    rw [hgraph]
    exact hgrows.invariant (P := fun d => (d.graph side).nodes.contains region.id = true)
      (fun _ hd step _ _ => entries_add hd step) (entries_bare side hregion)
  · have hgraphs : after.visible.graphs =
        (Survey.mk last.first last.second []).byLabel env.config.contexts := by
      rw [hshown]
      rfl
    show after.visible.graphs.entries = _
    rw [hgraphs, Survey.entries_byLabel, hfirst, hsecond]

/-- The exit from the tower opens while the well is out of reach, and its edge stays when the well
is found and the rule no longer holds. The exit to the tower never opens to an adult. -/
theorem survey_stable_justified_overtaken :
    let regions : List Region :=
      [⟨"yard", "", [⟨"well", "at(\"tower\", TRUE)", "FALSE"⟩,
        ⟨"tower", "TRUE", "AGE == \"CHILD\""⟩], []⟩,
       ⟨"tower", "", [⟨"yard", "FALSE", "at(\"well\", TRUE) == FALSE"⟩], []⟩]
    ∃ survey after,
      (Survey.build 8 regions none).outcome (.fresh {} Env.builtins Env.noHosts) =
        some (.ok survey, after) ∧
      survey.first.edges = [("yard", "tower"), ("yard", "well")] ∧
      survey.second.edges = [("tower", "yard")] ∧
      after.Checks (some "ADULT") "AGE == \"CHILD\"" (.ok false) := by
  intro regions
  have hrun : (((Survey.build 8 regions none).outcome (.fresh {} Env.builtins Env.noHosts)).bind
      fun (result, _) => result.toOption.map fun survey =>
        (survey.first.edges, survey.second.edges)) =
      some ([("yard", "tower"), ("yard", "well")], [("tower", "yard")]) := by
    decide +kernel
  obtain ⟨survey, after, hbuild, hedges⟩ := Action.ok_of_seen hrun
  obtain ⟨hfirst, hsecond⟩ := Prod.mk.inj hedges
  refine ⟨survey, after, hbuild, hfirst, hsecond, ?_⟩
  have hstable := (survey_stable_justified hbuild).1
  refine hstable ⟨"yard", "", _, []⟩ List.mem_cons_self ⟨"tower", "TRUE", "AGE == \"CHILD\""⟩
    (List.mem_cons_of_mem _ List.mem_cons_self) .second ?_
  show ("yard", "tower") ∉ survey.second.edges
  rw [hsecond]
  decide

end Passage
