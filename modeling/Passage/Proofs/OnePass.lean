import Passage.Proofs.JourneySurvey

/-!
# One pass finds everything

Where every rule has a verdict that no draft changes (`Draft.Settled`), the first pass of a survey
finds all edges there are, and a second one, if there is any, finds nothing. So the graphs of such a
survey can be told from its verdicts (`Draft.Settled.exists_survey`): their edges are those of the
exits whose rules hold, region by region and exit by exit, and their entries are the regions.
-/
namespace Passage

namespace Graph

/-- The graph with the edges of a list added to it, one after the other. -/
def addEdges (g : Graph) (edges : List (String × String)) : Graph :=
  edges.foldl (fun g edge => g.addEdge edge.1 edge.2) g

variable {g : Graph} {edges : List (String × String)} {source region : String}

theorem addEdges_cons (g : Graph) (edge : String × String) (edges : List (String × String)) :
    g.addEdges (edge :: edges) = (g.addEdge edge.1 edge.2).addEdges edges := rfl

/-- Edges that are all new come behind those of the graph, in the order of the list. -/
theorem edges_addEdges (h : g.Coherent) (hnew : (g.edges ++ edges).Nodup) :
    (g.addEdges edges).edges = g.edges ++ edges := by
  induction edges generalizing g with
  | nil => exact (List.append_nil _).symm
  | cons edge edges ih =>
    have hmissing : g.hasEdge edge.1 edge.2 = false := by
      rw [Bool.eq_false_iff, Ne, ← h edge.1 edge.2]
      exact fun hmem => List.disjoint_of_nodup_append hnew hmem List.mem_cons_self
    have hedges := edges_addEdge hmissing
    rw [addEdges_cons, ih (h.addEdge _ _) (by rw [hedges]; simpa using hnew), hedges,
      List.append_assoc]
    rfl

theorem names_addNode (h : region ∉ g.nodes.names) :
    (g.addNode region).nodes.names = g.nodes.names ++ [region] := by
  rw [addNode, if_neg (by rwa [Table.contains_iff]), Table.names_insert, if_neg h]

theorem names_addEdge (h : source ∈ g.nodes.names) (destination : String) :
    (g.addEdge source destination).nodes.names = g.nodes.names := by
  unfold addEdge
  split
  · rfl
  · rw [Table.names_insert, if_pos h]

/-- Edges between regions with entries make no entry. -/
theorem names_addEdges (h : ∀ edge ∈ edges, edge.1 ∈ g.nodes.names) :
    (g.addEdges edges).nodes.names = g.nodes.names := by
  induction edges generalizing g with
  | nil => rfl
  | cons edge edges ih =>
    rw [List.forall_mem_cons] at h
    have hnames := names_addEdge h.1 edge.2
    rw [addEdges_cons, ih (by rw [hnames]; exact h.2), hnames]

end Graph

namespace Survey

variable {regions : List Region}

theorem names_foldl_addNode {g : Graph} (h : (g.nodes.names ++ regions.map Region.id).Nodup) :
    (regions.foldl (fun g r => g.addNode r.id) g).nodes.names =
      g.nodes.names ++ regions.map Region.id := by
  induction regions generalizing g with
  | nil => exact (List.append_nil _).symm
  | cons region rest ih =>
    rw [List.map_cons] at h
    have hfresh : region.id ∉ g.nodes.names :=
      fun hmem => List.disjoint_of_nodup_append h hmem List.mem_cons_self
    have hnames := Graph.names_addNode hfresh
    rw [List.foldl_cons, ih (by rw [hnames]; simpa using h), hnames, List.append_assoc]
    rfl

/-- Regions with ids of their own have their entries in their own order. -/
theorem names_bare (h : (regions.map Region.id).Nodup) :
    (bare regions).nodes.names = regions.map Region.id :=
  names_foldl_addNode h

/-- Under one context there is a step for each exit. -/
theorem filter_side_steps (region : Region) (side : Side) :
    region.steps.filter (·.side = side) =
      region.exits.map fun exit => ⟨side, region.id, exit.destination, exit.rule side⟩ := by
  rw [Region.steps, List.filter_flatMap, List.map_eq_flatMap]
  cases side <;> rfl

/-- The edges of the steps that hold, exit by exit. -/
theorem edges_steps (regions : List Region) (side : Side) (truth : Step → Bool) :
    Step.edges side ((steps regions).filter truth) = regions.flatMap fun region =>
      (region.exits.filter fun exit => truth ⟨side, region.id, exit.destination,
        exit.rule side⟩).map fun exit =>
        (region.id, exit.destination) := by
  have hcomm : (((steps regions).filter truth).filter (·.side = side)) =
      ((steps regions).filter (·.side = side)).filter truth := by
    rw [List.filter_filter, List.filter_filter]
    exact List.filter_congr fun step _ => Bool.and_comm _ _
  rw [Step.edges, hcomm, steps, List.filter_flatMap, List.filter_flatMap, List.map_flatMap]
  simp only [filter_side_steps, List.filter_map, List.map_map]
  rfl

end Survey

namespace Draft

variable {draft last : Draft} {root : Option String} {env : Env} {step : Step}
  {steps rest found : List Step} {truth : Step → Bool}

theorem addAll_cons (draft : Draft) (step : Step) (found : List Step) :
    draft.addAll (step :: found) = (draft.add step).addAll found := rfl

theorem add_of_knows (h : draft.knows step = true) : draft.add step = draft := by
  unfold add
  unfold knows at h
  cases hside : step.side with
  | first =>
    rw [hside] at h
    exact congrArg (Draft.mk · draft.second) (Graph.addEdge_of_hasEdge h)
  | second =>
    rw [hside] at h
    exact congrArg (Draft.mk draft.first) (Graph.addEdge_of_hasEdge h)

theorem addAll_of_knows (h : ∀ step ∈ found, draft.knows step = true) :
    draft.addAll found = draft := by
  induction found with
  | nil => rfl
  | cons step found ih =>
    rw [List.forall_mem_cons] at h
    rw [addAll_cons, add_of_knows h.1, ih h.2]

theorem knows_addAll (h : draft.knows step = true ∨ step ∈ found) :
    (draft.addAll found).knows step = true := by
  induction found generalizing draft with
  | nil => exact h.resolve_right List.not_mem_nil
  | cons other found ih =>
    refine ih ?_
    rcases h with hknown | hmem
    · exact .inl (knows_add hknown other)
    · rcases List.mem_cons.mp hmem with rfl | hmem
      · exact .inl (knows_add_self draft step)
      · exact .inr hmem

theorem graph_addAll (draft : Draft) (found : List Step) (side : Side) :
    (draft.addAll found).graph side = (draft.graph side).addEdges (Step.edges side found) := by
  induction found generalizing draft with
  | nil => rfl
  | cons step found ih =>
    rw [addAll_cons, ih, graph_add]
    by_cases hside : side = step.side
    · subst hside
      rw [if_pos rfl, Step.edges_cons_self, Graph.addEdges_cons]
    · rw [if_neg hside, Step.edges_cons_of_ne hside]

/-- Steps are settled if each of them has one verdict against all drafts. -/
theorem exists_settled (h : ∀ step ∈ steps, ∃ holds, ∀ draft : Draft,
    draft.Verdict root env step holds) : ∃ truth, Settled root env steps truth := by
  classical
  refine ⟨fun step => decide (∀ draft : Draft, draft.Verdict root env step true),
    fun draft step hstep => ?_⟩
  obtain ⟨holds, hverdict⟩ := h step hstep
  dsimp only
  cases holds with
  | true =>
    rw [decide_eq_true hverdict]
    exact hverdict draft
  | false =>
    have hnever : ¬∀ draft : Draft, draft.Verdict root env step true := fun htrue => by
      cases (htrue draft).unique (hverdict draft)
    rw [decide_eq_false hnever]
    exact hverdict draft

/-- A pass over settled steps adds those that hold. -/
theorem Settled.exists_pass (h : Settled root env steps truth) (draft : Draft)
    (hsub : rest ⊆ steps) :
    ∃ round, Pass root env draft rest round (draft.addAll (rest.filter truth)) := by
  induction rest generalizing draft with
  | nil => exact ⟨[], .done⟩
  | cons step rest ih =>
    rw [List.cons_subset] at hsub
    have hnext : draft.addAll ((step :: rest).filter truth) =
        (draft.answered step (truth step)).addAll (rest.filter truth) := by
      rw [List.filter_cons]
      cases truth step <;> rfl
    rw [hnext]
    obtain ⟨round, hpass⟩ := ih (draft.answered step (truth step)) hsub.2
    cases hknown : draft.knows step with
    | true =>
      have hsame : draft.answered step (truth step) = draft := by
        unfold answered
        rw [add_of_knows hknown, ite_self]
      rw [hsame] at hpass ⊢
      exact ⟨round, .known hknown hpass⟩
    | false => exact ⟨_, .asked hknown (h draft step hsub.1) hpass⟩

/-- After a pass that found something, one more finds nothing. -/
theorem Settled.exists_passes (h : Settled root env steps truth) (draft : Draft) :
    ∃ rounds, Passes root env steps draft rounds (draft.addAll (steps.filter truth)) ∧
      rounds.length ≤ steps.length + 1 := by
  obtain ⟨round, hpass⟩ := h.exists_pass draft (List.Subset.refl steps)
  cases hgrew : round.grew with
  | false => exact ⟨[round], .last hpass hgrew, Nat.le_add_left 1 _⟩
  | true =>
    generalize hlast : draft.addAll (steps.filter truth) = last at hpass ⊢
    have hagain : last.addAll (steps.filter truth) = last :=
      addAll_of_knows fun step hstep => hlast ▸ knows_addAll (.inr hstep)
    -- The second pass leads back to the draft that it began with, so it has found nothing.
    obtain ⟨round', hpass'⟩ := h.exists_pass last (List.Subset.refl steps)
    rw [hagain] at hpass'
    have hidle : round'.grew = false := by
      rw [Bool.eq_false_iff]
      intro hgrew'
      obtain ⟨step, _, hunknown, hknown⟩ := hpass'.exists_found hgrew'
      rw [hunknown] at hknown
      cases hknown
    obtain ⟨step, hstep, _⟩ := hpass.exists_found hgrew
    have hsome := List.length_pos_of_mem hstep
    exact ⟨[round, round'], .again hpass hgrew (.last hpass' hidle), Nat.succ_le_succ hsome⟩

/-- A survey of settled steps ends, and its graphs have the edges of the exits whose rules hold, if
no two of them are the same, and an entry for each region, if no two of these have the same id. -/
theorem Settled.exists_survey {regions : List Region} {root : Option String}
    (h : Settled (Survey.rootFor env.config regions root) env (Survey.steps regions) truth)
    (hids : (regions.map Region.id).Nodup)
    (hnew : ∀ side, (Step.edges side ((Survey.steps regions).filter truth)).Nodup) :
    ∃ enough, ∀ depth ≥ enough, ∃ survey after,
      (Survey.build depth regions root).outcome env = some (.ok survey, after) ∧ ∀ side,
        (survey.graph side).nodes.names = regions.map Region.id ∧
        (survey.graph side).edges = Step.edges side ((Survey.steps regions).filter truth) := by
  obtain ⟨rounds, hpasses, hlength⟩ := h.exists_passes (bare regions)
  obtain ⟨enough, hbuild⟩ := build_of_passes hpasses hlength
  refine ⟨enough, fun depth hdepth => ?_⟩
  obtain ⟨after, houtcome⟩ := hbuild depth hdepth
  refine ⟨_, after, houtcome, fun side => ?_⟩
  have hgraph : ((bare regions).addAll ((Survey.steps regions).filter truth)).graph side =
      (Survey.bare regions).addEdges (Step.edges side ((Survey.steps regions).filter truth)) := by
    rw [graph_addAll, graph_bare]
  have hsources : ∀ edge ∈ Step.edges side ((Survey.steps regions).filter truth),
      edge.1 ∈ (Survey.bare regions).nodes.names := by
    intro edge hedge
    obtain ⟨step, hstep, rfl⟩ := List.mem_map.mp hedge
    have hmem := List.mem_of_mem_filter (List.mem_of_mem_filter hstep)
    obtain ⟨region, hregion, _, _, _, rfl⟩ := Survey.mem_steps.mp hmem
    rw [Survey.names_bare hids]
    exact List.mem_map_of_mem hregion
  obtain ⟨hcoherent, hedges, _⟩ := Survey.bare_spec regions
  have hnodup : ((Survey.bare regions).edges ++
      Step.edges side ((Survey.steps regions).filter truth)).Nodup := by
    rw [hedges]
    exact hnew side
  have hnames := Graph.names_addEdges hsources
  have hall := Graph.edges_addEdges hcoherent hnodup
  rw [Survey.names_bare hids, ← hgraph] at hnames
  rw [hedges, List.nil_append, ← hgraph] at hall
  cases side with
  | first => exact ⟨hnames, hall⟩
  | second => exact ⟨hnames, hall⟩

end Draft

end Passage
