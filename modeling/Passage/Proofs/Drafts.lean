import Passage.Proofs.Sight
import Passage.Survey

/-!
# Surveys under way

A draft is the pair of graphs that a survey has published at some moment. The verdict on a step
against a draft is what the rule of the step comes to while the draft is published, at whatever
depth. A survey asks one step after another; `cases_of_ask` says what asking one does to the draft,
and `runs_ask_known` and `runs_ask_verdict` say when that comes about.
-/
namespace Passage

open Passage.Action

/-- The graphs of both contexts at one moment of a survey. -/
structure Draft where
  first : Graph
  second : Graph

namespace Graph

/-- The list of edges and the table of destinations tell the same. -/
def Coherent (g : Graph) : Prop :=
  ∀ source destination, (source, destination) ∈ g.edges ↔ g.hasEdge source destination = true

variable {g : Graph} {source destination s d : String}

theorem edges_addEdge (h : g.hasEdge source destination = false) :
    (g.addEdge source destination).edges = g.edges ++ [(source, destination)] := by
  simp [addEdge, h]

theorem hasEdge_addEdge : (g.addEdge source destination).hasEdge s d = true ↔
    g.hasEdge s d = true ∨ s = source ∧ d = destination := by
  rw [hasEdge_iff, hasEdge_iff, destinations_addEdge]
  by_cases hs : s = source
  · cases hknown : g.hasEdge source destination with
    | false => simp [hs]
    | true =>
      have hmem := hasEdge_iff.mp hknown
      simp only [hs, Bool.true_eq_false, and_false, if_false, true_and]
      constructor
      · exact Or.inl
      · intro h
        rcases h with h | rfl
        · exact h
        · exact hmem
  · simp [hs]

theorem Coherent.addEdge (h : g.Coherent) (source destination : String) :
    (g.addEdge source destination).Coherent := by
  intro s d
  rw [hasEdge_addEdge, ← h s d]
  cases hknown : g.hasEdge source destination with
  | false =>
    rw [edges_addEdge hknown, List.mem_append, List.mem_singleton, Prod.mk.injEq]
  | true =>
    rw [addEdge_of_hasEdge hknown]
    constructor
    · exact Or.inl
    · intro hmem
      rcases hmem with hmem | ⟨rfl, rfl⟩
      · exact hmem
      · exact (h s d).mpr hknown

theorem coherent_empty : empty.Coherent := by
  intro s d
  constructor
  · intro h; cases h
  · intro h; cases h

theorem edges_addNode (g : Graph) (region : String) : (g.addNode region).edges = g.edges := by
  unfold addNode
  split
  · rfl
  · rfl

theorem Coherent.addNode (h : g.Coherent) (region : String) : (g.addNode region).Coherent := by
  intro s d
  rw [edges_addNode, h s d, hasEdge_iff, hasEdge_iff, destinations_addNode]

theorem contains_addEdge {region : String} (h : g.nodes.contains region = true) :
    (g.addEdge source destination).nodes.contains region = true := by
  unfold addEdge
  split
  · exact h
  · rw [Table.contains_iff] at h ⊢
    rw [Table.names_insert]
    split
    · exact h
    · exact List.mem_append_left _ h

theorem contains_addNode {region other : String} :
    (g.addNode other).nodes.contains region = true ↔
      g.nodes.contains region = true ∨ region = other := by
  unfold addNode
  split
  · rename_i h
    constructor
    · exact Or.inl
    · intro hor
      rcases hor with hor | rfl
      · exact hor
      · exact h
  · rename_i h
    rw [Table.contains_iff] at h ⊢
    rw [Table.contains_iff, Table.names_insert, if_neg h, List.mem_append, List.mem_singleton]

end Graph

namespace Step

def edges (side : Side) (steps : List Step) : List (String × String) :=
  (steps.filter (·.side = side)).map fun step => (step.source, step.destination)

variable {side : Side} {step : Step} {steps : List Step}

theorem edges_nil : edges side [] = [] := rfl

theorem edges_cons_self :
    edges step.side (step :: steps) = (step.source, step.destination) :: edges step.side steps := by
  simp [edges]

theorem edges_cons_of_ne (h : side ≠ step.side) :
    edges side (step :: steps) = edges side steps := by
  simp [edges, Ne.symm h]

end Step

namespace Survey

/-- The steps of a survey are the rules of the exits of its regions. -/
theorem mem_steps {regions : List Region} {step : Step} :
    step ∈ steps regions ↔ ∃ region ∈ regions, ∃ exit ∈ region.exits, ∃ side,
      step = ⟨side, region.id, exit.destination, exit.rule side⟩ := by
  simp only [steps, Region.steps, List.mem_flatMap, List.mem_cons, List.not_mem_nil, or_false]
  constructor
  · intro ⟨region, hregion, exit, hexit, h⟩
    rcases h with rfl | rfl
    · exact ⟨region, hregion, exit, hexit, .first, rfl⟩
    · exact ⟨region, hregion, exit, hexit, .second, rfl⟩
  · intro ⟨region, hregion, exit, hexit, side, h⟩
    refine ⟨region, hregion, exit, hexit, ?_⟩
    cases side with
    | first => exact .inl h
    | second => exact .inr h

/-- The bare graph has an entry for every region, and no edge. -/
theorem bare_spec (regions : List Region) :
    (bare regions).Coherent ∧ (bare regions).edges = [] ∧
      ∀ region ∈ regions, (bare regions).nodes.contains region.id = true := by
  have hall : ∀ g : Graph, g.Coherent →
      let last := regions.foldl (fun g r => g.addNode r.id) g
      last.Coherent ∧ last.edges = g.edges ∧
        ∀ id, g.nodes.contains id = true ∨ id ∈ regions.map Region.id →
          last.nodes.contains id = true := by
    induction regions with
    | nil =>
      intro g hg
      refine ⟨hg, rfl, fun id hid => ?_⟩
      rcases hid with hid | hid
      · exact hid
      · cases hid
    | cons region rest ih =>
      intro g hg
      obtain ⟨hcoherent, hedges, hentries⟩ := ih (g.addNode region.id) (hg.addNode region.id)
      refine ⟨hcoherent, hedges.trans (g.edges_addNode region.id), fun id hid => hentries id ?_⟩
      rw [Graph.contains_addNode]
      rw [List.map_cons, List.mem_cons] at hid
      rw [or_assoc]
      exact hid
  obtain ⟨hcoherent, hedges, hentries⟩ := hall .empty Graph.coherent_empty
  refine ⟨hcoherent, hedges, fun region hregion => hentries region.id (.inr ?_)⟩
  exact List.mem_map_of_mem hregion

end Survey

theorem Survey.entries_byLabel (survey : Survey) (contexts : Contexts) :
    (survey.byLabel contexts).entries =
      [(contexts.first, survey.first), (contexts.second, survey.second)] := by
  have hne := contexts.distinct
  show Table.put contexts.second survey.second [(contexts.first, survey.first)] = _
  simp only [Table.put, hne, if_false]

namespace Draft

def graph (draft : Draft) : Side → Graph
  | .first => draft.first
  | .second => draft.second

/-- The draft with which a survey begins. -/
def bare (regions : List Region) : Draft := ⟨Survey.bare regions, Survey.bare regions⟩

def add (draft : Draft) (step : Step) : Draft :=
  match step.side with
  | .first => { draft with first := draft.first.addEdge step.source step.destination }
  | .second => { draft with second := draft.second.addEdge step.source step.destination }

def addAll (draft : Draft) (steps : List Step) : Draft := steps.foldl add draft

def knows (draft : Draft) (step : Step) : Bool :=
  (draft.graph step.side).hasEdge step.source step.destination

/-- The environment in which a draft is published, measured from a root. -/
def publish (draft : Draft) (root : Option String) (env : Env) : Env :=
  { env with
    graphs := (Survey.mk draft.first draft.second []).byLabel env.config.contexts
    graphRoot := root }

/-- Rules see the environment in which a draft is published. -/
def Shown (draft : Draft) (root : Option String) (env now : Env) : Prop :=
  now.visible = (draft.publish root env).visible

/-- The rule of a step has been decided against a draft. -/
def Verdict (draft : Draft) (root : Option String) (env : Env) (step : Step)
    (holds : Bool) : Prop :=
  (draft.publish root env).Checks (some (env.config.contexts.label step.side)) step.rule (.ok holds)

def answered (draft : Draft) (step : Step) (holds : Bool) : Draft :=
  if holds then draft.add step else draft

variable {draft : Draft} {root : Option String} {env now after : Env} {step : Step} {holds : Bool}

theorem graph_add (draft : Draft) (step : Step) (side : Side) :
    (draft.add step).graph side =
      if side = step.side then (draft.graph side).addEdge step.source step.destination
      else draft.graph side := by
  unfold add
  cases step.side <;> cases side <;> rfl

def Coherent (draft : Draft) : Prop := ∀ side, (draft.graph side).Coherent

theorem knows_add (h : draft.knows step = true) (other : Step) :
    (draft.add other).knows step = true := by
  unfold knows at h ⊢
  rw [graph_add]
  split
  · exact Graph.hasEdge_addEdge.mpr (.inl h)
  · exact h

theorem knows_add_self (draft : Draft) (step : Step) : (draft.add step).knows step = true := by
  unfold knows
  rw [graph_add, if_pos rfl]
  exact Graph.hasEdge_addEdge.mpr (.inr ⟨rfl, rfl⟩)

theorem mem_edges_add {side : Side} {edge : String × String}
    (h : edge ∈ ((draft.add step).graph side).edges) :
    edge ∈ (draft.graph side).edges ∨ side = step.side ∧
      edge = (step.source, step.destination) := by
  rw [graph_add] at h
  split at h
  · rename_i hside
    cases hknown : (draft.graph side).hasEdge step.source step.destination with
    | true =>
      rw [Graph.addEdge_of_hasEdge hknown] at h
      exact .inl h
    | false =>
      rw [Graph.edges_addEdge hknown, List.mem_append, List.mem_singleton] at h
      exact h.imp_right fun hedge => ⟨hside, hedge⟩
  · exact .inl h

/-- Every edge of the first draft is an edge of the second one. -/
def Below (draft larger : Draft) : Prop :=
  ∀ side, ∀ edge ∈ (draft.graph side).edges, edge ∈ (larger.graph side).edges

theorem graph_bare (regions : List Region) (side : Side) :
    (bare regions).graph side = Survey.bare regions := by
  cases side <;> rfl

theorem coherent_bare (regions : List Region) : (bare regions).Coherent := by
  intro side
  rw [graph_bare]
  exact (Survey.bare_spec regions).1

theorem edges_bare (regions : List Region) (side : Side) :
    ((bare regions).graph side).edges = [] := by
  rw [graph_bare]
  exact (Survey.bare_spec regions).2.1

theorem entries_bare {regions : List Region} (side : Side) {region : Region}
    (h : region ∈ regions) : ((bare regions).graph side).nodes.contains region.id = true := by
  rw [graph_bare]
  exact (Survey.bare_spec regions).2.2 region h

theorem Coherent.add (h : draft.Coherent) (step : Step) : (draft.add step).Coherent := by
  intro side
  rw [graph_add]
  split
  · exact (h side).addEdge step.source step.destination
  · exact h side

theorem Coherent.answered (h : draft.Coherent) (step : Step) (holds : Bool) :
    (draft.answered step holds).Coherent := by
  cases holds with
  | false => exact h
  | true => exact h.add step

theorem entries_add {region : String} {side : Side}
    (h : (draft.graph side).nodes.contains region = true) (step : Step) :
    ((draft.add step).graph side).nodes.contains region = true := by
  rw [graph_add]
  split
  · exact Graph.contains_addEdge h
  · exact h

theorem graphOf_publish (draft : Draft) (root : Option String) (env : Env) (side : Side) :
    (draft.publish root env).graphOf side = some (draft.graph side) := by
  have hne := env.config.contexts.distinct
  show Table.find _ ((Survey.mk draft.first draft.second []).byLabel
    env.config.contexts).entries = _
  rw [Survey.entries_byLabel]
  cases side with
  | first => simp only [publish, Contexts.label, Table.find, if_true, graph]
  | second => simp only [publish, Contexts.label, Table.find, hne, if_false, if_true, graph]

/-- The survey and the draft add an edge in the same place. -/
theorem record_publish (draft : Draft) (root : Option String) (env : Env) (step : Step) :
    Survey.record step (draft.publish root env) = (draft.add step).publish root env := by
  have hne := env.config.contexts.distinct
  obtain ⟨side, source, destination, rule⟩ := step
  -- Both labels are bound, so the new graph takes the place of the old one.
  unfold Survey.record
  rw [graphOf_publish]
  refine congrArg (fun graphs => { env with graphs := graphs, graphRoot := root }) (Table.ext ?_)
  show Table.put _ _ ((Survey.mk draft.first draft.second []).byLabel
    env.config.contexts).entries = _
  rw [Survey.entries_byLabel, Survey.entries_byLabel]
  cases side with
  | first => simp only [publish, Contexts.label, Table.put, if_true, graph, add]
  | second => simp only [publish, Contexts.label, Table.put, hne, if_false, if_true, graph, add]

theorem Shown.graphOf (h : draft.Shown root env now) (side : Side) :
    now.graphOf side = some (draft.graph side) := by
  have hvisible : now.visible.graphOf side = (draft.publish root env).visible.graphOf side :=
    congrArg (Env.graphOf · side) h
  exact hvisible.trans (graphOf_publish draft root env side)

theorem Shown.known (h : draft.Shown root env now) (step : Step) :
    Survey.known step now = draft.knows step := by
  unfold Survey.known
  rw [h.graphOf]
  rfl

theorem visible_record (step : Step) (env : Env) :
    (Survey.record step env).visible = Survey.record step env.visible := by
  have hsame : env.visible.graphOf step.side = env.graphOf step.side := rfl
  unfold Survey.record
  rw [hsame]
  cases env.graphOf step.side with
  | none => rfl
  | some g => rfl

theorem Shown.record (h : draft.Shown root env now) (step : Step) :
    (draft.add step).Shown root env (Survey.record step now) := by
  unfold Shown at h ⊢
  rw [visible_record, h, ← visible_record, record_publish]

/-- Asked at the depth of its verdict or more, a rule gets this verdict. -/
theorem Shown.outcome_judge {depth depth' : Nat} (hle : depth ≤ depth') {mid : Env}
    (h : draft.Shown root env now) {result : Except CheckError Bool}
    (ho : (checkRule depth step.rule (some (env.config.contexts.label step.side))).outcome
      (draft.publish root env) = some (result, mid)) :
    ∃ after, (Judge.byLabel depth' step.side step.rule).outcome now = some (result, after) ∧
      draft.Shown root env after := by
  have hconfig : now.visible.config = (draft.publish root env).visible.config := by rw [h]
  obtain ⟨after, hafter, hseen⟩ := checkRule_visible hle (Eq.symm h) ho
  refine ⟨after, ?_, hseen.trans h⟩
  rw [Judge.byLabel, outcome_bind_ok (outcome_read _ now)]
  have hlabels : now.config.contexts = env.config.contexts := congrArg Config.contexts hconfig
  rw [hlabels]
  exact hafter

/-- A rule gets only verdicts against the draft that is shown. -/
theorem Shown.of_judge {depth : Nat} {result : Except CheckError Bool}
    (h : draft.Shown root env now)
    (ho : (Judge.byLabel depth step.side step.rule).outcome now = some (result, after)) :
    (draft.publish root env).Checks (some (env.config.contexts.label step.side)) step.rule result ∧
      draft.Shown root env after := by
  have hconfig : now.visible.config = (draft.publish root env).visible.config := by rw [h]
  have hlabels : now.config.contexts = env.config.contexts := congrArg Config.contexts hconfig
  rw [Judge.byLabel, outcome_bind_ok (outcome_read _ now), hlabels] at ho
  have hseen := keeps_checkRule _ depth step.rule now _ after ho
  exact ⟨Env.Checks.of_visible h ⟨depth, after, ho⟩, hseen.trans h⟩

/-- From some depth on, the action leads from one draft to the other, with a value. -/
def Runs (root : Option String) (env : Env) {α : Type} (draft : Draft) (act : Nat → Check α)
    (value : α) (last : Draft) : Prop :=
  ∃ enough, ∀ depth ≥ enough, ∀ now, draft.Shown root env now →
    ∃ after, (act depth).outcome now = some (.ok value, after) ∧ last.Shown root env after

theorem Runs.bind {α β : Type} {middle last : Draft} {act : Nat → Check α}
    {next : Nat → α → Check β} {a : α} {b : β} (h : Runs root env draft act a middle)
    (hnext : Runs root env middle (fun depth => next depth a) b last) :
    Runs root env draft (fun depth => act depth >>= next depth) b last := by
  obtain ⟨enough, h⟩ := h
  obtain ⟨enough', hnext⟩ := hnext
  refine ⟨max enough enough', fun depth hdepth now hshown => ?_⟩
  obtain ⟨mid, hact, hmid⟩ := h depth (by omega) now hshown
  obtain ⟨after, hrest, hafter⟩ := hnext depth (by omega) mid hmid
  exact ⟨after, by rw [outcome_bind_ok hact]; exact hrest, hafter⟩

theorem runs_pure {α : Type} (draft : Draft) (a : α) :
    Runs root env draft (fun _ => pure a) a draft :=
  ⟨0, fun _ _ now h => ⟨now, rfl, h⟩⟩

theorem outcome_ask_known (h : draft.Shown root env now) (hknown : draft.knows step = true)
    (judge : Judge) : (Survey.ask judge step).outcome now = some (.ok none, now) := by
  rw [Survey.ask, outcome_bind_ok (outcome_read _ now), h.known, hknown]
  rfl

theorem runs_ask_known (hknown : draft.knows step = true) :
    Runs root env draft (fun depth => Survey.ask (Judge.byLabel depth) step) none draft :=
  ⟨0, fun depth _ now h => ⟨now, outcome_ask_known h hknown (Judge.byLabel depth), h⟩⟩

theorem Shown.outcome_verdict (h : draft.Shown root env now) (step : Step) (holds : Bool) :
    ∃ after,
      (do if holds then update (Survey.record step)
          return some holds : Check (Option Bool)).outcome now = some (.ok (some holds), after) ∧
        (draft.answered step holds).Shown root env after := by
  cases holds with
  | false => exact ⟨now, rfl, h⟩
  | true => exact ⟨Survey.record step now, rfl, h.record step⟩

/-- A step whose edge is missing gets its verdict, from some depth on. -/
theorem runs_ask_verdict (hunknown : draft.knows step = false)
    (hverdict : draft.Verdict root env step holds) :
    Runs root env draft (fun depth => Survey.ask (Judge.byLabel depth) step) (some holds)
      (draft.answered step holds) := by
  obtain ⟨enough, mid, hcheck⟩ := hverdict
  refine ⟨enough, fun depth hdepth now h => ?_⟩
  obtain ⟨judged, hjudge, hjudged⟩ := h.outcome_judge hdepth hcheck
  obtain ⟨after, hrest, hafter⟩ := hjudged.outcome_verdict step holds
  refine ⟨after, ?_, hafter⟩
  show (Survey.ask (Judge.byLabel depth) step).outcome now = _
  rw [Survey.ask, outcome_bind_ok (outcome_read _ now), h.known, hunknown, if_neg (by decide),
    outcome_bind_ok hjudge]
  exact hrest

/-- Asking a step passes over it if its edge is known, and gets the verdict against the draft if
not. -/
theorem cases_of_ask {depth : Nat} {verdict : Option Bool} (h : draft.Shown root env now)
    (ho : (Survey.ask (Judge.byLabel depth) step).outcome now = some (.ok verdict, after)) :
    (verdict = none ∧ draft.knows step = true ∧ draft.Shown root env after) ∨
      ∃ holds, verdict = some holds ∧ draft.knows step = false ∧ draft.Verdict root env step holds ∧
        (draft.answered step holds).Shown root env after := by
  cases hknown : draft.knows step with
  | true =>
    rw [outcome_ask_known h hknown] at ho
    cases ho
    exact .inl ⟨rfl, rfl, h⟩
  | false =>
    rw [Survey.ask, outcome_bind_ok (outcome_read _ now), h.known, hknown,
      if_neg (by decide)] at ho
    obtain ⟨holds, judged, hjudge, ho⟩ := ok_of_bind ho
    obtain ⟨hverdict, hjudged⟩ := h.of_judge hjudge
    obtain ⟨recorded, hrest, hrecorded⟩ := hjudged.outcome_verdict step holds
    rw [hrest] at ho
    cases ho
    exact .inr ⟨holds, rfl, rfl, hverdict, hrecorded⟩

end Draft

end Passage
