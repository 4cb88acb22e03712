import Mathlib.Data.List.Induction
import Mathlib.Data.List.Nodup
import Passage.Graph.Task
import Passage.Proofs.Drafts

/-!
# Two records of the edges

A graph records every edge twice, among the destinations of its source and in the list of all edges.
Both records grow only at their ends, and only by an edge that is in neither, so each of them can be
read off the other one (`Graph.Balanced`), whatever was done with the graph and in whatever order.
Entries of the table come from the tasks that name a region as a node or as the source of an edge,
and from no others.
-/
namespace Passage.Graph

variable {g : Graph} {edges : List (String × String)} {source destination region : String}

/-- The destinations of the edges from a source, in the order of the edges. -/
def outgoing (edges : List (String × String)) (source : String) : List String :=
  (edges.filter (·.1 = source)).map Prod.snd

theorem mem_outgoing : destination ∈ outgoing edges source ↔ (source, destination) ∈ edges := by
  simp [outgoing]

theorem nodup_outgoing (h : edges.Nodup) (source : String) : (outgoing edges source).Nodup := by
  refine List.Nodup.map_on (fun first hfirst second hsecond hsame => ?_) (h.filter _)
  have hfirst : first.1 = source := by simpa using (List.mem_filter.mp hfirst).2
  have hsecond : second.1 = source := by simpa using (List.mem_filter.mp hsecond).2
  exact Prod.ext (hfirst.trans hsecond.symm) hsame

theorem outgoing_concat (edges : List (String × String)) (source destination region : String) :
    outgoing (edges ++ [(source, destination)]) region =
      if region = source then outgoing edges region ++ [destination]
        else outgoing edges region := by
  by_cases h : region = source
  · simp [outgoing, h]
  · simp [outgoing, h, Ne.symm h]

/-- No edge is listed twice, and the destinations of a region are those of the edges listed for
it. -/
structure Balanced (g : Graph) : Prop where
  nodup : g.edges.Nodup
  destinations_eq : ∀ source, g.destinations source = outgoing g.edges source

theorem Balanced.coherent (h : g.Balanced) : g.Coherent := by
  intro source destination
  rw [hasEdge_iff, h.destinations_eq, mem_outgoing]

theorem balanced_empty : empty.Balanced := ⟨List.nodup_nil, fun _ => rfl⟩

theorem Balanced.addNode (h : g.Balanced) (region : String) : (g.addNode region).Balanced where
  nodup := by
    rw [edges_addNode]
    exact h.nodup
  destinations_eq source := by
    rw [destinations_addNode, edges_addNode, h.destinations_eq]

theorem Balanced.addEdge (h : g.Balanced) (source destination : String) :
    (g.addEdge source destination).Balanced := by
  cases hknown : g.hasEdge source destination with
  | true =>
    rw [addEdge_of_hasEdge hknown]
    exact h
  | false =>
    have hnew : (source, destination) ∉ g.edges := fun hmem => by
      rw [(h.coherent source destination).mp hmem] at hknown
      cases hknown
    refine ⟨?_, fun region => ?_⟩
    · rw [edges_addEdge hknown, List.nodup_append]
      refine ⟨h.nodup, List.nodup_singleton _, fun edge hedge other hother heq => hnew ?_⟩
      rwa [← List.mem_singleton.mp hother, ← heq]
    · rw [destinations_addEdge, edges_addEdge hknown, outgoing_concat, h.destinations_eq, hknown]
      simp only [and_true]

/-! ## Entries -/

theorem addNode_of_contains (h : g.nodes.contains region = true) : g.addNode region = g := by
  rw [Graph.addNode, if_pos h]

/-- A region with destinations has an entry. -/
theorem contains_of_hasEdge (h : g.hasEdge source destination = true) :
    g.nodes.contains source = true := by
  rw [hasEdge_iff, destinations] at h
  rw [Table.contains]
  cases hentry : g.nodes.get? source with
  | none =>
    rw [hentry] at h
    cases h
  | some _ => rfl

theorem contains_addEdge_iff : (g.addEdge source destination).nodes.contains region = true ↔
    g.nodes.contains region = true ∨ region = source := by
  cases hknown : g.hasEdge source destination with
  | true =>
    rw [addEdge_of_hasEdge hknown]
    refine ⟨Or.inl, fun h => ?_⟩
    rcases h with h | rfl
    · exact h
    · exact contains_of_hasEdge hknown
  | false =>
    rw [Graph.addEdge, hknown, if_neg (by decide), Table.contains_iff, Table.names_insert,
      Table.contains_iff]
    split
    · rename_i hmem
      refine ⟨Or.inl, fun h => ?_⟩
      rcases h with h | rfl
      · exact h
      · exact hmem
    · rw [List.mem_append, List.mem_singleton]

theorem hasEdge_addNode (g : Graph) (region source destination : String) :
    (g.addNode region).hasEdge source destination = g.hasEdge source destination := by
  rw [hasEdge, destinations_addNode, hasEdge]

/-- An entry made beforehand makes no difference to the edge that is added. -/
theorem addEdge_addNode (g : Graph) (source destination : String) :
    (g.addNode source).addEdge source destination = g.addEdge source destination := by
  cases hknown : g.hasEdge source destination with
  | true => rw [addNode_of_contains (contains_of_hasEdge hknown)]
  | false =>
    rw [Graph.addEdge, hasEdge_addNode, hknown, if_neg (by decide), Graph.addEdge, hknown,
      if_neg (by decide), destinations_addNode, edges_addNode]
    congr 1
    unfold Graph.addNode
    split
    · rfl
    · exact Table.insert_insert g.nodes source [] _

theorem link_eq (g : Graph) (source destination : String) :
    g.link source destination = (!g.hasEdge source destination, g.addEdge source destination) := by
  rw [← addEdge_addNode, link, ← hasEdge_addNode g source, Graph.addEdge]
  cases hknown : (g.addNode source).hasEdge source destination with
  | true =>
    rw [if_pos (hasEdge_iff.mp hknown), if_pos rfl]
    rfl
  | false =>
    have hnew : destination ∉ (g.addNode source).destinations source := fun hmem => by
      rw [hasEdge_iff.mpr hmem] at hknown
      cases hknown
    rw [if_neg hnew, if_neg (by decide)]
    rfl

/-! ## Tasks -/

/-- The region for which a task makes an entry, if there is none. -/
def Task.entry? : Task → Option String
  | addNode region => some region
  | addEdge source _ => some source
  | hasEdge _ _ | reachable _ | canReach _ _ => none

theorem Balanced.perform (h : g.Balanced) (task : Task) : (g.perform task).2.Balanced := by
  cases task with
  | addNode region => exact h.addNode region
  | addEdge source destination =>
    show (g.link source destination).2.Balanced
    rw [link_eq]
    exact h.addEdge source destination
  | hasEdge _ _ | reachable _ | canReach _ _ => exact h

theorem contains_perform (task : Task) : (g.perform task).2.nodes.contains region = true ↔
    g.nodes.contains region = true ∨ task.entry? = some region := by
  cases task with
  | addNode other =>
    show (g.addNode other).nodes.contains region = true ↔ _
    rw [contains_addNode, Task.entry?, Option.some.injEq, @eq_comm _ other]
  | addEdge source destination =>
    show (g.link source destination).2.nodes.contains region = true ↔ _
    rw [link_eq, contains_addEdge_iff, Task.entry?, Option.some.injEq, @eq_comm _ source]
  | hasEdge _ _ | reachable _ | canReach _ _ => simp [Graph.perform, Task.entry?]

theorem built_concat (tasks : List Task) (task : Task) :
    built (tasks ++ [task]) = ((built tasks).perform task).2 := by
  rw [built, List.foldl_append]
  rfl

theorem balanced_built (tasks : List Task) : (built tasks).Balanced := by
  induction tasks using List.reverseRecOn with
  | nil => exact balanced_empty
  | append_singleton tasks task ih =>
    rw [built_concat]
    exact ih.perform task

theorem contains_built (tasks : List Task) : (built tasks).nodes.contains region = true ↔
    ∃ task ∈ tasks, task.entry? = some region := by
  induction tasks using List.reverseRecOn with
  | nil => simp [built, empty, Table.contains]
  | append_singleton tasks task ih =>
    rw [built_concat, contains_perform, ih]
    simp [or_and_right, exists_or]

/-- The regions with an entry were named as nodes or as sources of edges. -/
theorem mem_names_built (tasks : List Task) : region ∈ (built tasks).nodes.names ↔
    .addNode region ∈ tasks ∨ ∃ destination, .addEdge region destination ∈ tasks := by
  rw [← Table.contains_iff, contains_built]
  constructor
  · rintro ⟨task, htask, hentry⟩
    cases task with
    | addNode other =>
      cases hentry
      exact .inl htask
    | addEdge source destination =>
      cases hentry
      exact .inr ⟨destination, htask⟩
    | hasEdge _ _ | reachable _ | canReach _ _ => cases hentry
  · rintro (htask | ⟨destination, htask⟩)
    · exact ⟨_, htask, rfl⟩
    · exact ⟨_, htask, rfl⟩

theorem Balanced.nodup_of_get? (h : g.Balanced) {list : List String}
    (hlist : g.nodes.get? region = some list) : list.Nodup := by
  have hdestinations : g.destinations region = list := by
    rw [destinations, hlist]
    rfl
  rw [← hdestinations, h.destinations_eq]
  exact nodup_outgoing h.nodup region

theorem Balanced.hasEdge_answer (h : g.Balanced) (source destination : String) :
    (g.perform (.hasEdge source destination)).1 = .truth true ↔
    (source, destination) ∈ g.edges := by
  rw [h.coherent source destination]
  show Reply.truth _ = _ ↔ _
  rw [Reply.truth.injEq]

/-- An edge is reported as new exactly if it is not listed; then it is listed last, and else nothing
changes. -/
theorem Balanced.addEdge_report (h : g.Balanced) (source destination : String) :
    let (reply, after) := g.perform (.addEdge source destination)
    (reply = .truth true ↔ (source, destination) ∉ g.edges) ∧
      (reply = .truth false ↔ (source, destination) ∈ g.edges) ∧
      (reply = .truth true → after.edges = g.edges ++ [(source, destination)]) ∧
      (reply = .truth false → after = g) := by
  have hperform : g.perform (.addEdge source destination) =
      (.truth (!g.hasEdge source destination), g.addEdge source destination) := by
    rw [Graph.perform, link_eq]
  have hlisted := h.coherent source destination
  rw [hperform]
  cases hknown : g.hasEdge source destination with
  | true =>
    rw [hknown] at hlisted
    exact ⟨by simp [hlisted], by simp [hlisted], nofun, fun _ => addEdge_of_hasEdge hknown⟩
  | false =>
    rw [hknown] at hlisted
    exact ⟨by simp [hlisted], by simp [hlisted], fun _ => edges_addEdge hknown, nofun⟩

theorem perform_of_entry?_eq_none {task : Task} (h : task.entry? = none) :
    (g.perform task).2 = g := by
  cases task with
  | addNode _ | addEdge _ _ => cases h
  | hasEdge _ _ | reachable _ | canReach _ _ => rfl

/-- What is left of any tasks for a new graph. No list of destinations names a region twice, nor
does the list of edges an edge, and the destinations of a region are those of its edges, in the same
order. The graph has the edges that it lists, and entries for the regions that were named as nodes
or as sources. An edge is reported as new exactly if it is not listed, and is listed last then; a
known edge, a region with an entry and a question change nothing. -/
theorem built_faithful (tasks : List Task) :
    let g := built tasks
    (∀ region list, g.nodes.get? region = some list → list.Nodup) ∧ g.edges.Nodup ∧
    (∀ region, g.destinations region = (g.edges.filter (·.1 = region)).map Prod.snd) ∧
    (∀ source destination,
      (g.perform (.hasEdge source destination)).1 = .truth true ↔ (source, destination) ∈ g.edges) ∧
    (∀ region, region ∈ g.nodes.names ↔
      .addNode region ∈ tasks ∨ ∃ destination, .addEdge region destination ∈ tasks) ∧
    (∀ source destination, let (reply, after) := g.perform (.addEdge source destination)
      (reply = .truth true ↔ (source, destination) ∉ g.edges) ∧
        (reply = .truth false ↔ (source, destination) ∈ g.edges) ∧
        (reply = .truth true → after.edges = g.edges ++ [(source, destination)]) ∧
        (reply = .truth false → after = g)) ∧
    (∀ region ∈ g.nodes.names, (g.perform (.addNode region)).2 = g) ∧
    ∀ task, task.entry? = none → (g.perform task).2 = g := by
  intro g
  have hg : g.Balanced := balanced_built tasks
  refine ⟨fun region list => hg.nodup_of_get?, hg.nodup, hg.destinations_eq, hg.hasEdge_answer,
    fun region => mem_names_built tasks, hg.addEdge_report, fun region hregion => ?_,
    fun task => perform_of_entry?_eq_none⟩
  exact addNode_of_contains (Table.contains_iff.mpr hregion)

/-- A source becomes a region by its edge, and a region that was only a destination becomes one
later; an edge and a region are added again, with a question in between. -/
theorem built_faithful_again :
    let tasks : List Task := [.addEdge "a" "b", .addNode "b", .reachable "a", .addEdge "a" "b",
      .addEdge "c" "a", .addEdge "a" "a", .addNode "c"]
    (built tasks).edges = [("a", "b"), ("c", "a"), ("a", "a")] ∧
      (built tasks).destinations "a" = ["b", "a"] ∧
      ((built tasks).perform (.addEdge "c" "a")).1 = .truth false ∧
      ((built tasks).perform (.addEdge "c" "a")).2 = built tasks ∧
      ((built tasks).perform (.addNode "b")).2 = built tasks := by
  intro tasks
  have hedges : (built tasks).edges = [("a", "b"), ("c", "a"), ("a", "a")] := by decide
  obtain ⟨_, _, hdestinations, _, _, hadd, hnode, _⟩ := built_faithful tasks
  obtain ⟨_, hknown, _, hsame⟩ := hadd "c" "a"
  have hfalse : ((built tasks).perform (.addEdge "c" "a")).1 = .truth false :=
    hknown.mpr (by rw [hedges]; decide)
  refine ⟨hedges, ?_, hfalse, hsame hfalse, hnode "b" (by decide)⟩
  rw [hdestinations, hedges]
  rfl

end Passage.Graph
