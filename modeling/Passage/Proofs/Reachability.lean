import Mathlib.Data.List.Nodup
import Mathlib.Data.List.Perm.Subperm
import Mathlib.Logic.Relation
import Passage.Graph

/-!
# What a search finds

A search of a graph finds exactly the regions to which a path leads from its root. The invariant of
the search (`Searching`) says that everything found is found once and reached, and that what leads
out of a visited region has been found; the number of visits allowed is enough because every visit
takes one of finitely many regions from the queue for good.
-/
namespace Passage.Graph

variable {g : Graph} {root : String}

/-- One region leads to another one. -/
def Leads (g : Graph) (source destination : String) : Prop := destination ∈ g.destinations source

/-- The first region is left and the other one reached along any number of edges. -/
abbrev Path (g : Graph) : String → String → Prop := Relation.ReflTransGen g.Leads

/-- Every destination has its place in the table of regions. -/
theorem mem_of_leads {source destination : String} (h : g.Leads source destination) :
    destination ∈ g.nodes.entries.flatMap Prod.snd := by
  unfold Leads destinations at h
  cases hget : g.nodes.get? source with
  | none => rw [hget] at h; cases h
  | some found =>
    rw [hget] at h
    exact List.mem_flatMap.mpr ⟨(source, found), Table.mem_of_find hget, h⟩

structure Searching (g : Graph) (root : String) (visited queue : List String) : Prop where
  once : (visited ++ queue).Nodup
  start : root ∈ visited ++ queue
  sound : ∀ x ∈ visited ++ queue, g.Path root x
  left : ∀ x ∈ visited, ∀ y, g.Leads x y → y ∈ visited ++ queue

theorem searching_start (g : Graph) (root : String) : g.Searching root [] [root] where
  once := List.nodup_singleton root
  start := List.mem_singleton_self root
  sound := by
    intro x hx
    rw [List.mem_singleton.mp hx]
  left := by simp

theorem Searching.visit {x : String} {visited queue : List String}
    (h : g.Searching root visited (x :: queue)) :
    g.Searching root (visited ++ [x])
      (queue ++ unseen (visited ++ x :: queue) (g.destinations x)) := by
  have hsplit : visited ++ [x] ++ (queue ++ unseen (visited ++ x :: queue) (g.destinations x)) =
      (visited ++ x :: queue) ++ unseen (visited ++ x :: queue) (g.destinations x) := by simp
  have hx : x ∈ visited ++ x :: queue := List.mem_append_right _ List.mem_cons_self
  constructor
  · rw [hsplit]
    refine h.once.append (nodup_unseen _ _) ?_
    rw [List.disjoint_left]
    intro y hfound hnew
    exact (mem_unseen.mp hnew).2 hfound
  · rw [hsplit]
    exact List.mem_append_left _ h.start
  · rw [hsplit]
    intro y hy
    rcases List.mem_append.mp hy with hfound | hnew
    · exact h.sound y hfound
    · exact (h.sound x hx).tail (mem_unseen.mp hnew).1
  · rw [hsplit]
    intro y hy z hz
    by_cases hseen : z ∈ visited ++ x :: queue
    · exact List.mem_append_left _ hseen
    · rcases List.mem_append.mp hy with hold | hnew
      · exact List.mem_append_left _ (h.left y hold z hz)
      · rw [List.mem_singleton.mp hnew] at hz
        exact List.mem_append_right _ (mem_unseen.mpr ⟨hz, hseen⟩)

/-- A search never holds more regions than there are. -/
theorem Searching.length_le {visited queue : List String} (h : g.Searching root visited queue) :
    (visited ++ queue).length ≤ g.reach := by
  have hsub : visited ++ queue ⊆ root :: g.nodes.entries.flatMap Prod.snd := by
    intro x hx
    rcases Relation.ReflTransGen.cases_tail (h.sound x hx) with rfl | ⟨y, _, hyx⟩
    · exact List.mem_cons_self
    · exact List.mem_cons_of_mem _ (mem_of_leads hyx)
  have hle := (List.subperm_of_subset h.once hsub).length_le
  simpa only [reach, List.length_cons] using hle

/-- When every region there is has been visited, nothing waits. -/
theorem Searching.queue_eq_nil {visited queue : List String} (h : g.Searching root visited queue)
    (hvisited : g.reach ≤ visited.length) : queue = [] := by
  have hle := h.length_le
  rw [List.length_append] at hle
  exact List.eq_nil_of_length_eq_zero (by omega)

/-- With enough visits the search ends with an empty queue. -/
theorem Searching.run {visits : Nat} {visited queue : List String}
    (h : g.Searching root visited queue) (hvisits : g.reach ≤ visits + visited.length) :
    g.Searching root (g.visit visits visited queue) [] := by
  -- A visit moves one region over, so the visits left and the regions visited stay enough together.
  induction visits generalizing visited queue with
  | zero =>
    obtain rfl := h.queue_eq_nil (by omega)
    simpa only [Graph.visit, List.append_nil] using h
  | succ visits ih =>
    cases queue with
    | nil => exact h
    | cons x queue =>
      refine ih h.visit ?_
      rw [List.length_append, List.length_singleton]
      omega

theorem searching_reachable (g : Graph) (root : String) :
    g.Searching root (g.reachable root) [] :=
  (searching_start g root).run (Nat.le_refl _)

/-- A search finds a region exactly if a path leads there. -/
theorem mem_reachable_iff {region : String} : region ∈ g.reachable root ↔ g.Path root region := by
  obtain ⟨_, hstart, hsound, hleft⟩ := searching_reachable g root
  rw [List.append_nil] at hstart hsound hleft
  constructor
  · exact hsound region
  · intro hpath
    induction hpath with
    | refl => exact hstart
    | tail _ hlast ih => exact hleft _ ih _ hlast

theorem canReach_iff {source destination : String} :
    g.canReach source destination = true ↔ g.Path source destination := by
  rw [canReach, List.contains_iff_mem, mem_reachable_iff]

/-- More edges, and no region gets out of reach. -/
theorem canReach_mono {g' : Graph} (h : ∀ source destination, g.Leads source destination →
    g'.Leads source destination) {source destination : String}
    (hreach : g.canReach source destination = true) : g'.canReach source destination = true := by
  rw [canReach_iff] at hreach ⊢
  exact Relation.ReflTransGen.mono h _ _ hreach

end Passage.Graph
