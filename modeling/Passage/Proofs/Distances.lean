import Mathlib.Order.Lattice.Nat
import Passage.Proofs.Reachability

/-!
# Regions in the order of their distance

A search finds near regions before far ones. The queue is a layer of regions that are equally far
from the root, followed by those of the next layer that have been found so far (`Layered`). Visiting
the front of the queue moves a region over and finds only regions of the next layer; once a layer is
used up, everything that one edge more can reach has been found, so the next layer is complete. How
many visits were allowed does not matter, as long as they are enough.
-/
namespace Passage.Graph

variable {g : Graph} {root x y : String} {m n visits : Nat} {visited here next queue : List String}

/-! ## Ways and their lengths -/

/-- The region is reached from the root along so many edges. -/
inductive Walk (g : Graph) (root : String) : Nat → String → Prop
  | start : Walk g root 0 root
  | onward {n : Nat} {x y : String} : Walk g root n x → g.Leads x y → Walk g root (n + 1) y

/-- The number of edges on a shortest way from the root. -/
noncomputable def distance (g : Graph) (root region : String) : Nat :=
  sInf {n | g.Walk root n region}

/-- The region is reached from the root along at most so many edges. -/
def Within (g : Graph) (root : String) (n : Nat) (region : String) : Prop :=
  ∃ m ≤ n, g.Walk root m region

/-- Every bound on the way to the second region is one on the way to the first. -/
def NoFarther (g : Graph) (root x y : String) : Prop := ∀ n, g.Within root n y → g.Within root n x

theorem path_iff_walk : g.Path root x ↔ ∃ n, g.Walk root n x := by
  constructor
  · intro hpath
    induction hpath with
    | refl => exact ⟨0, .start⟩
    | tail _ hlast ih =>
      obtain ⟨n, hwalk⟩ := ih
      exact ⟨n + 1, hwalk.onward hlast⟩
  · intro ⟨n, hwalk⟩
    induction hwalk with
    | start => exact .refl
    | onward _ hlast ih => exact ih.tail hlast

theorem isLeast_distance (h : g.Path root x) :
    IsLeast {n | g.Walk root n x} (g.distance root x) := by
  have hwalks : {n | g.Walk root n x}.Nonempty := path_iff_walk.mp h
  exact ⟨Nat.sInf_mem hwalks, fun n hwalk => Nat.sInf_le hwalk⟩

theorem within_root (g : Graph) (root : String) (n : Nat) : g.Within root n root :=
  ⟨0, Nat.zero_le n, .start⟩

theorem Within.mono (h : g.Within root m x) (hle : m ≤ n) : g.Within root n x := by
  obtain ⟨k, hk, hwalk⟩ := h
  exact ⟨k, hk.trans hle, hwalk⟩

theorem Within.onward (h : g.Within root n x) (hleads : g.Leads x y) : g.Within root (n + 1) y := by
  obtain ⟨k, hk, hwalk⟩ := h
  exact ⟨k + 1, Nat.succ_le_succ hk, hwalk.onward hleads⟩

/-- A region other than the root is reached by way of one that is an edge nearer. -/
theorem Within.eq_root_or (h : g.Within root n y) :
    y = root ∨ ∃ k x, n = k + 1 ∧ g.Within root k x ∧ g.Leads x y := by
  obtain ⟨k, hk, hwalk⟩ := h
  cases hwalk with
  | start => exact .inl rfl
  | @onward k x _ hwalk hleads =>
    obtain ⟨n, rfl⟩ : ∃ lower, n = lower + 1 := ⟨n - 1, by omega⟩
    exact .inr ⟨n, x, rfl, ⟨k, by omega, hwalk⟩, hleads⟩

theorem NoFarther.distance_le (h : g.NoFarther root x y) (hpath : g.Path root y) :
    g.distance root x ≤ g.distance root y := by
  obtain ⟨m, hm, hwalk⟩ := h _ ⟨_, Nat.le_refl _, (isLeast_distance hpath).1⟩
  exact (Nat.sInf_le hwalk).trans hm

/-! ## Layers -/

/-- A search that is busy with the regions at one distance from the root. -/
structure Layered (g : Graph) (root : String) (n : Nat) (visited here next : List String) : Prop
    extends g.Searching root visited (here ++ next) where
  near : ∀ x, g.Within root n x ↔ x ∈ visited ++ here
  beyond : ∀ x ∈ next, g.Within root (n + 1) x
  order : (visited ++ (here ++ next)).Pairwise (g.NoFarther root)

theorem layered_start (g : Graph) (root : String) : g.Layered root 0 [] [root] [] where
  toSearching := g.searching_start root
  near := by
    intro x
    rw [List.nil_append, List.mem_singleton]
    constructor
    · intro h
      rcases h.eq_root_or with heq | ⟨k, _, hk, _⟩
      · exact heq
      · cases hk
    · rintro rfl
      exact g.within_root x 0
  beyond := by simp
  order := List.pairwise_singleton _ root

/-- When a layer is used up, the next one has been found completely. -/
theorem Layered.turn (h : g.Layered root n visited [] next) :
    g.Layered root (n + 1) visited next [] where
  toSearching := by
    rw [List.append_nil]
    exact h.toSearching
  near := by
    intro x
    constructor
    · intro hx
      rcases hx.eq_root_or with rfl | ⟨k, p, hk, hp, hleads⟩
      · exact h.start
      · cases hk
        have hvisited := (h.near p).mp hp
        rw [List.append_nil] at hvisited
        exact h.left p hvisited x hleads
    · intro hx
      rcases List.mem_append.mp hx with hvisited | hnext
      · exact ((h.near x).mpr (List.mem_append_left _ hvisited)).mono (Nat.le_succ n)
      · exact h.beyond x hnext
  beyond := by simp
  order := by
    rw [List.append_nil]
    exact h.order

theorem Layered.within_succ (h : g.Layered root n visited here next)
    (hx : x ∈ visited ++ (here ++ next)) : g.Within root (n + 1) x := by
  rw [← List.append_assoc] at hx
  rcases List.mem_append.mp hx with hnear | hnext
  · exact ((h.near x).mpr hnear).mono (Nat.le_succ n)
  · exact h.beyond x hnext

/-- What a visit finds belongs to the next layer. -/
theorem Layered.visit (h : g.Layered root n visited (x :: here) next) :
    g.Layered root n (visited ++ [x]) here
      (next ++ unseen (visited ++ x :: (here ++ next)) (g.destinations x)) := by
  have hfound : visited ++ [x] ++ (here ++ (next ++
      unseen (visited ++ x :: (here ++ next)) (g.destinations x))) =
      (visited ++ x :: (here ++ next)) ++ unseen (visited ++ x ::
        (here ++ next)) (g.destinations x) := by
    simp
  have hnew {y : String} (hy : y ∈ unseen (visited ++ x :: (here ++ next)) (g.destinations x)) :
      g.Within root (n + 1) y ∧ ¬g.Within root n y := by
    obtain ⟨hleads, hunseen⟩ := mem_unseen.mp hy
    refine ⟨((h.near x).mpr (by simp)).onward hleads, fun hwithin => hunseen ?_⟩
    have hnear := (h.near y).mp hwithin
    simp only [List.mem_append, List.mem_cons] at hnear ⊢
    rcases hnear with hy | hy | hy
    · exact .inl hy
    · exact .inr (.inl hy)
    · exact .inr (.inr (.inl hy))
  have hlast {a b : String} (ha : g.Within root (n + 1) a)
      (hb : b ∈ unseen (visited ++ x :: (here ++ next)) (g.destinations x)) : g.NoFarther
        root a b := by
    intro k hk
    have hlt : ¬k ≤ n := fun hle => (hnew hb).2 (hk.mono hle)
    exact ha.mono (by omega)
  constructor
  · rw [← List.append_assoc here]
    exact h.toSearching.visit
  · intro y
    rw [h.near y, List.append_assoc, List.singleton_append]
  · intro y hy
    rcases List.mem_append.mp hy with hold | hy
    · exact h.beyond y hold
    · exact (hnew hy).1
  · rw [hfound, List.pairwise_append]
    refine ⟨h.order, List.pairwise_of_forall_mem_list fun a ha b hb => hlast (hnew ha).1 hb, ?_⟩
    intro a ha b hb
    exact hlast (h.within_succ ha) hb

/-- A search whose queue is made of two layers, nearest first. -/
def Ranked (g : Graph) (root : String) (visited queue : List String) : Prop :=
  ∃ n here next, queue = here ++ next ∧ g.Layered root n visited here next

theorem Ranked.order (h : g.Ranked root visited queue) :
    (visited ++ queue).Pairwise (g.NoFarther root) := by
  obtain ⟨n, here, next, rfl, hlayered⟩ := h
  exact hlayered.order

theorem Ranked.visit (h : g.Ranked root visited (x :: queue)) :
    g.Ranked root (visited ++ [x]) (queue ++
      unseen (visited ++ x :: queue) (g.destinations x)) := by
  -- The front of the queue is in the current layer, or this layer is used up and the next one
  -- begins.
  have hfront : ∃ n here next, queue = here ++ next ∧
      g.Layered root n visited (x :: here) next := by
    obtain ⟨n, here, next, hqueue, hlayered⟩ := h
    cases here with
    | nil =>
      cases hqueue
      exact ⟨n + 1, queue, [], (List.append_nil queue).symm, hlayered.turn⟩
    | cons front here =>
      cases hqueue
      exact ⟨n, here, next, rfl, hlayered⟩
  obtain ⟨n, here, next, rfl, hlayered⟩ := hfront
  exact ⟨n, here, _, List.append_assoc here next _, hlayered.visit⟩

/-- However many visits are allowed, what they find is in order. -/
theorem Ranked.run (h : g.Ranked root visited queue) :
    (g.visit visits visited queue).Pairwise (g.NoFarther root) := by
  induction visits generalizing visited queue with
  | zero => exact h.order
  | succ visits ih =>
    cases queue with
    | nil =>
      have horder := h.order
      rwa [List.append_nil] at horder
    | cons x queue => exact ih h.visit

/-! ## The whole search -/

/-- What has been found stays in front. -/
theorem prefix_visit (g : Graph) (visits : Nat) (visited queue : List String) :
    visited ++ queue <+: g.visit visits visited queue := by
  induction visits generalizing visited queue with
  | zero => exact List.prefix_refl _
  | succ visits ih =>
    cases queue with
    | nil => exact (List.append_nil visited).symm ▸ List.prefix_refl visited
    | cons x queue =>
      have hrest := ih (visited ++ [x]) (queue ++ unseen (visited ++ x :: queue) (g.destinations x))
      rw [← List.append_assoc, List.append_assoc visited, List.singleton_append] at hrest
      exact (List.prefix_append _ _).trans hrest

/-- Once the visits are enough, more of them make no difference. -/
theorem Searching.visit_eq {more : Nat} (h : g.Searching root visited queue)
    (hvisits : g.reach ≤ visits + visited.length) (hle : visits ≤ more) :
    g.visit more visited queue = g.visit visits visited queue := by
  induction visits generalizing more visited queue with
  | zero =>
    rw [h.queue_eq_nil (by omega)]
    cases more with
    | zero => rfl
    | succ more => exact (List.append_nil visited).symm
  | succ visits ih =>
    obtain ⟨more, rfl⟩ : ∃ lower, more = lower + 1 := ⟨more - 1, by omega⟩
    cases queue with
    | nil => rfl
    | cons x queue =>
      refine ih h.visit ?_ (by omega)
      rw [List.length_append, List.length_singleton]
      omega

theorem pairwise_distance (g : Graph) (root : String) :
    ((g.reachable root).map (g.distance root)).Pairwise (· ≤ ·) := by
  have horder : (g.reachable root).Pairwise (g.NoFarther root) :=
    Ranked.run ⟨0, [root], [], rfl, g.layered_start root⟩
  rw [List.pairwise_map]
  refine horder.imp_of_mem fun {x y} _ hy hxy => hxy.distance_le ?_
  exact mem_reachable_iff.mp hy

theorem exists_reachable_eq_cons (g : Graph) (root : String) :
    ∃ others, g.reachable root = root :: others := by
  obtain ⟨others, hothers⟩ := g.prefix_visit g.reach [] [root]
  exact ⟨others, hothers.symm⟩

/-- A search is exact. It comes to its end by itself, and more visits than it is allowed would
change nothing. It lists its root first and every region once, exactly those to which a way leads
from the root, and none of them behind a region that is farther away. So a region can be reached
from another one exactly if a way leads there; every region can be reached from itself, and a region
that can be reached from one within reach is within reach. -/
theorem search_exact (g : Graph) (root : String) :
    (∀ visits, g.reach ≤ visits → g.visit visits [] [root] = g.reachable root) ∧
    (∃ others, g.reachable root = root :: others) ∧ (g.reachable root).Nodup ∧
    (∀ region, region ∈ g.reachable root ↔ ∃ n, g.Walk root n region) ∧
    (∀ region ∈ g.reachable root, IsLeast {n | g.Walk root n region} (g.distance root region)) ∧
    ((g.reachable root).map (g.distance root)).Pairwise (· ≤ ·) ∧
    (∀ source destination, g.canReach source destination = true ↔
      ∃ n, g.Walk source n destination) ∧
    (∀ region, g.canReach region region = true) ∧
    ∀ source middle destination, g.canReach source middle = true →
      g.canReach middle destination = true → g.canReach source destination = true := by
  have hfound := g.searching_reachable root
  refine ⟨?_, g.exists_reachable_eq_cons root, ?_, ?_, ?_, g.pairwise_distance root, ?_, ?_, ?_⟩
  · intro visits hvisits
    exact (g.searching_start root).visit_eq (Nat.le_refl g.reach) hvisits
  · have honce := hfound.once
    rwa [List.append_nil] at honce
  · intro region
    rw [mem_reachable_iff, path_iff_walk]
  · intro region hregion
    exact isLeast_distance (mem_reachable_iff.mp hregion)
  · intro source destination
    rw [canReach_iff, path_iff_walk]
  · intro region
    exact canReach_iff.mpr .refl
  · intro source middle destination hfirst hsecond
    exact canReach_iff.mpr ((canReach_iff.mp hfirst).trans (canReach_iff.mp hsecond))

/-- A way round, a region that leads to itself, and two without an entry. A hundred visits find no
more than the search does. -/
theorem search_exact_way_round :
    let g : Graph := ⟨.ofList [("yard", ["yard", "hall", "gate"]), ("hall", ["tower", "yard"]),
      ("gate", ["tower", "hall", "moat"])], []⟩
    g.reachable "yard" = ["yard", "hall", "gate", "tower", "moat"] ∧
    g.visit 100 [] ["yard"] = g.reachable "yard" ∧
    ((g.reachable "yard").map (g.distance "yard")).Pairwise (· ≤ ·) ∧
    IsLeast {n | g.Walk "yard" n "tower"} (g.distance "yard" "tower") ∧
    g.canReach "hall" "moat" = true := by
  intro g
  have hlist : g.reachable "yard" = ["yard", "hall", "gate", "tower", "moat"] := by decide
  obtain ⟨hmore, -, -, -, hleast, horder, -, -, htrans⟩ := search_exact g "yard"
  refine ⟨hlist, hmore 100 (by decide), horder, hleast "tower" ?_, ?_⟩
  · rw [hlist]
    decide
  · exact htrans "hall" "yard" "moat" (by decide) (by decide)

end Passage.Graph
