import Passage.Table

/-!
# Reachability graphs

A graph keeps, for each region, the regions that it leads to, and all its edges in the order in
which they were found. Reachability is breadth-first: the search takes the front of the queue and
adds the destinations not found before behind it, so regions come in the order of their distance.
-/
namespace Passage

structure Graph where
  /-- The destinations of each region, in the order of discovery. -/
  nodes : Table (List String)
  /-- All edges, in the order of discovery. -/
  edges : List (String × String)
deriving DecidableEq

namespace Graph

def empty : Graph := ⟨.empty, []⟩

instance : Inhabited Graph := ⟨empty⟩

/-- The destinations of a region; a region without an entry leads nowhere. -/
def destinations (g : Graph) (source : String) : List String := (g.nodes.get? source).getD []

def addNode (g : Graph) (region : String) : Graph :=
  if g.nodes.contains region then g else { g with nodes := g.nodes.insert region [] }

def hasEdge (g : Graph) (source destination : String) : Bool :=
  (g.destinations source).contains destination

def addEdge (g : Graph) (source destination : String) : Graph :=
  if g.hasEdge source destination then g
  else
    { nodes := g.nodes.insert source (g.destinations source ++ [destination])
      edges := g.edges ++ [(source, destination)] }

def ofEdges (edges : List (String × String)) : Graph :=
  edges.foldl (fun g e => g.addEdge e.1 e.2) empty

/-- The members of a list that are not in `found`, each once. -/
def unseen (found : List String) : List String → List String
  | [] => []
  | x :: rest => if x ∈ found then unseen found rest else x :: unseen (x :: found) rest

/-- Visits the queue from its front, for at most the given number of visits; the result is what was
visited and then what is left of the queue. -/
def visit (g : Graph) : Nat → (visited queue : List String) → List String
  | 0, visited, queue => visited ++ queue
  | _ + 1, visited, [] => visited
  | visits + 1, visited, x :: queue =>
    g.visit visits (visited ++ [x])
      (queue ++ unseen (visited ++ x :: queue) (g.destinations x))

/-- How many regions a search can find at most: its root and every destination. -/
def reach (g : Graph) : Nat := (g.nodes.entries.flatMap Prod.snd).length + 1

/-- The regions that can be reached from a root, the root first, in breadth-first order. -/
def reachable (g : Graph) (root : String) : List String := g.visit g.reach [] [root]

def canReach (g : Graph) (source destination : String) : Bool :=
  (g.reachable source).contains destination

theorem mem_unseen {found list : List String} {x : String} :
    x ∈ unseen found list ↔ x ∈ list ∧ x ∉ found := by
  induction list generalizing found with
  | nil => simp [unseen]
  | cons y rest ih =>
    by_cases hy : y ∈ found
    · simp only [unseen, hy, if_true, ih, List.mem_cons]
      constructor
      · rintro ⟨hr, hf⟩; exact ⟨Or.inr hr, hf⟩
      · rintro ⟨rfl | hr, hf⟩
        · exact absurd hy hf
        · exact ⟨hr, hf⟩
    · simp only [unseen, hy, if_false, ih, List.mem_cons, not_or]
      by_cases hx : x = y
      · simp [hx, hy]
      · simp [hx]

theorem nodup_unseen (found list : List String) : (unseen found list).Nodup := by
  induction list generalizing found with
  | nil => simp [unseen]
  | cons y rest ih =>
    by_cases hy : y ∈ found
    · simpa [unseen, hy] using ih found
    · simp [unseen, hy, ih, mem_unseen]

theorem hasEdge_iff {g : Graph} {source destination : String} :
    g.hasEdge source destination = true ↔ destination ∈ g.destinations source := by
  simp [hasEdge]

theorem addEdge_of_hasEdge {g : Graph} {source destination : String}
    (h : g.hasEdge source destination = true) : g.addEdge source destination = g := by
  simp [addEdge, h]

/-- A new edge comes last among those of its source and leaves all others as they are. -/
theorem destinations_addEdge (g : Graph) (source destination other : String) :
    (g.addEdge source destination).destinations other =
      if other = source ∧ g.hasEdge source destination = false
      then g.destinations other ++ [destination] else g.destinations other := by
  by_cases h : g.hasEdge source destination = true
  · simp [addEdge, h]
  · have hf : g.hasEdge source destination = false := by simpa using h
    by_cases ho : other = source
    · subst ho
      simp [addEdge, hf, destinations]
    · simp [addEdge, hf, destinations, Table.get?_insert, ho]

/-- An entry without destinations changes no destination. -/
theorem destinations_addNode (g : Graph) (region other : String) :
    (g.addNode region).destinations other = g.destinations other := by
  unfold addNode
  split
  · rfl
  · rename_i h
    have hn : g.nodes.get? region = none := by
      cases hg : g.nodes.get? region with
      | none => rfl
      | some v => simp [Table.contains, hg] at h
    by_cases ho : other = region
    · subst ho
      simp [destinations, hn]
    · simp [destinations, Table.get?_insert, ho]

end Graph

end Passage
