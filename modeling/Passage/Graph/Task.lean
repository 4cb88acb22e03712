import Passage.Graph

/-!
# Tasks for a graph

A graph is built, and asked about in between, by one task after another, each with its reply. The
source of an edge has an entry before the edge is looked for, and an edge that is there already is
not added again.
-/
namespace Passage.Graph

inductive Task where
  | addNode (region : String)
  | addEdge (source destination : String)
  | hasEdge (source destination : String)
  | reachable (root : String)
  | canReach (source destination : String)
deriving DecidableEq, Repr

inductive Reply where
  | done
  | truth (b : Bool)
  | regions (list : List String)
deriving DecidableEq, Repr

/-- Makes an entry for the source, and adds the destination to it unless it is there; says whether
it was added. -/
def link (g : Graph) (source destination : String) : Bool × Graph :=
  let entered := g.addNode source
  let known := entered.destinations source
  if destination ∈ known then (false, entered)
  else
    (true,
      { nodes := entered.nodes.insert source (known ++ [destination])
        edges := entered.edges ++ [(source, destination)] })

def perform (g : Graph) : Task → Reply × Graph
  | .addNode region => (.done, g.addNode region)
  | .addEdge source destination =>
    let (isNew, linked) := g.link source destination
    (.truth isNew, linked)
  | .hasEdge source destination => (.truth (g.hasEdge source destination), g)
  | .reachable root => (.regions (g.reachable root), g)
  | .canReach source destination => (.truth (g.canReach source destination), g)

/-- The graph that some tasks leave of a new one. -/
def built (tasks : List Task) : Graph := tasks.foldl (fun g task => (g.perform task).2) empty

end Passage.Graph
