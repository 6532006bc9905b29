import RangeFold.Graph.Query
import RangeFold.Readiness

/-!
# Topological order

Live nodes are listed producers first: a node waits for one supply at each of its
inputs, and supplies every input that reads it. Of the ready nodes the one with the
smallest place comes next, so a graph has one order. Nodes on or behind a cycle are
left out.
-/

namespace RangeFold

variable {α : Type}

namespace Graph

/-- At the start nodes without inputs are ready, and nothing waits at an empty place. -/
def initialReadiness (graph : Graph α) : Readiness where
  missing := graph.arena.map fun
    | some node => (node.inputs.length : Int)
    | none => 0
  ready := (graph.nodes.filter fun (_, node) => node.inputs.isEmpty).map Prod.fst

/-- The live nodes, producers before consumers and smaller places first. -/
def order (graph : Graph α) : List NodeId :=
  (Readiness.list (fun left right => decide (left ≤ right)) graph.readers
    graph.arena.length graph.initialReadiness).1

/-- The live nodes, consumers before producers. -/
def reverseOrder (graph : Graph α) : List NodeId := graph.order.reverse

end Graph

end RangeFold
