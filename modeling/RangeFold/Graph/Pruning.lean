import RangeFold.Graph.Edit
import RangeFold.Graph.Order
import RangeFold.Graph.Reachability

/-!
# Pruning

Removing what no result depends on. Parameters stay whether or not they are read,
because they are part of the graph's interface. Removal runs from consumers to
producers, so that each node has lost its readers when its turn comes.
-/

namespace RangeFold

variable {α : Type}

namespace Graph

/-- The results, the parameters and everything they depend on. -/
def needed (graph : Graph α) : List NodeId :=
  graph.dependencies (graph.results ++ graph.parameters)

/-- The live nodes that are not needed, consumers first. -/
def unneeded (graph : Graph α) : List NodeId :=
  let needed := graph.needed
  graph.reverseOrder.filter fun id => !needed.contains id

/-- Remove every node that is not needed and answer with their number. -/
def prune : Attempt (Graph α) Nat := do
  let graph ← Attempt.read
  let dead := graph.unneeded
  removeEach dead
  return dead.length

end Graph

end RangeFold
