import RangeFold.Graph.Query

/-!
# Reachability

Which nodes depend on a node, and on which nodes a node depends. Both are closures
of a neighbour relation, computed by one search that expands each place once.
-/

namespace RangeFold

/-- Add to `seen` everything that the waiting places reach. A place already seen is
not expanded again, so the places ever waiting number at most the initial ones and
one for each neighbour of each place; `budget` counts them down. -/
def closure (next : NodeId → List NodeId) : Nat → List NodeId → List NodeId → List NodeId
  | _, [], seen => seen
  | 0, _ :: _, seen => seen
  | budget + 1, place :: waiting, seen =>
    if seen.contains place then closure next budget waiting seen
    else closure next budget (next place ++ waiting) (place :: seen)

variable {α : Type}

namespace Graph

/-- The nodes that a node reads. -/
def feeders (graph : Graph α) (id : NodeId) : List NodeId :=
  match graph.node id with
  | some node => node.inputs.map OutputRef.node
  | none => []

/-- The number of inputs in the whole graph. -/
def inputCount (graph : Graph α) : Nat :=
  graph.nodes.foldr (fun (_, node) total => node.inputs.length + total) 0

/-- The nodes that a node feeds directly or through others, and the node itself. -/
def dependents (graph : Graph α) (id : NodeId) : List NodeId :=
  closure graph.readers (graph.edgeCount + 1) [id] []

/-- The nodes that feed any of the given ones, and those themselves. -/
def dependencies (graph : Graph α) (ids : List NodeId) : List NodeId :=
  closure graph.feeders (graph.inputCount + ids.length) ids []

/-- A value of the first node flows into the second. Every node reaches itself. -/
def reaches (graph : Graph α) (start goal : NodeId) : Bool :=
  start == goal || (graph.dependents start).contains goal

end Graph

end RangeFold
