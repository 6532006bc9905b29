import RangeFold.Graph.Pruning
import RangeFold.Graph.Rewiring

/-!
# Remembered orders

The order of a graph is computed when it is asked for and remembered until an edit forgets
it. Adding a node, moving an edge and removing a node forget the order when they are done.
A new name and new types keep it, because the order depends on neither.

The edits are those of the graph. They differ in nothing but the memory, which no edit looks
at.
-/

namespace RangeFold

variable {α β : Type}

/-- A graph with the order that was last computed, unless it has been forgotten. -/
structure OrderedGraph (α : Type) where
  graph : Graph α
  remembered : Option (List NodeId)

namespace OrderedGraph

/-- The graph without nodes, before anything is asked. -/
def empty : OrderedGraph α := ⟨.empty, none⟩

/-- A step on the graph that leaves the memory alone. -/
def onGraph (step : Attempt (Graph α) β) : Attempt (OrderedGraph α) β :=
  Attempt.within OrderedGraph.graph (fun state graph => { state with graph := graph }) step

/-- A step on the graph after which, if it succeeds, the order is forgotten. -/
def forgetting (step : Attempt (Graph α) β) : Attempt (OrderedGraph α) β := do
  let value ← onGraph step
  Attempt.update fun state => { state with remembered := none }
  return value

/-- The live nodes, producers before consumers: as remembered, or computed and remembered. -/
def order : Attempt (OrderedGraph α) (List NodeId) := fun state =>
  match state.remembered with
  | some order => (.ok order, state)
  | none => (.ok state.graph.order, { state with remembered := some state.graph.order })

/-- The live nodes, consumers before producers. -/
def reverseOrder : Attempt (OrderedGraph α) (List NodeId) := do
  let order ← order
  return order.reverse

/-- Add a node. A success forgets the order. -/
def addNode [Arithmetic α] (kind : OpKind) (name : String) (inputs : List OutputRef)
    (attributes : Attributes α) : Attempt (OrderedGraph α) NodeId :=
  forgetting (Graph.addNode kind name inputs attributes)

/-- Move one edge. A success forgets the order. -/
def rewire (consumer : Consumer) (source : OutputRef) : Attempt (OrderedGraph α) OutputRef :=
  forgetting (Graph.rewire consumer source)

/-- Move edges one after the other and answer, for each of them, where it came from. -/
def rewireAll : List (Consumer × OutputRef) →
    Attempt (OrderedGraph α) (List (Consumer × OutputRef))
  | [] => return []
  | (consumer, target) :: rest => do
    let previous ← rewire consumer target
    let undo ← rewireAll rest
    return (consumer, previous) :: undo

/-- Set one input of a node, with the checks and the undoing that this takes on the
bare graph. -/
def setInput [Arithmetic α] (id : NodeId) (input : Nat) (source : OutputRef) :
    Attempt (OrderedGraph α) Unit := do
  let graph ← onGraph Attempt.read
  let node ← onGraph (Graph.getNode id)
  if node.inputs.length ≤ input then
    Attempt.fail (.invalidNode (.missingInput node.name node.inputs.length input))
  else
    let _ ← Attempt.lift (graph.typesOf node.name [source])
    if graph.reaches id source.node then
      Attempt.fail (.typing node.name (.inputCycle input source))
    else
      let previous ← rewire ⟨id, input⟩ source
      (onGraph (Graph.retype [id])).orElse fun failure => do
        let _ ← rewire ⟨id, input⟩ previous
        Attempt.fail failure

/-- Remove a node that nobody reads. A success forgets the order. -/
def removeNode (id : NodeId) : Attempt (OrderedGraph α) (Node α) :=
  forgetting (Graph.removeNode id)

/-- Let a value take the place of a node, with the checks and the undoing that this
takes on the bare graph. -/
def replaceNode [Arithmetic α] (id : NodeId) (outputs : List OutputRef) :
    Attempt (OrderedGraph α) Unit := do
  let graph ← onGraph Attempt.read
  let node ← onGraph (Graph.getNode id)
  Attempt.lift (graph.checkReplacement id node outputs)
  let moves := Graph.replacementMoves node outputs
  let undo ← rewireAll moves
  (onGraph (Graph.retype (moves.map fun (consumer, _) => consumer.node))).orElse
    fun failure => do
      let _ ← rewireAll undo
      Attempt.fail failure
  if node.kind = .parameter then return ()
  else
    let _ ← removeNode id
    return ()

/-- Rename a node. The order does not depend on names, so it stays remembered. -/
def renameNode (id : NodeId) (name : String) : Attempt (OrderedGraph α) Unit :=
  onGraph (Graph.renameNode id name)

/-- Remove nodes one after the other, up to the first refusal. -/
def removeEach : List NodeId → Attempt (OrderedGraph α) Unit :=
  Attempt.forEach fun id => do
    let _ ← removeNode id

/-- Remove every node that is not needed, in the order that is remembered if there is one. -/
def prune : Attempt (OrderedGraph α) Nat := do
  let graph ← onGraph Attempt.read
  let order ← reverseOrder
  let dead := order.filter fun id => !graph.needed.contains id
  removeEach dead
  return dead.length

end OrderedGraph

end RangeFold
