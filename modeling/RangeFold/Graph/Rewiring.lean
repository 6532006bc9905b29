import RangeFold.Graph.Reachability
import RangeFold.Graph.Retyping

/-!
# Rewiring

Pointing inputs at other values. A rewiring is refused if it would close a cycle or
if some node downstream no longer types. In the second case the edges have already
moved and are moved back, each of them to the end of its old value's consumers.
-/

namespace RangeFold

variable {α : Type}

namespace Graph

/-- Move one edge and answer with the value it came from. -/
def rewire (consumer : Consumer) (source : OutputRef) : Attempt (Graph α) OutputRef := do
  let node ← getNode consumer.node
  match node.inputs[consumer.input]? with
  | none => Attempt.fail (.internal (.missingInput consumer.node consumer.input))
  | some previous =>
    unlink previous consumer
    link source consumer
    Attempt.update fun graph =>
      graph.modifyNode consumer.node fun node =>
        { node with inputs := node.inputs.set consumer.input source }
    return previous

/-- Point one input at another live value that does not depend on the node. -/
def setInput [Arithmetic α] (id : NodeId) (input : Nat) (source : OutputRef) :
    Attempt (Graph α) Unit := do
  let graph ← Attempt.read
  let node ← getNode id
  if node.inputs.length ≤ input then
    Attempt.fail (.invalidNode (.missingInput node.name node.inputs.length input))
  else
    let _ ← Attempt.lift (graph.typesOf node.name [source])
    if graph.reaches id source.node then
      Attempt.fail (.typing node.name (.inputCycle input source))
    else
      let previous ← rewire ⟨id, input⟩ source
      (retype [id]).orElse fun failure => do
        let _ ← rewire ⟨id, input⟩ previous
        Attempt.fail failure

/-- The moves that put the outputs of a node behind new values, by output and then in
wiring order. -/
def replacementMoves (node : Node α) (outputs : List OutputRef) : List (Consumer × OutputRef) :=
  (node.outputs.zip outputs).flatMap fun (slot, target) =>
    slot.consumers.map fun consumer => (consumer, target)

/-- Make all moves in turn and answer with the moves that undo them. -/
def rewireAll : List (Consumer × OutputRef) → Attempt (Graph α) (List (Consumer × OutputRef))
  | [] => return []
  | (consumer, target) :: rest => do
    let previous ← rewire consumer target
    let undo ← rewireAll rest
    return (consumer, previous) :: undo

/-- The first move onto a value that depends on the moved reader. -/
def closingMove (graph : Graph α) (moves : List (Consumer × OutputRef)) :
    Option (Consumer × OutputRef) :=
  moves.find? fun (consumer, target) => graph.reaches consumer.node target.node

/-- The checks on a replacement that look at the node alone. -/
def checkReplacement (graph : Graph α) (id : NodeId) (node : Node α) (outputs : List OutputRef) :
    Except Failure Unit := do
  if node.kind = .result then throw (.invalidNode (.replacedResult node.name))
  if node.outputs.length ≠ outputs.length then
    throw (.arity node.name node.outputs.length outputs.length)
  if outputs.any fun output => output.node = id then
    throw (.invalidNode (.replacedByItself node.name))
  let _ ← graph.typesOf node.name outputs
  match graph.closingMove (replacementMoves node outputs) with
  | some (consumer, target) =>
    throw (.typing (graph.displayName consumer.node) (.replacementCycle target))
  | none => return ()

/-- Put new values behind everything that reads a node. The readers keep their order,
after those the new values had before. The node itself is then removed, unless it is a
graph parameter. -/
def replaceNode [Arithmetic α] (id : NodeId) (outputs : List OutputRef) :
    Attempt (Graph α) Unit := do
  let graph ← Attempt.read
  let node ← getNode id
  Attempt.lift (graph.checkReplacement id node outputs)
  let moves := replacementMoves node outputs
  let undo ← rewireAll moves
  (retype (moves.map fun (consumer, _) => consumer.node)).orElse fun failure => do
    let _ ← rewireAll undo
    Attempt.fail failure
  if node.kind = .parameter then return ()
  else
    let _ ← removeNode id
    return ()

end Graph

end RangeFold
