import RangeFold.Attempt
import RangeFold.Graph.Query
import RangeFold.Graph.Typing

/-!
# Edits

The elementary changes to a graph: linking and unlinking the two ends of an edge,
and adding, removing and renaming a node. Each keeps the consumer lists, the name
index, the parameter and result lists and the live count in step with the nodes.

An edit that is refused by its own checks makes none of its changes.
-/

namespace RangeFold

variable {α : Type}

namespace Graph

/-- Change the live node at a place. -/
def modifyNode (graph : Graph α) (id : NodeId) (change : Node α → Node α) : Graph α :=
  { graph with arena := graph.arena.modify id (Option.map change) }

/-- Change one output of a live node. -/
def modifySlot (graph : Graph α) (source : OutputRef) (change : OutputSlot → OutputSlot) :
    Graph α :=
  graph.modifyNode source.node fun node =>
    { node with outputs := node.outputs.modify source.slot change }

/-- The output a value stands for. -/
def slotAt (graph : Graph α) (source : OutputRef) : Except Failure OutputSlot := do
  let node ← graph.nodeAt source.node
  match node.outputs[source.slot]? with
  | some slot => .ok slot
  | none => .error (.internal (.outputOutOfRange source))

/-- The types of the values a node is to read; the first that is not live is refused
in the node's name. -/
def typesOf (graph : Graph α) (name : String) (sources : List OutputRef) :
    Except Failure (List TensorType) :=
  sources.mapM fun source =>
    match graph.outputType source with
    | some type => .ok type
    | none => .error (.typing name (.deadInput source))

/-- The live node at a place, as a step. -/
def getNode (id : NodeId) : Attempt (Graph α) (Node α) := fun graph => (graph.nodeAt id, graph)

/-- Enter a reader at the end of a value's consumers. -/
def link (source : OutputRef) (consumer : Consumer) : Attempt (Graph α) Unit := fun graph =>
  match graph.slotAt source with
  | .error failure => (.error failure, graph)
  | .ok _ =>
    (.ok (), graph.modifySlot source fun slot =>
      { slot with consumers := slot.consumers ++ [consumer] })

/-- Strike a reader from a value's consumers; the others keep their order. -/
def unlink (source : OutputRef) (consumer : Consumer) : Attempt (Graph α) Unit := fun graph =>
  match graph.slotAt source with
  | .error failure => (.error failure, graph)
  | .ok slot =>
    if slot.consumers.contains consumer then
      (.ok (), graph.modifySlot source fun slot =>
        { slot with consumers := slot.consumers.erase consumer })
    else (.error (.internal (.unlistedConsumer source consumer)), graph)

/-- The edges that a node at a place has by its inputs. -/
def inputEdges (id : NodeId) (inputs : List OutputRef) : List (OutputRef × Consumer) :=
  inputs.zipIdx.map fun (source, input) => (source, ⟨id, input⟩)

/-- Put a node at the next free place and enter it in the bookkeeping. -/
def append (graph : Graph α) (node : Node α) : Graph α :=
  let id := graph.arena.length
  { arena := graph.arena ++ [some node]
    names := graph.names ++ [(node.name, id)]
    parameters := if node.kind = .parameter then graph.parameters ++ [id] else graph.parameters
    results := if node.kind = .result then graph.results ++ [id] else graph.results
    live := graph.live + 1 }

/-- Add a node under a name that is still free, reading live values. Its output types
are inferred; its place is the next one. -/
def addNode [Arithmetic α] (kind : OpKind) (name : String) (inputs : List OutputRef)
    (attributes : Attributes α) : Attempt (Graph α) NodeId := do
  let graph ← Attempt.read
  if (graph.findName name).isSome then Attempt.fail (.nameTaken name)
  else
    let inputTypes ← Attempt.lift (graph.typesOf name inputs)
    let outputTypes ← Attempt.lift (inferOutputs kind name inputTypes attributes)
    let id := graph.arena.length
    Attempt.forEach (fun (source, consumer) => link source consumer) (inputEdges id inputs)
    Attempt.update fun graph =>
      graph.append ⟨kind, name, inputs, outputTypes.map fun type => ⟨type, []⟩, attributes⟩
    return id

/-- Add a graph entry of the given type. -/
def addParameter [Arithmetic α] (name : String) (element : ElementType) (shape : Shape) :
    Attempt (Graph α) NodeId :=
  addNode .parameter name []
    ((Attributes.empty.insert "shape" (.shape shape)).insert "element_type" (.element element))

/-- Add a compile-time value of the default element type. -/
def addConstant [Arithmetic α] (name : String) (value : Tensor α) : Attempt (Graph α) NodeId :=
  addNode .constant name [] (Attributes.empty.insert "value" (.tensor value))

/-- Add a graph exit. -/
def addResult [Arithmetic α] (name : String) (source : OutputRef) : Attempt (Graph α) NodeId :=
  addNode .result name [source] Attributes.empty

/-- Empty a place and strike its node from the bookkeeping. -/
def vacate (graph : Graph α) (id : NodeId) (name : String) : Graph α :=
  { arena := graph.arena.set id none
    names := graph.names.filter fun (key, _) => key ≠ name
    parameters := graph.parameters.filter (· ≠ id)
    results := graph.results.filter (· ≠ id)
    live := graph.live - 1 }

/-- Remove a node that nothing reads, and answer with it. -/
def removeNode (id : NodeId) : Attempt (Graph α) (Node α) := do
  let node ← getNode id
  if 0 < node.consumerCount then
    Attempt.fail (.stillConsumed node.name node.consumerCount)
  else
    Attempt.forEach (fun (source, consumer) => unlink source consumer) (inputEdges id node.inputs)
    let removed ← getNode id
    Attempt.update fun graph => graph.vacate id removed.name
    return removed

/-- Remove nodes one after the other; those before a refused one stay removed. -/
def removeEach : List NodeId → Attempt (Graph α) Unit :=
  Attempt.forEach fun id => do
    let _ ← removeNode id

/-- Give a node a name that is free or already its own. -/
def renameNode (id : NodeId) (name : String) : Attempt (Graph α) Unit := do
  let graph ← Attempt.read
  let node ← getNode id
  if node.name = name then return ()
  else if (graph.findName name).isSome then Attempt.fail (.nameTaken name)
  else
    Attempt.update fun graph =>
      { graph.modifyNode id fun node => { node with name := name } with
        names := (graph.names.filter fun (key, _) => key ≠ node.name) ++ [(name, id)] }

end Graph

end RangeFold
