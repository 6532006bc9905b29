import RangeFold.Graph.Order
import RangeFold.Graph.Edit

/-!
# Soundness checks

A graph is sound when its bookkeeping says what its nodes say: inputs read live
values, consumer lists are the input lists seen from the other end, the name index
lists the live nodes, no node depends on itself and the stored types are the ones
that inference yields. The check recomputes each of these from the nodes.
-/

namespace RangeFold

variable {α : Type}

namespace Graph

/-- Every input names an output that is there. -/
def checkInputs (graph : Graph α) : Except Failure Unit :=
  graph.nodes.forM fun (_, node) =>
    node.inputs.zipIdx.forM fun (source, input) =>
      match graph.outputType source with
      | some _ => .ok ()
      | none => .error (.typing node.name (.deadReference input source))

/-- Insert a consumer into a list ordered by node and input. -/
def insertConsumer (consumer : Consumer) : List Consumer → List Consumer
  | [] => [consumer]
  | head :: rest =>
    if consumer.before head then consumer :: head :: rest else head :: insertConsumer consumer rest

/-- Consumer lists agree with the input lists, without regard to their order. -/
def checkConsumers (graph : Graph α) : Except Failure Unit :=
  let index := graph.consumerIndex
  graph.nodes.forM fun (id, node) =>
    node.outputs.zipIdx.forM fun (output, slot) =>
      let listed := output.consumers.foldr insertConsumer []
      let read := (index.lookup ⟨id, slot⟩).getD []
      if listed = read then .ok ()
      else .error (.internal (.consumerMismatch node.name slot listed read))

/-- The name index and the live nodes agree, in both directions. -/
def checkNames (graph : Graph α) : Except Failure Unit :=
  if graph.names.length ≠ graph.live then
    .error (.internal (.nameCount graph.names.length graph.live))
  else
    graph.nodes.forM fun (id, node) =>
      if graph.findName node.name = some id then .ok ()
      else .error (.internal (.unindexedName node.name id))

/-- The order of the graph holds every live node. Nodes on a circle, and those
behind one, never come up. -/
def checkAcyclic (graph : Graph α) : Except Failure Unit :=
  if graph.order.length = graph.live then .ok ()
  else .error (.internal (.cyclic graph.order.length graph.live))

/-- Every live node infers the types that it carries. -/
def checkTypes [Arithmetic α] (graph : Graph α) : Except Failure Unit :=
  graph.nodes.forM fun (_, node) => do
    let inputs := node.inputs.filterMap graph.outputType
    let types ← inferOutputs node.kind node.name inputs node.attributes
    if types ≠ node.outputTypes then throw (.typing node.name .staleTypes)

/-- All checks, in the order in which later ones rely on earlier ones. -/
def check [Arithmetic α] (graph : Graph α) : Except Failure Unit := do
  graph.checkInputs
  graph.checkConsumers
  graph.checkNames
  graph.checkAcyclic
  graph.checkTypes

end Graph

end RangeFold
