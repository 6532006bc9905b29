import RangeFold.Graph.Attributes

/-!
# Queries

What can be read off a graph without changing it: who reads and who produces a
value, which nodes have a kind, what a constant holds, and which names are free.
A question about a dead place has the answer of a node without edges.
-/

namespace RangeFold

variable {α : Type}

namespace Graph

/-- The inputs that read a value, in wiring order. -/
def consumers (graph : Graph α) (source : OutputRef) : List Consumer :=
  match (graph.node source.node).bind fun node => node.outputs[source.slot]? with
  | some slot => slot.consumers
  | none => []

/-- The number of inputs that read any output of a node. -/
def consumerCount (graph : Graph α) (id : NodeId) : Nat :=
  match graph.node id with
  | some node => node.consumerCount
  | none => 0

/-- Exactly one input reads the node. -/
def isSingleUse (graph : Graph α) (id : NodeId) : Bool := graph.consumerCount id == 1

/-- No input reads the node. -/
def isUnused (graph : Graph α) (id : NodeId) : Bool := graph.consumerCount id == 0

/-- The only input that reads a node, if there is just one. -/
def soleConsumer (graph : Graph α) (id : NodeId) : Option Consumer :=
  match graph.node id with
  | some node => if node.consumerCount = 1 then node.consumers.head? else none
  | none => none

/-- The nodes that read a node, one entry for each input that does. -/
def readers (graph : Graph α) (id : NodeId) : List NodeId :=
  match graph.node id with
  | some node => node.consumers.map Consumer.node
  | none => []

/-- The place of the node that an input reads. -/
def producer (graph : Graph α) (id : NodeId) (input : Nat) : Option NodeId :=
  ((graph.node id).bind fun node => node.inputs[input]?).map OutputRef.node

/-- The live node that an input reads, with its place. -/
def producerNode (graph : Graph α) (id : NodeId) (input : Nat) : Option (NodeId × Node α) :=
  (graph.producer id input).bind fun source => (graph.node source).map fun node => (source, node)

/-- The live nodes of any of the given kinds, in increasing order. -/
def findKinds (graph : Graph α) (kinds : List OpKind) : List NodeId :=
  (graph.nodes.filter fun (_, node) => kinds.contains node.kind).map Prod.fst

/-- Some live node has the kind. -/
def hasKind (graph : Graph α) (kind : OpKind) : Bool :=
  graph.nodes.any fun (_, node) => node.kind == kind

/-- The tensor a constant holds. -/
def constantValue (graph : Graph α) (id : NodeId) : Option (Tensor α) :=
  (graph.node id).bind fun node =>
    if node.kind = .constant then node.attributes.tensor "value" else none

/-- The values that the results pass on. -/
def resultOutputs (graph : Graph α) : List OutputRef :=
  graph.results.filterMap fun id => (graph.node id).bind fun node => node.inputs[0]?

/-- A base name with a number. -/
def numberedName (base : String) (number : Nat) : String := base ++ "_" ++ toString number

/-- The base name if it is free, otherwise the base with the least positive number
that makes it free. Among one more number than there are names, one is free. -/
def uniqueName (graph : Graph α) (base : String) : String :=
  if (graph.findName base).isNone then base
  else
    let candidates := (List.range (graph.names.length + 1)).map fun index =>
      numberedName base (index + 1)
    (candidates.find? fun name => (graph.findName name).isNone).getD base

/-- Every edge, seen from its reading end, by reading node and input. -/
def edges (graph : Graph α) : List (OutputRef × Consumer) :=
  graph.nodes.flatMap fun (id, node) =>
    node.inputs.zipIdx.map fun (source, input) => (source, ⟨id, input⟩)

/-- Insert a value into a list ordered by node and output, without repetition. -/
def insertSource (source : OutputRef) : List OutputRef → List OutputRef
  | [] => [source]
  | head :: rest =>
    if source = head then head :: rest
    else if source.node < head.node ∨ (source.node = head.node ∧ source.slot < head.slot) then
      source :: head :: rest
    else head :: insertSource source rest

/-- Who reads what, told from the input lists alone: the values that are read, by
node and output, each with its readers by node and input. -/
def consumerIndex (graph : Graph α) : List (OutputRef × List Consumer) :=
  let edges := graph.edges
  let sources := edges.foldl (fun sources (source, _) => insertSource source sources) []
  sources.map fun source =>
    (source, (edges.filter fun (read, _) => read = source).map Prod.snd)

/-- The number of consumer entries in the whole graph. -/
def edgeCount (graph : Graph α) : Nat :=
  graph.nodes.foldr (fun (_, node) total => node.consumerCount + total) 0

end Graph

end RangeFold
