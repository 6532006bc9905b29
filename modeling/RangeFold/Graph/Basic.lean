import RangeFold.Failure

/-!
# Graphs

A graph is an arena of nodes together with the bookkeeping its edits maintain: an
index of names, the parameters and results in creation order, and the number of
live nodes. A removed node leaves an empty place behind, so a reference never
comes to mean another node.

An attribute can hold a whole graph, which makes attribute values, nodes and
graphs one mutual definition.
-/

namespace RangeFold

/-- A value a node produces, with the inputs that read it in wiring order. -/
structure OutputSlot where
  type : TensorType
  consumers : List Consumer
deriving DecidableEq

mutual

/-- The payload of an attribute. -/
inductive AttributeValue (α : Type) where
  | int (value : Int)
  | float (value : α)
  | ints (values : List Int)
  | shape (shape : Shape)
  | element (element : ElementType)
  | text (text : String)
  | tensor (tensor : Tensor α)
  | graph (graph : Graph α)

/-- Named attributes in the order in which their names were first given. -/
structure Attributes (α : Type) where
  entries : List (String × AttributeValue α)

/-- An operation with the values it reads and produces. -/
structure Node (α : Type) where
  kind : OpKind
  name : String
  inputs : List OutputRef
  outputs : List OutputSlot
  attributes : Attributes α

/-- Nodes by place, and the bookkeeping over the live ones. -/
structure Graph (α : Type) where
  arena : List (Option (Node α))
  names : List (String × NodeId)
  parameters : List NodeId
  results : List NodeId
  live : Nat

end

variable {α : Type}

namespace Node

/-- The number of inputs that read any output of the node. -/
def consumerCount (node : Node α) : Nat :=
  node.outputs.foldr (fun slot total => slot.consumers.length + total) 0

/-- All inputs that read the node, by output and then in wiring order. -/
def consumers (node : Node α) : List Consumer := node.outputs.flatMap OutputSlot.consumers

/-- The type of one output of a node. -/
def outputType (node : Node α) (slot : Nat) : Option TensorType :=
  (node.outputs[slot]?).map OutputSlot.type

/-- The types of all outputs. -/
def outputTypes (node : Node α) : List TensorType := node.outputs.map OutputSlot.type

end Node

namespace Graph

/-- The graph without nodes. -/
def empty : Graph α := ⟨[], [], [], [], 0⟩

instance : Inhabited (Graph α) := ⟨empty⟩

/-- The live node at a place. -/
def node (graph : Graph α) (id : NodeId) : Option (Node α) := (graph.arena[id]?).join

/-- The live node at a place, or the failure to find it. -/
def nodeAt (graph : Graph α) (id : NodeId) : Except Failure (Node α) :=
  match graph.node id with
  | some node => .ok node
  | none => .error (.deadNode id)

/-- The live nodes with their places, in increasing order. -/
def nodes (graph : Graph α) : List (NodeId × Node α) :=
  graph.arena.zipIdx.filterMap fun (entry, id) => entry.map fun node => (id, node)

/-- The places of the live nodes, in increasing order. -/
def nodeIds (graph : Graph α) : List NodeId := graph.nodes.map Prod.fst

/-- The node is live. -/
def contains (graph : Graph α) (id : NodeId) : Bool := (graph.node id).isSome

/-- The live node of a name. -/
def findName (graph : Graph α) (name : String) : Option NodeId := graph.names.lookup name

/-- The name of a node, or its place when it is gone. -/
def displayName (graph : Graph α) (id : NodeId) : String :=
  match graph.node id with
  | some node => node.name
  | none => nodeText id

/-- The type of a value, if its node is live and has that output. -/
def outputType (graph : Graph α) (source : OutputRef) : Option TensorType :=
  (graph.node source.node).bind fun node => node.outputType source.slot

end Graph

end RangeFold
