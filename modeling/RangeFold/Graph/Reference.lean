import RangeFold.Tensor.ElementType
import RangeFold.Tensor.Shape

/-!
# References between nodes

Nodes are addressed by their place in a graph. An edge is known at both ends: an
input refers to the output it reads, and an output lists the inputs that read it.
-/

namespace RangeFold

/-- The place of a node in its graph. A place is never used twice. -/
abbrev NodeId := Nat

/-- A node's place as it stands in messages. -/
def nodeText (node : NodeId) : String := "#" ++ toString node

/-- One value that a node produces. -/
structure OutputRef where
  node : NodeId
  slot : Nat
deriving DecidableEq

/-- The first output of a node. -/
def OutputRef.first (node : NodeId) : OutputRef := ⟨node, 0⟩

/-- A source as it stands in messages: the node and, behind a colon, the slot. -/
def OutputRef.text (source : OutputRef) : String :=
  nodeText source.node ++ ":" ++ toString source.slot

/-- One input of a node, seen from the value it reads. -/
structure Consumer where
  node : NodeId
  input : Nat
deriving DecidableEq

/-- A consumer as it stands in messages: the node and, behind a colon, the input. -/
def Consumer.text (consumer : Consumer) : String :=
  "Consumer \x7b node: NodeId(" ++ toString consumer.node ++ "), input: " ++
    toString consumer.input ++ " \x7d"

/-- By node and then by input. -/
def Consumer.before (left right : Consumer) : Bool :=
  decide (left.node < right.node) ||
    (decide (left.node = right.node) && decide (left.input ≤ right.input))

/-- Element type and static shape of a value. -/
structure TensorType where
  element : ElementType
  shape : Shape
deriving DecidableEq

namespace TensorType

/-- The number of dimensions of a type. -/
def rank (type : TensorType) : Nat := type.shape.length

/-- A type as it stands in messages. -/
def text (type : TensorType) : String := type.element.text ++ listText type.shape

end TensorType

end RangeFold
