import RangeFold.Graph.Attributes
import RangeFold.Quantization.Range

/-!
# Ranges as nodes

A quantization range is stored in a graph as the attributes of a node of its kind.
Reading it back asks for each part in declaration order.
-/

namespace RangeFold

variable {α : Type}

namespace QuantRange

/-- The attributes of a node with this range. -/
def toAttributes (range : QuantRange α) : Attributes α :=
  Attributes.ofList
    [("input_low", .tensor range.inputLow), ("input_high", .tensor range.inputHigh),
      ("output_low", .tensor range.outputLow), ("output_high", .tensor range.outputHigh),
      ("levels", .int range.levels)]

/-- The range stated by attributes; a missing part is reported in the node's name. -/
def ofAttributes (name : String) (attributes : Attributes α) : Except Failure (QuantRange α) := do
  let inputLow ← attributes.requireTensor name "input_low"
  let inputHigh ← attributes.requireTensor name "input_high"
  let outputLow ← attributes.requireTensor name "output_low"
  let outputHigh ← attributes.requireTensor name "output_high"
  let levels ← attributes.requireInt name "levels"
  return ⟨inputLow, inputHigh, outputLow, outputHigh, levels⟩

/-- The range of a quantization node. -/
def ofNode (node : Node α) : Except Failure (QuantRange α) :=
  if node.kind = .quantizeRange then ofAttributes node.name node.attributes
  else .error (.invalidNode (.notRange node.name node.kind))

/-- A range written to attributes is read back as it was. -/
theorem ofAttributes_toAttributes (name : String) (range : QuantRange α) :
    ofAttributes name range.toAttributes = .ok range := rfl

end QuantRange

end RangeFold
