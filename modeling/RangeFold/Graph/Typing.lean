import RangeFold.Graph.Attributes
import RangeFold.Quantization.Range

/-!
# Typing

Every operation kind has one rule, which checks the types of the inputs and the
attributes and yields the types of the outputs. A rule reports the first thing
that is wrong in a fixed order: the number of inputs, then what it reads, then how
the parts fit together. Every kind has exactly one output.
-/

namespace RangeFold

namespace Typing

variable {α : Type}

/-- What a rule sees: the node's kind and name, its attributes and input types. -/
structure Site (α : Type) where
  kind : OpKind
  name : String
  inputs : List TensorType
  attributes : Attributes α

namespace Site

/-- Find fault with the node of the site. -/
def fail {β : Type} (site : Site α) (fault : TypingFault) : Except Failure β :=
  .error (.typing site.name fault)

/-- A fixed number of inputs. -/
def expectInputs (site : Site α) (expected : Nat) : Except Failure Unit :=
  if site.inputs.length = expected then .ok ()
  else site.fail (.inputCount site.kind expected site.inputs.length)

/-- Both operands have one element type. -/
def expectSameElement (site : Site α) (left right : TensorType) : Except Failure Unit :=
  if left.element = right.element then .ok ()
  else site.fail (.elementsDiffer left.element right.element)

/-- The only input of an operation that has one. -/
def soleInput (site : Site α) : Except Failure TensorType :=
  match site.inputs with
  | [input] => .ok input
  | _ => site.fail (.inputCount site.kind 1 site.inputs.length)

/-- The operands of an operation that has two. -/
def bothInputs (site : Site α) : Except Failure (TensorType × TensorType) :=
  match site.inputs with
  | [left, right] => .ok (left, right)
  | _ => site.fail (.inputCount site.kind 2 site.inputs.length)

/-- An attribute that is only accepted at one type and otherwise counts as missing. -/
def present {β : Type} (site : Site α) (name : String) (value : Option β) : Except Failure β :=
  match value with
  | some value => .ok value
  | none => .error (.invalidAttribute site.name name .missing)

/-- The stated element type, or the default one. -/
def statedElement (site : Site α) : ElementType :=
  (site.attributes.element "element_type").getD default

end Site

/-- A parameter has the type its attributes state. -/
def parameterType (site : Site α) : Except Failure TensorType := do
  site.expectInputs 0
  let shape ← site.present "shape" (site.attributes.shape "shape")
  return ⟨site.statedElement, shape⟩

/-- A constant has the shape of its value. -/
def constantType (site : Site α) : Except Failure TensorType := do
  site.expectInputs 0
  let value ← site.attributes.requireTensor site.name "value"
  return ⟨site.statedElement, value.shape⟩

/-- A conversion changes the element type only. -/
def convertType (site : Site α) : Except Failure TensorType := do
  let input ← site.soleInput
  let element ← site.present "destination_type" (site.attributes.element "destination_type")
  return ⟨element, input.shape⟩

/-- The limits of a clamp must not be crossed; limits without an order pass. -/
def clampType [Arithmetic α] (site : Site α) : Except Failure TensorType := do
  let input ← site.soleInput
  let least ← site.attributes.requireFloat site.name "min"
  let greatest ← site.attributes.requireFloat site.name "max"
  if Arithmetic.lt greatest least then
    throw (.invalidAttribute site.name "min"
      (.crossedLimits (Arithmetic.text least) (Arithmetic.text greatest)))
  return input

/-- A reshape has the element type of its input and the shape that its target is
read as. -/
def reshapeType (site : Site α) : Except Failure TensorType := do
  let input ← site.soleInput
  let target ← site.attributes.requireInts site.name "shape"
  match resolveReshape input.shape target with
  | .ok shape => return ⟨input.element, shape⟩
  | .error fault => site.fail (.reshape fault)

/-- A transpose has the element type of its input and its dimensions in the order of
the stated axes. -/
def transposeType (site : Site α) : Except Failure TensorType := do
  let input ← site.soleInput
  let axes ← site.attributes.requireInts site.name "perm"
  match permutationOf axes input.rank with
  | .ok positions => return ⟨input.element, positions.map fun axis => input.shape.getD axis 0⟩
  | .error fault => site.fail (.permutation fault)

/-- The dimensions of a shape at the positions not listed. -/
def dimsWithout (shape : Shape) (positions : List Nat) : Shape :=
  (shape.zipIdx.filter fun (_, position) => !positions.contains position).map Prod.fst

/-- Squeezing drops the listed axes, all of which must have size 1; without a list it
drops every dimension of 1. -/
def squeezeType (site : Site α) : Except Failure TensorType := do
  let input ← site.soleInput
  match site.attributes.ints "axes" with
  | none => return ⟨input.element, input.shape.filter (· ≠ 1)⟩
  | some axes =>
    match axisPositions axes input.rank with
    | none => site.fail (.axesOutOfRange axes)
    | some positions =>
      match positions.find? fun axis => input.shape.getD axis 1 ≠ 1 with
      | some axis => site.fail (.squeezedDim axis (input.shape.getD axis 1))
      | none => return ⟨input.element, dimsWithout input.shape positions⟩

/-- Put dimensions of 1 at the listed positions of a result of the given rank and the
given dimensions, in order, at all others. -/
def spreadDims (positions : List Nat) : Nat → Nat → Shape → Shape
  | _, 0, _ => []
  | position, remaining + 1, dims =>
    if positions.contains position then 1 :: spreadDims positions (position + 1) remaining dims
    else
      match dims with
      | [] => 1 :: spreadDims positions (position + 1) remaining []
      | dim :: rest => dim :: spreadDims positions (position + 1) remaining rest

/-- Two equal neighbours in a sorted list. -/
def hasRepeat : List Nat → Bool
  | first :: second :: rest => decide (first = second) || hasRepeat (second :: rest)
  | _ => false

/-- Insert a number into an increasing list. -/
def insertSorted (value : Nat) : List Nat → List Nat
  | [] => [value]
  | head :: rest => if value ≤ head then value :: head :: rest else head :: insertSorted value rest

/-- The numbers in increasing order. -/
def sorted (values : List Nat) : List Nat := values.foldr insertSorted []

/-- Unsqueezing places dimensions of 1 at distinct positions of the result. -/
def unsqueezeType (site : Site α) : Except Failure TensorType := do
  let input ← site.soleInput
  let axes ← site.attributes.requireInts site.name "axes"
  let rank := input.rank + axes.length
  match axisPositions axes rank with
  | none => site.fail (.axesOutOfRange axes)
  | some unordered =>
    let positions := sorted unordered
    if hasRepeat positions then site.fail (.duplicateAxes positions)
    else return ⟨input.element, spreadDims positions 0 rank input.shape⟩

/-- The broadcasting elementwise operations. -/
def elementwiseType (site : Site α) : Except Failure TensorType := do
  let (left, right) ← site.bothInputs
  site.expectSameElement left right
  match left.shape.broadcast right.shape with
  | some shape => return ⟨left.element, shape⟩
  | none => site.fail (.notBroadcastable left.shape right.shape)

/-- Matrix multiplication over the last two dimensions; those before them broadcast. -/
def matMulType (site : Site α) : Except Failure TensorType := do
  let (left, right) ← site.bothInputs
  site.expectSameElement left right
  match left.shape.reverse, right.shape.reverse with
  | leftInner :: rows :: leftBatch, columns :: rightInner :: rightBatch =>
    if leftInner ≠ rightInner then site.fail (.innerDims leftInner rightInner)
    else
      match Shape.broadcast leftBatch.reverse rightBatch.reverse with
      | some batch => return ⟨left.element, batch ++ [rows, columns]⟩
      | none => site.fail .batchDims
  | _, _ => site.fail (.matMulRank left.rank right.rank)

/-- Shapes that agree everywhere but along one axis. -/
def agreeBut (axis : Nat) (left right : Shape) : Bool :=
  left.length == right.length &&
    (left.zip right).zipIdx.all fun ((leftDim, rightDim), position) =>
      decide (position = axis) || decide (leftDim = rightDim)

/-- Add the sizes of further inputs along the axis, each checked against the first. -/
def concatDim (site : Site α) (first : TensorType) (axis : Nat) :
    Nat → List TensorType → Except Failure Nat
  | total, [] => .ok total
  | total, other :: rest => do
    site.expectSameElement first other
    if agreeBut axis first.shape other.shape then
      concatDim site first axis (total + other.shape.getD axis 0) rest
    else site.fail (.concatShapes first.shape other.shape axis)

/-- A concatenation adds up the dimensions along its axis; all others have to agree. -/
def concatType (site : Site α) : Except Failure TensorType :=
  match site.inputs with
  | [] => site.fail .emptyConcat
  | first :: rest => do
    let axis ← site.attributes.requireInt site.name "axis"
    match axisPosition axis first.rank with
    | none => site.fail (.axisOutOfRange axis)
    | some position =>
      let total ← concatDim site first position (first.shape.getD position 0) rest
      return ⟨first.element, first.shape.set position total⟩

/-- Each named bound is a tensor that fits the input. -/
def checkBounds (site : Site α) (input : Shape) : List String → Except Failure Unit
  | [] => .ok ()
  | bound :: rest => do
    let value ← site.attributes.requireTensor site.name bound
    if value.shape.fits input then checkBounds site input rest
    else site.fail (.boundBeyondInput bound value.shape input)

/-- A quantization range keeps the type of its floating input. The order of the
bounds and the number of levels are not a matter of typing. -/
def rangeType (site : Site α) : Except Failure TensorType := do
  let input ← site.soleInput
  if !input.element.isFloat then site.fail (.floatExpected input.element)
  else
    checkBounds site input.shape QuantRange.boundNames
    let _ ← site.attributes.requireInt site.name "levels"
    return input

/-- The type of the one output. -/
def outputType [Arithmetic α] (site : Site α) : Except Failure TensorType :=
  match site.kind with
  | .parameter => parameterType site
  | .constant => constantType site
  | .result | .identity | .relu => site.soleInput
  | .convert => convertType site
  | .clamp => clampType site
  | .reshape => reshapeType site
  | .transpose => transposeType site
  | .squeeze => squeezeType site
  | .unsqueeze => unsqueezeType site
  | .add | .subtract | .multiply => elementwiseType site
  | .matMul => matMulType site
  | .concat => concatType site
  | .quantizeRange => rangeType site

end Typing

/-- The output types of an operation on inputs of the given types. -/
def inferOutputs {α : Type} [Arithmetic α] (kind : OpKind) (name : String)
    (inputs : List TensorType) (attributes : Attributes α) : Except Failure (List TensorType) :=
  (Typing.outputType ⟨kind, name, inputs, attributes⟩).map ([·])

end RangeFold
