import RangeFold.Graph.Rewiring
import RangeFold.Pattern.Matching
import RangeFold.Quantization.Node
import RangeFold.Pass.Basic

/-!
# Fusion into output bounds

A quantization range followed by an operation with a constant is again a range when
the operation moves the output levels without reordering them: a positive scale
stretches them, a shift moves them. The operation is then absorbed by the output
bounds of a new range, which takes over its name.

A constant minus a range turns the levels around and is left alone.
-/

namespace RangeFold

variable {α : Type}

/-- The places taking part in a fusion: an operation, the range it reads and the
constant it reads. -/
structure FusionSite where
  operation : NodeId
  range : NodeId
  constant : NodeId
deriving DecidableEq

namespace Graph

/-- The range and the constant that a binary operation reads. A commutative operation
may read them in either order. -/
def fusionSite (graph : Graph α) (operation : NodeId) (commutative : Bool) : Option FusionSite := do
  let node ← graph.node operation
  let binding ←
    match (Pattern.rangeThenConstant [node.kind]).matchAt graph operation with
    | some binding => some binding
    | none =>
      if commutative then (Pattern.constantThenRange [node.kind]).matchAt graph operation
      else none
  let range ← binding.get "q"
  let constant ← binding.get "c"
  return ⟨operation, range, constant⟩

end Graph

/-- Combine both output bounds with an operand, if they have a common shape. -/
def QuantRange.mapOutput [Inhabited α] (range : QuantRange α) (function : α → α → α)
    (operand : Tensor α) : Option (QuantRange α) := do
  let low ← range.outputLow.combine function operand
  let high ← range.outputHigh.combine function operand
  return { range with outputLow := low, outputHigh := high }

/-- Put a range with edited bounds in the place of the operation, which is removed with
the old range; the constant goes too if nothing else reads it. -/
def installRange [Arithmetic α] (site : FusionSite) (name : String) (source : OutputRef)
    (range : QuantRange α) : Attempt (Graph α) Unit := do
  let graph ← Attempt.read
  let fused ← Graph.addNode .quantizeRange (graph.uniqueName (name ++ "_fused")) [source]
    range.toAttributes
  (Graph.replaceNode site.operation [.first fused]).orElse fun failure => do
    let _ ← Graph.removeNode fused
    Attempt.fail failure
  let _ ← Graph.removeNode site.range
  let graph ← Attempt.read
  if graph.isUnused site.constant then
    let _ ← Graph.removeNode site.constant
  Graph.renameNode fused name

/-- The range a fusion would install with the name and source it takes over, or none
if the site does not qualify: the range is shared, the operation changes the type of
the value, or the edited bounds do not fit the input. A range that is invalid before
or after the edit fails. -/
def fusedRange [Arithmetic α] (graph : Graph α) (site : FusionSite)
    (edit : QuantRange α → Option (QuantRange α)) :
    Except Failure (Option (String × OutputRef × QuantRange α)) :=
  if !graph.isSingleUse site.range then .ok none
  else do
    let rangeNode ← graph.nodeAt site.range
    let operation ← graph.nodeAt site.operation
    if rangeNode.outputType 0 ≠ operation.outputType 0 then return none
    else
      match rangeNode.inputs[0]? with
      | none => return none
      | some source =>
        match graph.outputType source with
        | none => return none
        | some input =>
          let range ← QuantRange.ofNode rangeNode
          range.validate rangeNode.name
          match edit range with
          | none => return none
          | some edited =>
            if edited.outputLow.shape.fits input.shape && edited.outputHigh.shape.fits input.shape
            then
              edited.validate operation.name
              return some (operation.name, source, edited)
            else return none

/-- Fuse at a site, if it qualifies. -/
def fuseInto [Arithmetic α] (site : FusionSite) (edit : QuantRange α → Option (QuantRange α)) :
    Attempt (Graph α) Bool := do
  let graph ← Attempt.read
  match ← Attempt.lift (fusedRange graph site edit) with
  | none => return false
  | some (name, source, range) =>
    installRange site name source range
    return true

/-- A scale that keeps the order of the levels: finite and positive throughout. -/
def isScale [Arithmetic α] (scale : Tensor α) : Bool :=
  scale.data.all fun value => Arithmetic.isFinite value && Arithmetic.lt (Arithmetic.ofInt 0) value

/-- A shift that keeps the order of the levels: finite throughout. -/
def isShift [Arithmetic α] (shift : Tensor α) : Bool := shift.data.all Arithmetic.isFinite

/-- Absorb the scale that the operation multiplies by. The operation's kind is not
looked at here, only the range and the constant it reads. -/
def fuseScale [Arithmetic α] (id : NodeId) : Attempt (Graph α) Bool := do
  let graph ← Attempt.read
  match graph.fusionSite id true with
  | none => return false
  | some site =>
    match graph.constantValue site.constant with
    | none => return false
    | some scale =>
      if isScale scale then fuseInto site fun range => range.mapOutput Arithmetic.mul scale
      else return false

/-- The site of an addition in either order, or of a subtraction of the constant, with
the shift it makes of the constant. -/
def shiftSite [Arithmetic α] (graph : Graph α) (id : NodeId) :
    Option (FusionSite × (Tensor α → Tensor α)) := do
  let node ← graph.node id
  match node.kind with
  | .add => (graph.fusionSite id true).map fun site => (site, fun constant => constant)
  | .subtract =>
    (graph.fusionSite id false).map fun site => (site, Tensor.map Arithmetic.neg)
  | _ => none

/-- Absorb the shift that the operation adds or subtracts. -/
def fuseShift [Arithmetic α] (id : NodeId) : Attempt (Graph α) Bool := do
  let graph ← Attempt.read
  match shiftSite graph id with
  | none => return false
  | some (site, signed) =>
    match graph.constantValue site.constant with
    | none => return false
    | some shift =>
      if isShift shift then
        fuseInto site fun range => range.mapOutput Arithmetic.add (signed shift)
      else return false

/-- Absorb multiplications by a positive constant. -/
def scaleFusion [Arithmetic α] : Pass α where
  id := "fuse_multiply_to_quantization_range"
  priority := 10
  runsAfter := []
  isApplicable graph := graph.hasKind .quantizeRange && graph.hasKind .multiply
  admits graph id :=
    match graph.node id with
    | some node => node.kind == .multiply && (graph.fusionSite id true).isSome
    | none => false
  apply id := Progress.onGraph (fuseScale id)

/-- Absorb additions and subtractions of a constant. -/
def shiftFusion [Arithmetic α] : Pass α where
  id := "fuse_add_to_quantization_range"
  priority := 20
  runsAfter := []
  isApplicable graph :=
    graph.hasKind .quantizeRange && (graph.hasKind .add || graph.hasKind .subtract)
  admits graph id := (shiftSite graph id).isSome
  apply id := Progress.onGraph (fuseShift id)

end RangeFold
