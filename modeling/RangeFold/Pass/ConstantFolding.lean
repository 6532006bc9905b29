import RangeFold.Graph.Rewiring
import RangeFold.Pattern.Matching
import RangeFold.Quantization.Layout
import RangeFold.Quantization.Node
import RangeFold.Pass.Basic

/-!
# Folding ranges into constants

A quantization range whose value comes from a constant, possibly through layout
operations, is replaced by a constant that holds the quantized value in the layout
in which the range produced it. The operations in between and the constant itself
disappear with the range, so nothing else may read them.
-/

namespace RangeFold

variable {α : Type}

namespace Graph

/-- Walk from a node back to a constant over at most `limit` layout operations, each
with a single reader. Answers with the operations, reader first, and the constant. -/
def constantBehind (graph : Graph α) : Nat → NodeId → Option (List NodeId × NodeId)
  | limit, id =>
    match graph.node id with
    | none => none
    | some node =>
      if !graph.isSingleUse id then none
      else if node.kind = .constant then some ([], id)
      else if !node.kind.isLayout then none
      else
        match limit with
        | 0 => none
        | rest + 1 =>
          match graph.producer id 0 with
          | none => none
          | some source =>
            (graph.constantBehind rest source).map fun (chain, constant) => (id :: chain, constant)

/-- The chain and the constant that feed a range. -/
def foldingSource (graph : Graph α) (limit : Nat) (range : NodeId) :
    Option (List NodeId × NodeId) :=
  (graph.producer range 0).bind (graph.constantBehind limit)

/-- Carry out the operations at the given places in turn. -/
def evaluateChain [Inhabited α] (graph : Graph α) : List NodeId → Tensor α →
    Except Failure (Tensor α)
  | [], value => .ok value
  | id :: rest, value => do
    let node ← graph.nodeAt id
    let next ← node.evaluate value
    graph.evaluateChain rest next

/-- The quantized value of a range: the constant's value through the chain, from its
far end, and then through the range. -/
def foldedValue [Arithmetic α] (graph : Graph α) (name : String) (range : QuantRange α)
    (chain : List NodeId) (constant : NodeId) : Except Failure (Tensor α) :=
  match graph.constantValue constant with
  | none => .error (.invalidNode (.missingValue (graph.displayName constant)))
  | some value => do
    let laidOut ← graph.evaluateChain chain.reverse value
    range.apply name laidOut

end Graph

/-- Put a constant in the place of a range; the range, the chain and the old constant
are removed, and the new constant takes over the range's name. -/
def installConstant [Arithmetic α] (range : NodeId) (name : String) (element : ElementType)
    (value : Tensor α) (chain : List NodeId) (constant : NodeId) :
    Attempt (Graph α) NodeId := do
  let graph ← Attempt.read
  let folded ← Graph.addNode .constant (graph.uniqueName (name ++ "_folded")) []
    ((Attributes.empty.insert "value" (.tensor value)).insert "element_type" (.element element))
  (Graph.replaceNode range [.first folded]).orElse fun failure => do
    let _ ← Graph.removeNode folded
    Attempt.fail failure
  Graph.removeEach chain
  let _ ← Graph.removeNode constant
  Graph.renameNode folded name
  return folded

/-- Fold a range, if a constant feeds it. A range that is invalid fails, but only where
there is something to fold. -/
def foldRange [Arithmetic α] (limit : Nat) (id : NodeId) : Attempt (Progress α) Bool := do
  let graph ← Progress.currentGraph
  let node ← Attempt.lift (graph.nodeAt id)
  match node.outputType 0 with
  | none => Attempt.fail (.internal (.missingOutput node.name))
  | some type =>
    let range ← Attempt.lift (QuantRange.ofNode node)
    match graph.foldingSource limit id with
    | none => return false
    | some (chain, constant) =>
      Attempt.lift (range.validate node.name)
      let value ← Attempt.lift (graph.foldedValue node.name range chain constant)
      if value.shape ≠ type.shape then
        Attempt.fail (.internal (.foldedShape node.name value.shape type.shape))
      else
        let folded ← Progress.onGraph
          (installConstant id node.name type.element value chain constant)
        Progress.note fun journal => journal.annotate folded range.levels
        return true

/-- The chain length that is crossed where none is stated. -/
def defaultChainLimit : Nat := 16

/-- Fold ranges over constants. Fusion into output bounds goes first, because it may
leave a range that reads a constant directly. -/
def constantFolding [Arithmetic α] (limit : Nat) : Pass α where
  id := "fuse_quantization_range"
  priority := 100
  runsAfter := ["fuse_multiply_to_quantization_range", "fuse_add_to_quantization_range"]
  isApplicable graph := graph.hasKind .quantizeRange
  admits graph id := (Pattern.quantizeRange.matchAt graph id).isSome
  apply := foldRange limit

end RangeFold
