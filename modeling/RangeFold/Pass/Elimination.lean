import RangeFold.Graph.Rewiring
import RangeFold.Pattern.Matching
import RangeFold.Pass.Basic

/-!
# Elimination

Splicing a node out of the graph: its readers read one of its inputs instead. This
is safe wherever the bridged value has the type of the node's own output, and an
identity node always qualifies.
-/

namespace RangeFold

variable {α : Type}

/-- What an elimination did: the name of the node and the number of readers moved. -/
structure Elimination where
  node : String
  bridged : Nat
deriving DecidableEq

namespace Graph

/-- The node can be bridged by one of its inputs without changing a type. Entries and
exits of the graph cannot. -/
def canEliminate (graph : Graph α) (id : NodeId) (input : Nat) : Bool :=
  match graph.node id with
  | none => false
  | some node =>
    if node.kind = .parameter ∨ node.kind = .result ∨ node.outputs.length ≠ 1 then false
    else
      match node.inputs[input]? with
      | none => false
      | some source => graph.outputType source == node.outputType 0

/-- Let the readers of a node read one of its inputs. -/
def eliminateNode [Arithmetic α] (id : NodeId) (input : Nat) :
    Attempt (Graph α) Elimination := do
  let node ← getNode id
  match node.inputs[input]? with
  | none => Attempt.fail (.invalidNode (.nothingToBridge node.name input))
  | some source =>
    replaceNode id [source]
    return ⟨node.name, node.consumerCount⟩

/-- Remove a chain whose nodes are freed one by one, consumer first, and answer with
its length. -/
def removeChain (chain : List NodeId) : Attempt (Graph α) Nat := do
  removeEach chain
  return chain.length

end Graph

/-- Remove identity nodes. -/
def identityElimination [Arithmetic α] : Pass α where
  id := "eliminate_identity"
  priority := 0
  runsAfter := []
  isApplicable graph := graph.hasKind .identity
  admits graph id := (Pattern.identity.matchAt graph id).isSome && graph.canEliminate id 0
  apply id := do
    let _ ← Progress.onGraph (Graph.eliminateNode id 0)
    return true

end RangeFold
