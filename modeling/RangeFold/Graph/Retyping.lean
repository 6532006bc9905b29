import RangeFold.Graph.Edit

/-!
# Retyping

After an edge has moved, the types downstream of it are inferred again. Nodes to
visit wait on a stack. A visited node is typed from what is known so far; if its
types change, its readers are stacked above the rest. The graph is written only
when the stack is empty, so a node that does not type leaves the graph as it was.

On an acyclic graph each visit lies on one path of edges from a visit asked for at
the start, and there are no more paths than sequences of edges, one for each node.
-/

namespace RangeFold

variable {α : Type}

/-- Newly inferred output types by node, not yet written. -/
abbrev TypeDraft := List (NodeId × List TensorType)

namespace TypeDraft

/-- Replace or enter the types of a node. -/
def enter (draft : TypeDraft) (id : NodeId) (types : List TensorType) : TypeDraft :=
  (id, types) :: draft.filter fun (key, _) => key ≠ id

/-- The type of a value: the drafted one if there is one, otherwise the stored one. -/
def typeOf (draft : TypeDraft) (graph : Graph α) (source : OutputRef) : Option TensorType :=
  match (draft.lookup source.node).bind fun types => types[source.slot]? with
  | some type => some type
  | none => graph.outputType source

/-- The types of the values a node reads. -/
def inputTypes (draft : TypeDraft) (graph : Graph α) (node : Node α) :
    Except Failure (List TensorType) :=
  node.inputs.mapM fun source =>
    match draft.typeOf graph source with
    | some type => .ok type
    | none => .error (.typing node.name (.deadInput source))

/-- Infer the types of one node from what is known. -/
def infer [Arithmetic α] (draft : TypeDraft) (graph : Graph α) (node : Node α) :
    Except Failure (List TensorType) := do
  let inputs ← draft.inputTypes graph node
  let types ← inferOutputs node.kind node.name inputs node.attributes
  if types.length ≠ node.outputs.length then
    throw (.typing node.name (.outputCount node.outputs.length types.length))
  return types

/-- Visit the nodes on the stack, its top first. -/
def settle [Arithmetic α] (graph : Graph α) : Nat → List NodeId → TypeDraft →
    Except Failure TypeDraft
  | _, [], draft => .ok draft
  | 0, _ :: _, _ => .error (.internal .unsettledTypes)
  | budget + 1, id :: waiting, draft =>
    match graph.nodeAt id with
    | .error failure => .error failure
    | .ok node =>
      match draft.infer graph node with
      | .error failure => .error failure
      | .ok types =>
        let current := (draft.lookup id).getD node.outputTypes
        if (current.zip types).any fun (old, new) => old ≠ new then
          settle graph budget ((node.consumers.map Consumer.node).reverse ++ waiting)
            (draft.enter id types)
        else if (draft.lookup id).isNone then settle graph budget waiting (draft.enter id types)
        else settle graph budget waiting draft

/-- Store the drafted types. -/
def write (draft : TypeDraft) (graph : Graph α) : Graph α :=
  draft.foldl (fun graph (id, types) =>
    graph.modifyNode id fun node =>
      { node with outputs := (node.outputs.zipIdx).map fun (slot, index) =>
          { slot with type := types.getD index slot.type } }) graph

end TypeDraft

namespace Graph

/-- Enough visits for any acyclic graph. -/
def retypingBudget (graph : Graph α) (seeds : List NodeId) : Nat :=
  seeds.length * Nat.pow (graph.edgeCount + 1) graph.arena.length

/-- Type the given nodes again, the last one first, and everything downstream whose
input types change. -/
def retype [Arithmetic α] (seeds : List NodeId) : Attempt (Graph α) Unit := fun graph =>
  match TypeDraft.settle graph (graph.retypingBudget seeds) seeds.reverse [] with
  | .error failure => (.error failure, graph)
  | .ok draft => (.ok (), draft.write graph)

end Graph

end RangeFold
