import RangeFold.Graph.Attributes

/-!
# Layout operations on values

The operations that only move or relabel elements can be carried out on a value at
compile time. The result has the node's inferred shape.
-/

namespace RangeFold

variable {α : Type}

/-- A value's layout fault as a failure. -/
def layoutResult {β : Type} : Except LayoutFault β → Except Failure β
  | .ok value => .ok value
  | .error fault => .error (.internal (.layout fault))

/-- Carry out a layout operation on a value of its input. -/
def Node.evaluate [Inhabited α] (node : Node α) (value : Tensor α) : Except Failure (Tensor α) :=
  match node.outputType 0 with
  | none => .error (.internal (.missingOutput node.name))
  | some type =>
    match node.kind with
    | .identity => .ok value
    | .reshape | .squeeze | .unsqueeze => layoutResult (value.reshape type.shape)
    | .transpose => do
      let axes ← node.attributes.requireInts node.name "perm"
      match permutationOf axes value.rank with
      | .error fault => .error (.typing node.name (.permutation fault))
      | .ok positions => layoutResult (value.permute positions)
    | kind => .error (.invalidNode (.notEvaluable node.name kind))

end RangeFold
