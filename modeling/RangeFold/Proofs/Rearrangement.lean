import RangeFold.Proofs.Meaning.Chains
import RangeFold.Proofs.Session
import RangeFold.Proofs.Typing.Layout

/-!
# Layout operations rearrange

Inference and evaluation of a layout operation are two computations: the one works on the shape of an
input, the other on a value. They agree. In a graph that a session builds, a layout operation can be
carried out on every value of its input's shape, and what it gives has the shape that was inferred. It
holds the elements of the value and no others: all kinds but one keep them in their order, and a
transpose carries each element to the index whose positions are those of its own index, rearranged.

So it makes no difference whether a function is applied to the elements before or after.
-/

namespace RangeFold

variable {α : Type}

/-- A fault of the layout becomes a failure, and nothing is added to what succeeds. -/
theorem layoutResult_eq_ok_iff {β : Type} {outcome : Except LayoutFault β} {value : β} :
    layoutResult outcome = .ok value ↔ outcome = .ok value := by
  cases outcome <;> simp [layoutResult]

namespace Node

variable [Inhabited α] {node : Node α} {value next : Tensor α}

/-- A value holds the elements of another one where a layout operation puts them. -/
structure Rearranges (node : Node α) (value next : Tensor α) : Prop where
  elements : next.data.Perm value.data
  kept : node.kind ≠ .transpose → next.data = value.data
  carried : node.kind = .transpose → ∃ axes : List Nat,
    node.attributes.ints "perm" = some (axes.map Int.ofNat) ∧
      axes.Perm (List.range value.rank) ∧
      ∀ index ∈ next.shape.indices, ∃ origin ∈ value.shape.indices,
        Tensor.CarriedFrom axes origin index ∧ next.get index = value.get origin ∧
        ∀ other ∈ value.shape.indices, Tensor.CarriedFrom axes other index → other = origin

/-- A transpose permutes the axes in the way that is stated. The numbers have to be
a permutation of the axes, which the typing rule has made sure of. -/
theorem evaluate_transpose {type : TensorType} (stored : node.outputType 0 = some type)
    (kind : node.kind = .transpose) : node.evaluate value = .ok next ↔
      ∃ axes : List Nat, node.attributes.ints "perm" = some (axes.map Int.ofNat) ∧
        value.permute axes = .ok next := by
  unfold evaluate
  rw [stored]
  simp only [kind, Attempt.bind_eq_ok_iff, Attributes.requireInts_eq_ok_iff]
  constructor
  · rintro ⟨stated, holds, moved⟩
    split at moved
    · cases moved
    · rename_i positions accepted
      obtain ⟨rfl, -⟩ := permutationOf_eq_ok_iff.mp accepted
      exact ⟨positions, holds, layoutResult_eq_ok_iff.mp moved⟩
  · rintro ⟨axes, holds, moved⟩
    obtain ⟨permutes, -⟩ := Tensor.permute_eq_ok_iff.mp moved
    have accepted := permutationOf_eq_ok_iff.mpr ⟨rfl, permutes⟩
    exact ⟨_, holds, by rw [accepted]; exact layoutResult_eq_ok_iff.mpr moved⟩

/-- What carrying out a layout operation comes to. Of the reshaping kinds only the
shape of the result is used. -/
theorem evaluate_eq_ok_iff : node.evaluate value = .ok next ↔
    ∃ type, node.outputType 0 = some type ∧
      (node.kind = .identity ∧ next = value ∨
        (node.kind = .reshape ∨ node.kind = .squeeze ∨ node.kind = .unsqueeze) ∧
          value.reshape type.shape = .ok next ∨
        node.kind = .transpose ∧ ∃ axes : List Nat,
          node.attributes.ints "perm" = some (axes.map Int.ofNat) ∧
            value.permute axes = .ok next) := by
  cases stored : node.outputType 0 with
  | none => simp [evaluate, stored]
  | some type =>
    cases kind : node.kind with
    | transpose => simpa using evaluate_transpose stored kind
    | identity => simp [evaluate, stored, kind, eq_comm]
    | _ => simp [evaluate, stored, kind, layoutResult_eq_ok_iff]

/-- Carrying out a layout operation only rearranges. Elements are kept as they are,
and each index is told where its element comes from. -/
theorem rearranges_of_evaluate (evaluated : node.evaluate value = .ok next) :
    node.Rearranges value next := by
  obtain ⟨type, -, ⟨kind, rfl⟩ | ⟨kind, reshaped⟩ | ⟨kind, axes, stated, permuted⟩⟩ :=
    evaluate_eq_ok_iff.mp evaluated
  · exact ⟨.refl _, fun _ => rfl, fun other => by simp [kind] at other⟩
  · obtain ⟨-, -, same⟩ := Tensor.reshape_eq_ok_iff.mp reshaped
    exact ⟨.of_eq same, fun _ => same, fun other => by simp [other] at kind⟩
  · obtain ⟨permutes, -⟩ := Tensor.permute_eq_ok_iff.mp permuted
    exact ⟨Tensor.perm_of_permute permuted, fun other => absurd kind other, fun _ =>
      ⟨axes, stated, permutes, fun index inside => Tensor.get_of_permute permuted inside⟩⟩

/-- What is made of each element by itself can as well be made before. A snapping
that is the same for all elements is of this kind. -/
theorem evaluate_map (function : α → α) (evaluated : node.evaluate value = .ok next) :
    node.evaluate (value.map function) = .ok (next.map function) := by
  obtain ⟨type, stored, ⟨kind, rfl⟩ | ⟨kind, reshaped⟩ | ⟨kind, axes, stated, permuted⟩⟩ :=
    evaluate_eq_ok_iff.mp evaluated
  · exact evaluate_eq_ok_iff.mpr ⟨type, stored, .inl ⟨kind, rfl⟩⟩
  · obtain ⟨small, shape, same⟩ := Tensor.reshape_eq_ok_iff.mp reshaped
    have mapped : (value.map function).reshape type.shape = .ok (next.map function) :=
      Tensor.reshape_eq_ok_iff.mpr ⟨small, shape, congrArg (List.map function) same⟩
    exact evaluate_eq_ok_iff.mpr ⟨type, stored, .inr (.inl ⟨kind, mapped⟩)⟩
  · have mapped := Tensor.permute_map function permuted
    exact evaluate_eq_ok_iff.mpr ⟨type, stored, .inr (.inr ⟨kind, axes, stated, mapped⟩)⟩

end Node

namespace Graph

variable [Arithmetic α] {graph : Graph α} {id : NodeId} {node : Node α}

/-- A layout operation in a sound graph can be carried out on every value of its input's shape or on
none, which depends on whether it can yield an array of its output's shape. -/
theorem Sound.evaluates (sound : graph.Sound) (found : graph.node id = some node)
    (layout : node.kind.isLayout = true) :
    ∃ source input output, node.inputs = [source] ∧ graph.outputType source = some input ∧
      inferOutputs node.kind node.name [input] node.attributes = .ok [output] ∧
      node.outputTypes = [output] ∧
      ∀ value : Tensor α, value.shape = input.shape →
        (node.kind.CanYield output.shape →
          ∃ next, node.evaluate value = .ok next ∧ next.shape = output.shape) ∧
        (¬ node.kind.CanYield output.shape →
          node.evaluate value = .error (.internal (.layout .tooLarge))) := by
  obtain ⟨source, input, reads, -, known, inferred⟩ :=
    sound.sole_input found (OpKind.isUnary_of_isLayout layout)
  obtain ⟨output, -, sole⟩ := inferOutputs_eq_ok_iff.mp inferred
  refine ⟨source, input, output, reads, known, sole ▸ inferred, sole, fun value shaped => ?_⟩
  obtain ⟨type, types, outcome⟩ := Node.evaluate_of_typed layout inferred shaped
  obtain rfl : type = output := List.singleton_inj.mp (types.symm.trans sole)
  exact outcome

/-- Evaluation agrees with inference. A layout operation in a graph that a session builds reads one
value, and on its type the rule gives the operation's output type. Every value of that input's shape can
be carried over, to a value of the inferred shape that holds the same elements, rearranged. The only
exception is an operation that lays its input out anew in a shape that no array can have: it carries no
value over, and says so. -/
theorem evaluation_exact (reachable : graph.Reachable) (found : graph.node id = some node)
    (layout : node.kind.isLayout = true) :
    ∃ source input output, node.inputs = [source] ∧ graph.outputType source = some input ∧
      inferOutputs node.kind node.name [input] node.attributes = .ok [output] ∧
      node.outputTypes = [output] ∧
      ∀ value : Tensor α, value.shape = input.shape →
        (node.kind.CanYield output.shape →
          ∃ next, node.evaluate value = .ok next ∧ next.shape = output.shape ∧
            next.size = value.size ∧ node.Rearranges value next) ∧
        (¬ node.kind.CanYield output.shape →
          node.evaluate value = .error (.internal (.layout .tooLarge))) := by
  obtain ⟨source, input, output, reads, known, inferred, sole, evaluates⟩ :=
    reachable.sound.evaluates found layout
  refine ⟨source, input, output, reads, known, inferred, sole, fun value shaped => ?_⟩
  obtain ⟨carries, refuses⟩ := evaluates value shaped
  refine ⟨fun yields => ?_, refuses⟩
  obtain ⟨next, evaluated, shape⟩ := carries yields
  have rearranges := Node.rearranges_of_evaluate evaluated
  exact ⟨next, evaluated, shape, rearranges.elements.length_eq, rearranges⟩

end Graph

section Turned

/-- The rows of an entry become columns, and then one row. -/
def turnedSession : List (Call Rat) :=
  [.add .parameter "x" [] (Attributes.empty.insert "shape" (.shape [2, 3])),
    .add .transpose "turn" [⟨0, 0⟩] (Attributes.empty.insert "perm" (.ints [1, 0])),
    .add .reshape "flat" [⟨1, 0⟩] (Attributes.empty.insert "shape" (.ints [-1]))]

/-- The graph that the session builds. -/
def turned : Graph Rat := Call.performAll turnedSession Graph.empty

/-- An array for the entry. -/
def twoRows : Tensor Rat := ⟨[2, 3], [1, 2, 3, 4, 5, 6], rfl⟩

/-- The session is the way to reach it. -/
theorem turned_reachable : turned.Reachable := ⟨turnedSession, rfl⟩

/-- Its entry has two rows of three columns. -/
theorem turned_entry : turned.outputType ⟨0, 0⟩ = some ⟨.f32, [2, 3]⟩ := by decide +kernel

/-- Its second node turns them into three rows of two columns. -/
theorem turned_turn : ∃ node, turned.node 1 = some node ∧ node.kind = .transpose ∧
    node.inputs = [⟨0, 0⟩] ∧ node.outputTypes = [⟨.f32, [3, 2]⟩] ∧
    node.attributes.ints "perm" = some [1, 0] := by
  have built : (turned.node 1).map (fun node => (node.kind, node.inputs, node.outputTypes,
      node.attributes.ints "perm")) =
        some (.transpose, [⟨0, 0⟩], [⟨.f32, [3, 2]⟩], some [1, 0]) := by decide +kernel
  obtain ⟨node, found, parts⟩ := Option.map_eq_some_iff.mp built
  exact ⟨node, found, by simpa using parts⟩

/-- The transpose can be carried out on the array, and the end of the first row becomes the begin of
the last one. -/
theorem turned_evaluated :
    turned.Reachable ∧ ∃ node next, turned.node 1 = some node ∧ node.kind = .transpose ∧
      node.evaluate twoRows = .ok next ∧ next.shape = [3, 2] ∧ next.size = 6 ∧
      next.data.Perm [1, 2, 3, 4, 5, 6] ∧ next.get [2, 0] = 3 := by
  obtain ⟨node, found, kind, inputs, types, stated⟩ := turned_turn
  obtain ⟨source, input, output, reads, known, -, sole, carries⟩ :=
    Graph.evaluation_exact turned_reachable found (by rw [kind]; rfl)
  obtain rfl : ⟨0, 0⟩ = source := List.singleton_inj.mp (inputs.symm.trans reads)
  obtain rfl : (⟨.f32, [3, 2]⟩ : TensorType) = output :=
    List.singleton_inj.mp (types.symm.trans sole)
  obtain rfl := Option.some.inj (turned_entry.symm.trans known)
  have yields : node.kind.CanYield [3, 2] := fun anew => by simp [kind, OpKind.reshapes] at anew
  obtain ⟨next, evaluated, shape, size, rearranges⟩ := (carries twoRows rfl).1 yields
  obtain ⟨axes, holds, -, moved⟩ := rearranges.carried kind
  obtain rfl : [1, 0] = axes := (List.map_inj_right fun _ _ => Int.ofNat.inj).mp
    (Option.some.inj (stated.symm.trans holds))
  obtain ⟨origin, -, -, same, only⟩ := moved [2, 0] (by rw [shape]; decide)
  have carried : Tensor.CarriedFrom [1, 0] [0, 2] [2, 0] := by
    rintro (_ | _ | place) axis listed <;> cases listed <;> rfl
  obtain rfl := only [0, 2] (by decide) carried
  exact ⟨turned_reachable, node, next, found, kind, evaluated, shape, size, rearranges.elements,
    same.trans (by decide +kernel)⟩

end Turned

section Widened

/-- A constant without elements is laid out in very many rows of two columns, none of which has an
element either. -/
def widenedSession : List (Call Rat) :=
  [.add .constant "w" [] (Attributes.empty.insert "value" (.tensor (Tensor.vector []))),
    .add .reshape "wide" [⟨0, 0⟩] (Attributes.empty.insert "shape" (.ints [0, 2 ^ 62, 2]))]

/-- The graph that the session builds. -/
def widened : Graph Rat := Call.performAll widenedSession Graph.empty

/-- The operation is typed, but it cannot be carried out on the constant, which is of its input's
shape. -/
theorem widened_not_evaluated :
    widened.Reachable ∧ widened.outputType ⟨0, 0⟩ = some ⟨.f32, [0]⟩ ∧
      ∃ node, widened.node 1 = some node ∧ node.kind = .reshape ∧ node.inputs = [⟨0, 0⟩] ∧
        node.outputTypes = [⟨.f32, [0, 2 ^ 62, 2]⟩] ∧
        node.evaluate (Tensor.vector []) = .error (.internal (.layout .tooLarge)) := by
  have built : (widened.node 1).map (fun node => (node.kind, node.inputs, node.outputTypes,
      node.evaluate (Tensor.vector []))) =
        some (.reshape, [⟨0, 0⟩], [⟨.f32, [0, 2 ^ 62, 2]⟩],
          .error (.internal (.layout .tooLarge))) := by decide +kernel
  obtain ⟨node, found, parts⟩ := Option.map_eq_some_iff.mp built
  exact ⟨⟨widenedSession, rfl⟩, by decide +kernel, node, found, by simpa using parts⟩

end Widened

end RangeFold
