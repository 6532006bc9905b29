import RangeFold.Proofs.Meaning.Evaluation
import RangeFold.Proofs.Quantization.Snapping

/-!
# Elementwise operations

Addition, subtraction and multiplication combine two arrays element by element over the shape
that both broadcast to. A range that reads an array and hands it to such an operation on a
constant can do what the operation does by its output bounds alone, if the operation changes each
element as some function of the element and an operand does that output bounds may be combined
with.
-/

namespace RangeFold

variable {α : Type} [Arithmetic α]

/-- How an elementwise operation combines two elements. -/
def OpKind.combination : OpKind → Option (α → α → α)
  | .add => some Arithmetic.add
  | .subtract => some Arithmetic.sub
  | .multiply => some Arithmetic.mul
  | _ => none

/-- Elementwise operations combine two arrays over the shape that both broadcast to, however
large that is. Of other operations nothing is said. -/
def elementwise : Interpretation α where
  apply kind _ inputs :=
    match (kind.combination : Option (α → α → α)), inputs with
    | some combiner, [left, right] =>
      (left.shape.broadcast right.shape).map (left.merge combiner right)
    | _, _ => none

variable {kind : OpKind} {combiner : α → α → α}

/-- Three kinds combine arrays element by element in a way that bounds can follow. -/
theorem OpKind.combination_cases (combines : kind.combination = some combiner) :
    kind = .add ∨ kind = .subtract ∨ kind = .multiply := by
  cases kind <;> simp [combination] at combines ⊢

/-- Under the intended meaning of the operations, an element-wise node denotes the
merge of its operands, where their shapes broadcast. -/
theorem Node.denote_elementwise {node : Node α} (combines : node.kind.combination = some combiner)
    (left right : Tensor α) :
    node.denote elementwise [left, right] =
      (left.shape.broadcast right.shape).map (left.merge combiner right) := by
  have applied : elementwise.apply node.kind node.attributes [left, right] =
      (left.shape.broadcast right.shape).map (left.merge combiner right) := by
    simp only [elementwise, combines]
  rcases OpKind.combination_cases combines with kind | kind | kind
  all_goals simpa only [denote, kind] using applied

/-- An elementwise operation is typed on two arrays that broadcast to one shape, which is that of
its result. -/
theorem inferOutputs_elementwise {name : String} {inputs types : List TensorType}
    {attributes : Attributes α} (combines : kind.combination = some combiner)
    (typed : inferOutputs kind name inputs attributes = .ok types) :
    ∃ left right type, inputs = [left, right] ∧ types = [type] ∧
      left.shape.broadcast right.shape = some type.shape := by
  obtain ⟨type, ruled, sole⟩ := inferOutputs_eq_ok_iff.mp typed
  have ruled : Typing.elementwiseType ⟨kind, name, inputs, attributes⟩ = .ok type := by
    rcases OpKind.combination_cases combines with rfl | rfl | rfl <;> exact ruled
  obtain ⟨⟨left, right⟩, both, ruled⟩ := Attempt.bind_eq_ok_iff.mp ruled
  obtain ⟨_, -, ruled⟩ := Attempt.bind_eq_ok_iff.mp ruled
  refine ⟨left, right, type, ?_, sole, ?_⟩
  · unfold Typing.Site.bothInputs at both
    split at both
    · rename_i listed
      cases both
      exact listed
    · cases both
  · split at ruled
    · rename_i joins
      cases ruled
      exact joins
    · cases ruled

/-- An operation that reads a constant changes every element as the function does with the
operand, which output bounds may be combined with. The constant is read on the right, or also on
the left if the operation commutes. -/
structure Absorbed (kind : OpKind) (commutative : Bool) (function : α → α → α)
    (constant operand : Tensor α) : Prop where
  carries : Carries function
  combines : ∃ combiner, kind.combination = some combiner ∧
    ∀ shape index, constant.shape.fits shape = true → index ∈ shape.indices → ∀ value,
      combiner value (constant.spread index) = function value (operand.spread index) ∧
        (commutative = true →
          combiner (constant.spread index) value = function value (operand.spread index))

section Exact

variable {constant : Tensor Rat}

/-- Multiplication by a constant is absorbed by the output bounds, with the constant
on either side. -/
theorem absorbed_multiply : Absorbed .multiply true Arithmetic.mul constant constant where
  carries := carries_mul
  combines := ⟨Arithmetic.mul, rfl, fun _ _ _ _ _ => ⟨rfl, fun _ => Rat.mul_comm _ _⟩⟩

/-- Addition of a constant is absorbed by the output bounds, with the constant on
either side. -/
theorem absorbed_add : Absorbed .add true Arithmetic.add constant constant where
  carries := carries_add
  combines := ⟨Arithmetic.add, rfl, fun _ _ _ _ _ => ⟨rfl, fun _ => Rat.add_comm _ _⟩⟩

/-- A constant is subtracted by adding its opposite, but only on the right. On the
left the value would change its sign, which no shift of the bounds can do. -/
theorem absorbed_subtract :
    Absorbed .subtract false Arithmetic.add constant (constant.map Arithmetic.neg) where
  carries := carries_add
  combines := by
    refine ⟨Arithmetic.sub, rfl, fun shape index fits inside value => ⟨?_, Bool.noConfusion⟩⟩
    rw [Tensor.spread_map fits inside]
    exact Rat.sub_eq_add_neg _ _

end Exact

end RangeFold
