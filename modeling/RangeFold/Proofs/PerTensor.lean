import RangeFold.Proofs.Rearrangement
import RangeFold.Proofs.Tensor.Broadcast

/-!
# Ranges for whole tensors

A bound of one element shows that element at every index of a shape that it fits, so a range with such
bounds does the same to all elements. Layout operations only rearrange elements, and therefore it makes
no difference whether a range of this kind snaps a value before the operation or after it. What may
differ is whether the bounds fit: they have to stretch to the shape of what is snapped.
-/

namespace RangeFold

variable {α : Type}

namespace Tensor

variable [Inhabited α]

/-- The element that is stored first. -/
def first (tensor : Tensor α) : α := (tensor.data[0]?).getD default

/-- A single element is shown everywhere. Its index is projected to zeros. -/
theorem spread_of_single {tensor : Tensor α} (single : tensor.size = 1) {target : Shape}
    (fits : tensor.shape.fits target = true) {index : Index} (inside : index ∈ target.indices) :
    tensor.spread index = tensor.first := by
  have within := Shape.offset_lt_volume (Shape.project_mem fits inside)
  have start : tensor.shape.offset (tensor.shape.project index) = 0 := by
    rw [← tensor.size_eq] at within
    exact Nat.lt_one_iff.mp (single ▸ within)
  rw [spread, get, start, first]

end Tensor

namespace QuantRange

variable {range : QuantRange α}

/-- A range holds for the whole tensor if each of its bounds is a single element, in
whatever rank. -/
theorem isPerTensor_iff : range.isPerTensor = true ↔
    range.inputLow.size = 1 ∧ range.inputHigh.size = 1 ∧
      range.outputLow.size = 1 ∧ range.outputHigh.size = 1 := by
  simp [isPerTensor, bounds]

variable [Arithmetic α]

/-- What a range for whole tensors makes of an element. -/
def snapElement (range : QuantRange α) (value : α) : α :=
  quantizeValue value range.inputLow.first range.inputHigh.first range.outputLow.first
    range.outputHigh.first range.levels

/-- It makes that of every element. Where the element stands does not matter, and so
neither does how it is rearranged. -/
theorem snapped_of_isPerTensor (perTensor : range.isPerTensor = true) {data : Tensor α}
    (fits : range.Fits data.shape) : range.snapped data = data.map range.snapElement := by
  obtain ⟨inputLow, inputHigh, outputLow, outputHigh⟩ := isPerTensor_iff.mp perTensor
  obtain ⟨fitsInputLow, fitsInputHigh, fitsOutputLow, fitsOutputHigh⟩ := fits_iff.mp fits
  rw [← Tensor.tabulate_map]
  refine Tensor.tabulate_congr fun index inside => ?_
  rw [Tensor.spread_of_single inputLow fitsInputLow inside,
    Tensor.spread_of_single inputHigh fitsInputHigh inside,
    Tensor.spread_of_single outputLow fitsOutputLow inside,
    Tensor.spread_of_single outputHigh fitsOutputHigh inside]
  rfl

end QuantRange

namespace Graph

variable [Arithmetic α] {graph : Graph α} {id : NodeId} {node : Node α}

/-- Snapping with a range for whole tensors commutes with the layout operations of a graph that a
session builds. Either order succeeds exactly if the operation can yield an array of its output's shape,
the range has levels enough and its bounds fit what it is to snap, which is the output of the operation
in one order and its input in the other. Where both succeed they give the same tensor. -/
theorem snapping_commutes (reachable : graph.Reachable) (found : graph.node id = some node)
    (layout : node.kind.isLayout = true) {range : QuantRange α}
    (perTensor : range.isPerTensor = true) (label labelAfter : String) :
    ∃ source input output, node.inputs = [source] ∧ graph.outputType source = some input ∧
      node.outputTypes = [output] ∧
      ∀ value : Tensor α, value.shape = input.shape →
        ((∃ after, (node.evaluate value >>= range.apply labelAfter) = .ok after) ↔
          node.kind.CanYield output.shape ∧ 2 ≤ range.levels ∧ range.Fits output.shape) ∧
        ((∃ before, (range.apply label value >>= node.evaluate) = .ok before) ↔
          node.kind.CanYield output.shape ∧ 2 ≤ range.levels ∧ range.Fits input.shape) ∧
        ∀ after before, (node.evaluate value >>= range.apply labelAfter) = .ok after →
          (range.apply label value >>= node.evaluate) = .ok before → after = before := by
  obtain ⟨source, input, output, reads, known, -, sole, evaluates⟩ :=
    reachable.sound.evaluates found layout
  refine ⟨source, input, output, reads, known, sole, fun value shaped => ?_⟩
  by_cases yields : node.kind.CanYield output.shape
  case neg =>
    -- Whatever the range makes of the value has its shape, so neither order gets past the operation.
    have refused (data : Tensor α) (same : data.shape = input.shape) (result : Tensor α) :
        node.evaluate data ≠ .ok result := by
      rw [(evaluates data same).2 yields]
      exact nofun
    have noneAfter (after : Tensor α) :
        (node.evaluate value >>= range.apply labelAfter) ≠ .ok after := fun ran => by
      obtain ⟨next, evaluated, -⟩ := Attempt.bind_eq_ok_iff.mp ran
      exact refused value shaped next evaluated
    have noneBefore (before : Tensor α) :
        (range.apply label value >>= node.evaluate) ≠ .ok before := fun ran => by
      obtain ⟨snapped, applied, evaluated⟩ := Attempt.bind_eq_ok_iff.mp ran
      obtain ⟨-, -, rfl⟩ := QuantRange.apply_eq_ok_iff.mp applied
      exact refused (range.snapped value) shaped before evaluated
    simp [yields, noneAfter, noneBefore]
  obtain ⟨next, evaluated, shape⟩ := (evaluates value shaped).1 yields
  have mapped := Node.evaluate_map range.snapElement evaluated
  have snapsAfter (after : Tensor α) :
      (node.evaluate value >>= range.apply labelAfter) = .ok after ↔
        2 ≤ range.levels ∧ range.Fits output.shape ∧ after = range.snapped next := by
    rw [evaluated, Attempt.ok_bind, QuantRange.apply_eq_ok_iff, shape]
  have snapsBefore (before : Tensor α) :
      (range.apply label value >>= node.evaluate) = .ok before ↔
        2 ≤ range.levels ∧ range.Fits input.shape ∧ before = next.map range.snapElement := by
    rw [Attempt.bind_eq_ok_iff, ← shaped]
    constructor
    · rintro ⟨snapped, applied, carried⟩
      obtain ⟨levels, fits, rfl⟩ := QuantRange.apply_eq_ok_iff.mp applied
      rw [QuantRange.snapped_of_isPerTensor perTensor fits, mapped] at carried
      exact ⟨levels, fits, (Except.ok.inj carried).symm⟩
    · rintro ⟨levels, fits, rfl⟩
      refine ⟨_, QuantRange.apply_eq_ok_iff.mpr ⟨levels, fits, rfl⟩, ?_⟩
      rw [QuantRange.snapped_of_isPerTensor perTensor fits, mapped]
  refine ⟨by simp [snapsAfter, yields], by simp [snapsBefore, yields],
    fun after before ranAfter ranBefore => ?_⟩
  obtain ⟨-, fits, rfl⟩ := (snapsAfter after).mp ranAfter
  obtain ⟨-, -, rfl⟩ := (snapsBefore before).mp ranBefore
  exact QuantRange.snapped_of_isPerTensor perTensor (shape ▸ fits)

/-- A range of single bounds, each of another rank. -/
def threeLevels : QuantRange Rat :=
  ⟨.scalar 1, ⟨[1], [5], rfl⟩, ⟨[1, 1], [0], rfl⟩, .scalar 1, 3⟩

/-- The rows are snapped and turned, or turned and snapped. Either way there are the
same columns. -/
theorem turned_snapped :
    turned.Reachable ∧ threeLevels.isPerTensor = true ∧ ∃ node result,
      turned.node 1 = some node ∧ node.kind = .transpose ∧
      (node.evaluate twoRows >>= threeLevels.apply "after") = .ok result ∧
      (threeLevels.apply "before" twoRows >>= node.evaluate) = .ok result := by
  obtain ⟨node, found, kind, inputs, types, -⟩ := turned_turn
  have perTensor : threeLevels.isPerTensor = true := by decide +kernel
  obtain ⟨source, input, output, reads, known, sole, commutes⟩ :=
    snapping_commutes turned_reachable found (by rw [kind]; rfl) perTensor "before" "after"
  obtain rfl : ⟨0, 0⟩ = source := List.singleton_inj.mp (inputs.symm.trans reads)
  obtain rfl : (⟨.f32, [3, 2]⟩ : TensorType) = output :=
    List.singleton_inj.mp (types.symm.trans sole)
  obtain rfl := Option.some.inj (turned_entry.symm.trans known)
  obtain ⟨after, before, same⟩ := commutes twoRows rfl
  have levels : 2 ≤ threeLevels.levels := by decide
  have yields : node.kind.CanYield [3, 2] := fun anew => by simp [kind, OpKind.reshapes] at anew
  obtain ⟨result, ranAfter⟩ := after.mpr
    ⟨yields, levels, QuantRange.fits_iff.mpr (by decide +kernel)⟩
  obtain ⟨again, ranBefore⟩ := before.mpr
    ⟨yields, levels, QuantRange.fits_iff.mpr (by decide +kernel)⟩
  obtain rfl := same result again ranAfter ranBefore
  exact ⟨turned_reachable, perTensor, node, result, found, kind, ranAfter, ranBefore⟩

end Graph

end RangeFold
