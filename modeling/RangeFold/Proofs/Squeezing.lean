import RangeFold.Proofs.Typing.Layout

/-!
# Inserted dimensions

An unsqueeze inserts a dimension of 1 at each of its axes, and a squeeze by the same axes takes them out
again. The rank grows by the number of axes, the axes are read in view of the grown rank, and the
dimensions of the input keep their order around them. Only axes that are outside the grown rank or stand
at one position are refused.
-/

namespace RangeFold.Typing

variable {α : Type} [Arithmetic α] {name : String} {attributes : Attributes α} {axes : List Int}
  {input output : TensorType} {types : List TensorType}

/-- The axes of an unsqueeze are accepted if they have positions in the grown rank, all different. -/
theorem inferOutputs_unsqueeze_iff (stated : attributes.ints "axes" = some axes) :
    inferOutputs .unsqueeze name [input] attributes = .ok types ↔
      ∃ positions, axisPositions axes (input.rank + axes.length) = some positions ∧
        positions.Nodup ∧ types =
          [⟨input.element, spreadDims positions 0 (input.rank + axes.length) input.shape⟩] := by
  have ruled (type : TensorType) :
      outputType (⟨.unsqueeze, name, [input], attributes⟩ : Site α) = .ok type ↔
        ∃ positions, axisPositions axes (input.rank + axes.length) = some positions ∧
          positions.Nodup ∧
          type = ⟨input.element, spreadDims positions 0 (input.rank + axes.length) input.shape⟩ := by
    refine unsqueezeType_eq_ok_iff.trans ?_
    simp [stated]
  simp only [inferOutputs_eq_ok_iff, ruled]
  constructor
  · rintro ⟨type, ⟨positions, placed, distinct, rfl⟩, rfl⟩
    exact ⟨positions, placed, distinct, rfl⟩
  · rintro ⟨positions, placed, distinct, rfl⟩
    exact ⟨_, ⟨positions, placed, distinct, rfl⟩, rfl⟩

/-- A squeeze is accepted if it takes out dimensions of 1 only. The axes may be
given from the front or from the back. -/
theorem inferOutputs_squeeze (stated : attributes.ints "axes" = some axes) {positions : List Nat}
    (placed : axisPositions axes input.rank = some positions)
    (ones : ∀ position ∈ positions, input.shape[position]? = some 1) :
    inferOutputs .squeeze name [input] attributes =
      .ok [⟨input.element, dimsWithout input.shape positions⟩] := by
  refine inferOutputs_eq_ok_iff.mpr ⟨_, squeezeType_eq_ok_iff.mpr (.inr ?_), rfl⟩
  refine ⟨axes, positions, stated, placed, fun position listed => ?_, rfl⟩
  rw [List.getD_eq_getElem?_getD, ones position listed, Option.getD_some]

/-- An unsqueeze is refused exactly if an axis is outside the grown rank or two axes stand at one
position. -/
theorem inferOutputs_unsqueeze_refused_iff (stated : attributes.ints "axes" = some axes) :
    (∃ failure, inferOutputs .unsqueeze name [input] attributes = .error failure) ↔
      (∃ axis ∈ axes, axis < -((input.rank + axes.length : Nat) : Int) ∨
        ((input.rank + axes.length : Nat) : Int) ≤ axis) ∨
      ∃ axis other, [axis, other].Sublist axes ∧
        axisPosition axis (input.rank + axes.length) =
          axisPosition other (input.rank + axes.length) := by
  have accepted : (∃ types, inferOutputs .unsqueeze name [input] attributes = .ok types) ↔
      ∃ positions, axisPositions axes (input.rank + axes.length) = some positions ∧
        positions.Nodup := by
    simp only [inferOutputs_unsqueeze_iff stated]
    exact ⟨fun ⟨_, positions, placed, distinct, _⟩ => ⟨positions, placed, distinct⟩,
      fun ⟨positions, placed, distinct⟩ => ⟨_, positions, placed, distinct, rfl⟩⟩
  have refused : (∃ failure, inferOutputs .unsqueeze name [input] attributes = .error failure) ↔
      ¬ ∃ types, inferOutputs .unsqueeze name [input] attributes = .ok types := by
    cases inferOutputs .unsqueeze name [input] attributes <;> simp
  rw [refused, accepted, exists_distinct_axisPositions_iff, not_and_or]
  simp only [not_forall, not_and_or, not_le, not_lt, Ne, not_not, exists_prop]

/-- Unsqueezing and squeezing by the same axes. An unsqueeze with a list of axes is refused exactly if an
axis is outside the grown rank or two axes stand at one position. Otherwise the rank grows by the number
of axes, the dimension at each axis is 1, and those at the positions where no axis stands are the input's
in their order. A squeeze of the result by the same axes has the type of the input again. -/
theorem squeezing_exact (stated : attributes.ints "axes" = some axes) (name : String)
    (input : TensorType) :
    ((∃ failure, inferOutputs .unsqueeze name [input] attributes = .error failure) ↔
      (∃ axis ∈ axes, axis < -((input.rank + axes.length : Nat) : Int) ∨
        ((input.rank + axes.length : Nat) : Int) ≤ axis) ∨
      ∃ axis other, [axis, other].Sublist axes ∧
        axisPosition axis (input.rank + axes.length) =
          axisPosition other (input.rank + axes.length)) ∧
    ∀ types, inferOutputs .unsqueeze name [input] attributes = .ok types →
      ∃ output : TensorType, types = [output] ∧ output.element = input.element ∧
        output.rank = input.rank + axes.length ∧
        (∀ axis ∈ axes, ∃ position, axisPosition axis output.rank = some position ∧
          output.shape[position]? = some 1) ∧
        ((List.range output.rank).filter fun position =>
          ∀ axis ∈ axes, axisPosition axis output.rank ≠ some position).map (output.shape[·]?) =
            input.shape.map some ∧
        ∀ (other : String) (others : Attributes α), others.ints "axes" = some axes →
          inferOutputs .squeeze other [output] others = .ok [input] := by
  refine ⟨inferOutputs_unsqueeze_refused_iff stated, fun types typed => ?_⟩
  obtain ⟨positions, placed, distinct, rfl⟩ := (inferOutputs_unsqueeze_iff stated).mp typed
  have inside : ∀ position ∈ positions, position < input.rank + axes.length :=
    fun _ => lt_of_mem_axisPositions placed
  have counted : input.shape.length + positions.length = input.rank + axes.length :=
    congrArg (input.rank + ·) (length_of_axisPositions placed)
  have rank : (⟨input.element,
      spreadDims positions 0 (input.rank + axes.length) input.shape⟩ : TensorType).rank =
        input.rank + axes.length := length_spreadDims
  have ones : ∀ position ∈ positions,
      (spreadDims positions 0 (input.rank + axes.length) input.shape)[position]? = some 1 :=
    fun position listed => spreadDims_getElem? (inside position listed) (by rwa [Nat.zero_add])
  have back := dimsWithout_spreadDims distinct inside counted
  refine ⟨_, rfl, rfl, rank, fun axis listed => ?_, ?_, fun other others statedToo => ?_⟩
  · obtain ⟨position, taken, found⟩ := exists_of_axisPositions placed listed
    exact ⟨position, by rw [rank]; exact found, ones position taken⟩
  · have free (position : Nat) : (∀ axis ∈ axes,
        axisPosition axis (input.rank + axes.length) ≠ some position) ↔ position ∉ positions := by
      rw [mem_axisPositions_iff placed]
      simp
    simp only [rank, free]
    exact map_freePositions_spreadDims distinct inside counted
  · rw [inferOutputs_squeeze statedToo (by rw [rank]; exact placed) ones, back]

/-- Axes for both ends and the middle of a shape of two dimensions, the last of them counted from the
back. -/
def frameAxes : Attributes Rat := Attributes.empty.insert "axes" (.ints [-1, 0, 2])

/-- The front, named from both ends. -/
def frontTwice : Attributes Rat := Attributes.empty.insert "axes" (.ints [0, -2])

/-- A frame is put around two dimensions and between them, and taken away again. The front of a new shape
cannot be inserted twice. -/
theorem framed_squeezed :
    inferOutputs .unsqueeze "framed" [⟨.f32, [3, 4]⟩] frameAxes = .ok [⟨.f32, [1, 3, 1, 4, 1]⟩] ∧
      inferOutputs .squeeze "bare" [⟨.f32, [1, 3, 1, 4, 1]⟩] frameAxes = .ok [⟨.f32, [3, 4]⟩] ∧
      ∃ failure, inferOutputs .unsqueeze "front" [⟨.f32, []⟩] frontTwice = .error failure := by
  have framed : inferOutputs .unsqueeze "framed" [⟨.f32, [3, 4]⟩] frameAxes =
      .ok [⟨.f32, [1, 3, 1, 4, 1]⟩] := by decide
  have axes : frameAxes.ints "axes" = some [-1, 0, 2] := by decide
  obtain ⟨-, accepted⟩ := squeezing_exact axes "framed" ⟨.f32, [3, 4]⟩
  obtain ⟨output, sole, -, -, -, -, bare⟩ := accepted _ framed
  obtain rfl := List.singleton_inj.mp sole
  have front : frontTwice.ints "axes" = some [0, -2] := by decide
  obtain ⟨refused, -⟩ := squeezing_exact front "front" ⟨.f32, []⟩
  exact ⟨framed, bare "bare" frameAxes axes,
    refused.mpr (.inr ⟨0, -2, .refl _, by decide⟩)⟩

end RangeFold.Typing
