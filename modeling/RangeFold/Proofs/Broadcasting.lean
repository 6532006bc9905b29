import RangeFold.Proofs.Tensor.Broadcast

/-!
# Combining and broadcasting

Two tensors can be combined when they stretch to a common shape, and it makes no difference whether
they are combined before they are stretched or after. The shape in between, to which the two broadcast
by themselves, does not show, except that an array has to be able to have it.
-/

namespace RangeFold

variable {α β γ : Type}

namespace Tensor

variable [Inhabited α] [Inhabited β] [Inhabited γ]

/-- A tensor stretches to each shape that it fits, and shows there what broadcasting
shows. No element is made up and none is left out. -/
theorem broadcastTo_of_fits {tensor : Tensor α} {target : Shape}
    (fits : tensor.shape.fits target = true) :
    tensor.broadcastTo target = some (tabulate target tensor.spread) := if_pos fits

/-- Combining commutes with broadcasting. Tensors cannot be combined exactly if their shapes do not
broadcast, which is if there is no shape that both fit, or if they broadcast to a shape that no array
can have. Otherwise the outcome has the shape that they broadcast to, it stretches to every shape that
both stretch to, and the stretched outcome holds at each index the combination of what the stretched
tensors hold. -/
theorem combination_exact (function : α → β → γ) (left : Tensor α) (right : Tensor β) :
    (left.combine function right = none ↔ left.shape.broadcast right.shape = none ∨
      ∃ shape, left.shape.broadcast right.shape = some shape ∧ ¬ shape.Storable) ∧
      (left.shape.broadcast right.shape = none ↔
        ∀ target : Shape, ¬ (left.shape.fits target = true ∧ right.shape.fits target = true)) ∧
      ∀ combined, left.combine function right = some combined →
        left.shape.broadcast right.shape = some combined.shape ∧
        ∀ target : Shape, left.shape.fits target = true → right.shape.fits target = true →
          combined.shape.fits target = true ∧
          ∃ wideLeft wideRight wide, left.broadcastTo target = some wideLeft ∧
            right.broadcastTo target = some wideRight ∧ combined.broadcastTo target = some wide ∧
            ∀ index ∈ target.indices,
              wide.get index = function (wideLeft.get index) (wideRight.get index) := by
  refine ⟨combine_eq_none_iff, Shape.broadcast_eq_none_iff, fun combined combines => ?_⟩
  obtain ⟨shape, joins, -, rfl⟩ := combine_eq_some_iff.mp combines
  refine ⟨joins, fun target fitsLeft fitsRight => ?_⟩
  have fits : (left.merge function right shape).shape.fits target = true := by
    obtain ⟨again, joinsAgain, fits⟩ := Shape.broadcast_of_fits fitsLeft fitsRight
    obtain rfl := Option.some.inj (joins.symm.trans joinsAgain)
    exact fits
  refine ⟨fits, _, _, _, broadcastTo_of_fits fitsLeft, broadcastTo_of_fits fitsRight,
    broadcastTo_of_fits fits, fun index inside => ?_⟩
  rw [get_tabulate inside, get_tabulate inside, get_tabulate inside]
  exact spread_combine combines fits inside

/-- A bound without elements that has very many rows. -/
def emptyBound : Tensor Rat := ⟨[0, 4611686018427387904, 1], [], rfl⟩

/-- A shift without elements that has two columns. -/
def emptyShift : Tensor Rat := ⟨[0, 1, 2], [], rfl⟩

/-- Shapes that broadcast are not always enough. Both tensors stretch to a common shape without
elements, but twice as many rows are more than an array can have. -/
theorem emptyBound_not_shifted :
    Shape.broadcast emptyBound.shape emptyShift.shape = some [0, 4611686018427387904, 2] ∧
      emptyBound.combine (· + ·) emptyShift = none := by
  have joins : Shape.broadcast emptyBound.shape emptyShift.shape = some [0, 4611686018427387904, 2] := by
    decide +kernel
  have large : ¬ Shape.Storable [0, 4611686018427387904, 2] := by decide +kernel
  exact ⟨joins, combine_eq_none_iff.mpr (.inr ⟨_, joins, large⟩)⟩

/-- A bound for each row. -/
def rowBound : Tensor Rat := ⟨[2, 1], [1, 2], rfl⟩

/-- A value for each column. -/
def columnShift : Tensor Rat := ⟨[3], [10, 20, 30], rfl⟩

/-- Rows and columns are both stretched, and a batch of the outcome is as well.
Combining first and stretching then gives the same as stretching both first. -/
theorem rowBound_shifted :
    ∃ shifted, rowBound.combine (· + ·) columnShift = some shifted ∧ shifted.shape = [2, 3] ∧
      shifted.shape.fits [4, 2, 3] = true ∧
      ∃ wideBound wideShift wide, rowBound.broadcastTo [4, 2, 3] = some wideBound ∧
        columnShift.broadcastTo [4, 2, 3] = some wideShift ∧
        shifted.broadcastTo [4, 2, 3] = some wide ∧
        wide.get [3, 1, 2] = wideBound.get [3, 1, 2] + wideShift.get [3, 1, 2] := by
  obtain ⟨refused, -, shown⟩ := combination_exact (· + ·) rowBound columnShift
  have fitsBound : Shape.fits rowBound.shape [4, 2, 3] = true := by decide +kernel
  have fitsShift : Shape.fits columnShift.shape [4, 2, 3] = true := by decide +kernel
  have shape : Shape.broadcast rowBound.shape columnShift.shape = some [2, 3] := by decide +kernel
  have stored : Shape.Storable [2, 3] := by decide
  cases combines : rowBound.combine (· + ·) columnShift with
  | none =>
    rcases refused.mp combines with apart | ⟨other, joins, large⟩
    · cases shape.symm.trans apart
    · obtain rfl := Option.some.inj (shape.symm.trans joins)
      exact absurd stored large
  | some shifted =>
    obtain ⟨joins, stretched⟩ := shown shifted combines
    obtain ⟨fits, wideBound, wideShift, wide, bound, shift, outcome, same⟩ :=
      stretched [4, 2, 3] fitsBound fitsShift
    exact ⟨shifted, rfl, Option.some.inj (joins.symm.trans shape), fits, wideBound, wideShift, wide,
      bound, shift, outcome, same [3, 1, 2] (by decide +kernel)⟩

end Tensor

end RangeFold
