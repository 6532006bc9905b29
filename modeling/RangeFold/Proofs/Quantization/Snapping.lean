import RangeFold.Proofs.Pass.BoundFusion
import RangeFold.Proofs.Tensor.Broadcast
import Mathlib.Tactic.Ring

/-!
# Snapping and its output bounds

What a range makes of a value depends on the output bounds in one way only: a snapped value is the
low output, the high output or a point between them in a proportion that the inputs alone decide.
In exact arithmetic a function that keeps proportions can therefore be applied to the output bounds
instead of the snapped values. Multiplying by an operand and adding one are such functions, and
the operand may differ from element to element.
-/

namespace RangeFold

variable {α : Type} [Arithmetic α]

/-- Combining the output bounds with an operand combines the snapped value with it. -/
def Carries (function : α → α → α) : Prop :=
  ∀ operand value inputLow inputHigh outputLow outputHigh levels,
    quantizeValue value inputLow inputHigh (function outputLow operand)
        (function outputHigh operand) levels =
      function (quantizeValue value inputLow inputHigh outputLow outputHigh levels) operand

namespace QuantRange

/-- With output bounds combined with an operand, a range makes of every value the combination of
what it made of it before with the operand. -/
theorem snapped_mapOutput {range edited : QuantRange α} {function : α → α → α}
    (carries : Carries function) {operand : Tensor α}
    (edits : range.mapOutput function operand = some edited) {data : Tensor α}
    (low : edited.outputLow.shape.fits data.shape = true)
    (high : edited.outputHigh.shape.fits data.shape = true) :
    edited.snapped data = Tensor.tabulate data.shape fun index =>
      function ((range.snapped data).spread index) (operand.spread index) := by
  obtain ⟨outputLow, outputHigh, combinesLow, combinesHigh, rfl⟩ :=
    mapOutput_eq_some_iff.mp edits
  refine Tensor.tabulate_congr fun index inside => ?_
  have shown : (range.snapped data).spread index = quantizeValue (data.get index)
      (range.inputLow.spread index) (range.inputHigh.spread index) (range.outputLow.spread index)
      (range.outputHigh.spread index) range.levels := Tensor.spread_tabulate inside
  rw [shown, ← carries]
  show quantizeValue _ (range.inputLow.spread index) (range.inputHigh.spread index)
    (outputLow.spread index) (outputHigh.spread index) range.levels = _
  rw [Tensor.spread_combine combinesLow low inside, Tensor.spread_combine combinesHigh high inside]

end QuantRange

section Exact

/-- The function maps what lies between two values in some proportion to what lies between their
images in that proportion. -/
def Proportional (function : Rat → Rat) : Prop :=
  ∀ portion low high, function (portion * (high - low) + low) =
    portion * (function high - function low) + function low

/-- A function that keeps proportions carries over snapping, since a snapped value
is either an output bound or divides their distance in some proportion. -/
theorem carries_of_proportional {function : Rat → Rat → Rat}
    (proportional : ∀ operand, Proportional (function · operand)) : Carries function := by
  intro operand value inputLow inputHigh outputLow outputHigh levels
  unfold quantizeValue
  split
  · rfl
  · split
    · rfl
    · exact (proportional operand _ _ _).symm

/-- Multiplication keeps proportions, by distributivity. -/
theorem carries_mul : Carries (Arithmetic.mul : Rat → Rat → Rat) := by
  refine carries_of_proportional fun factor portion low high => ?_
  show (portion * (high - low) + low) * factor =
    portion * (high * factor - low * factor) + low * factor
  ring

/-- Addition keeps proportions: the operand drops out of the distance. -/
theorem carries_add : Carries (Arithmetic.add : Rat → Rat → Rat) := by
  refine carries_of_proportional fun summand portion low high => ?_
  show portion * (high - low) + low + summand =
    portion * (high + summand - (low + summand)) + (low + summand)
  ring

end Exact

end RangeFold
