import RangeFold.Proofs.Tensor.Broadcast
import RangeFold.Proofs.Typing.Layout

/-!
# Valid ranges

What the check of a range looks for: two levels at least, and bounds in order. Two bounds are in
order if they have a common shape and no element of the lower one, stretched to that shape, exceeds
the element of the upper one beside it. A range that is not valid is reported and not an end to a
run.

To be compared, bounds have to be stretched, and the check breaks off at bounds whose common shape
no array can have. Bounds that fit a value are smaller than the value.
-/

namespace RangeFold.QuantRange

variable {α : Type}

/-- The common shape of two bounds, if they have one, is one that an array can have. -/
def Stretches (low high : Tensor α) : Prop :=
  ∀ shape, low.shape.broadcast high.shape = some shape → shape.Storable

/-- The bounds of either side can be stretched to their common shape. -/
structure Comparable (range : QuantRange α) : Prop where
  input : Stretches range.inputLow range.inputHigh
  output : Stretches range.outputLow range.outputHigh

variable {range : QuantRange α} {label : String}

/-- Bounds that stretch to a shape that an array can have can be stretched to less.
Their common shape is the least one that both fit. -/
theorem stretches_of_fits {low high : Tensor α} {target : Shape} (stored : target.Storable)
    (fitsLow : low.shape.fits target = true) (fitsHigh : high.shape.fits target = true) :
    Stretches low high := by
  intro shape joins
  obtain ⟨again, joinsAgain, fits⟩ := Shape.broadcast_of_fits fitsLow fitsHigh
  obtain rfl := Option.some.inj (joins.symm.trans joinsAgain)
  exact stored.of_fits fits

/-- Bounds that fit a storable shape can be compared with each other: their common
shape fits it as well and is no larger. -/
theorem Fits.comparable {target : Shape} (fits : range.Fits target) (stored : target.Storable) :
    range.Comparable := by
  obtain ⟨inputLow, inputHigh, outputLow, outputHigh⟩ := fits_iff.mp fits
  exact ⟨stretches_of_fits stored inputLow inputHigh,
    stretches_of_fits stored outputLow outputHigh⟩

variable [Arithmetic α]

/-- Over the shape that both bounds stretch to, no element of the lower one exceeds that of the
upper one. -/
def Ordered (low high : Tensor α) : Prop :=
  ∃ shape, low.shape.broadcast high.shape = some shape ∧
    ∀ index ∈ shape.indices, Arithmetic.le (low.spread index) (high.spread index) = true

/-- A range with levels enough and bounds in order. -/
structure Valid (range : QuantRange α) : Prop where
  levels : 2 ≤ range.levels
  input : Ordered range.inputLow range.inputHigh
  output : Ordered range.outputLow range.outputHigh

/-- The elements that are compared are those of the common shape. Broadcasting and
stretching can each fail, one for the shapes and the other for the size. -/
theorem checkOrdered_eq_ok_iff {side : String} {low high : Tensor α} :
    checkOrdered label side low high = .ok () ↔ Ordered low high ∧ Stretches low high := by
  unfold checkOrdered Ordered Stretches
  cases low.shape.broadcast high.shape with
  | none => simp
  | some shape =>
    have compared : (low.merge Arithmetic.le high shape).data.all id = true ↔
        ∀ index ∈ shape.indices, Arithmetic.le (low.spread index) (high.spread index) = true := by
      simp [Tensor.merge, Tensor.tabulate, Tensor.elements_eq]
    simp only [Option.some.injEq, exists_eq_left', forall_eq', ← compared]
    by_cases stored : shape.Storable
    · rw [if_pos stored]
      split <;> simp_all
    · simp [stored]

/-- Bounds that can be stretched fail the check only in a way that is reported. What
is left to find are bounds out of order. -/
theorem recoverable_of_checkOrdered {side : String} {low high : Tensor α} {failure : Failure}
    (stretches : Stretches low high) (refused : checkOrdered label side low high = .error failure) :
    failure.isRecoverable = true := by
  unfold checkOrdered at refused
  split at refused
  · cases refused
    rfl
  · rename_i shape joins
    rw [if_pos (stretches shape joins)] at refused
    split at refused
    · cases refused
    · cases refused
      rfl

/-- The check lets exactly the valid ranges pass, as far as their bounds can be
compared. The order in which the parts are checked does not show in a success. -/
theorem validate_eq_ok_iff : range.validate label = .ok () ↔ range.Valid ∧ range.Comparable := by
  constructor
  · intro passed
    obtain ⟨_, levels, rest⟩ := Attempt.bind_eq_ok_iff.mp passed
    obtain ⟨_, input, output⟩ := Attempt.bind_eq_ok_iff.mp rest
    obtain ⟨orderedInput, stretchesInput⟩ := checkOrdered_eq_ok_iff.mp input
    obtain ⟨orderedOutput, stretchesOutput⟩ := checkOrdered_eq_ok_iff.mp output
    exact ⟨⟨checkLevels_eq_ok_iff.mp levels, orderedInput, orderedOutput⟩,
      stretchesInput, stretchesOutput⟩
  · rintro ⟨⟨levels, input, output⟩, stretchesInput, stretchesOutput⟩
    rw [validate, checkLevels_eq_ok_iff.mpr levels, Attempt.ok_bind,
      checkOrdered_eq_ok_iff.mpr ⟨input, stretchesInput⟩, Attempt.ok_bind,
      checkOrdered_eq_ok_iff.mpr ⟨output, stretchesOutput⟩]

/-- A range that is not valid is reported, if its bounds can be compared at all. A
run goes on after it. -/
theorem recoverable_of_validate {failure : Failure} (comparable : range.Comparable)
    (refused : range.validate label = .error failure) : failure.isRecoverable = true := by
  unfold validate at refused
  cases levels : range.checkLevels label with
  | error other =>
    rw [levels, Attempt.error_bind] at refused
    cases refused
    unfold checkLevels at levels
    split at levels
    · cases levels
      rfl
    · cases levels
  | ok _ =>
    rw [levels, Attempt.ok_bind] at refused
    cases inputs : checkOrdered label "input" range.inputLow range.inputHigh with
    | error other =>
      rw [inputs, Attempt.error_bind] at refused
      cases refused
      exact recoverable_of_checkOrdered comparable.input inputs
    | ok _ =>
      rw [inputs, Attempt.ok_bind] at refused
      exact recoverable_of_checkOrdered comparable.output refused

/-- Bounds in order fail the check only for the size of their common shape, which is not reported. -/
theorem grave_of_checkOrdered {side : String} {low high : Tensor α} {failure : Failure}
    (ordered : Ordered low high) (refused : checkOrdered label side low high = .error failure) :
    failure.isRecoverable = false := by
  obtain ⟨shape, joins, below⟩ := ordered
  by_cases stored : shape.Storable
  · have stretches : Stretches low high := fun other joinsToo =>
      Option.some.inj (joins.symm.trans joinsToo) ▸ stored
    cases (checkOrdered_eq_ok_iff.mpr ⟨⟨shape, joins, below⟩, stretches⟩).symm.trans refused
  · simp only [checkOrdered, joins, if_neg stored] at refused
    cases refused
    rfl

/-- A valid range fails the check only where its bounds cannot be compared, and this
ends a run. Its bounds are in order then, and their size is what the check stumbles
over. -/
theorem grave_of_validate {failure : Failure} (valid : range.Valid)
    (refused : range.validate label = .error failure) : failure.isRecoverable = false := by
  rw [validate, checkLevels_eq_ok_iff.mpr valid.levels, Attempt.ok_bind] at refused
  rcases Attempt.bind_eq_error_iff.mp refused with inputs | ⟨_, -, outputs⟩
  · exact grave_of_checkOrdered valid.input inputs
  · exact grave_of_checkOrdered valid.output outputs

/-- Any other range fails the check, in a way that a run only reports. Which failure
it is depends on the first part that is not right. -/
theorem validate_fails (comparable : range.Comparable) (invalid : ¬ range.Valid) (label : String) :
    ∃ failure, range.validate label = .error failure ∧ failure.isRecoverable = true := by
  cases checked : range.validate label with
  | ok _ => exact absurd (validate_eq_ok_iff.mp checked).1 invalid
  | error failure => exact ⟨failure, rfl, recoverable_of_validate comparable checked⟩

variable {β : Type} {edited : QuantRange α} {labelEdited : String} {answer : β}

/-- Two ranges that are checked in turn pass if both are valid. Fusions check the
range as it is and as it will be. -/
theorem validate_both_eq_ok (comparable : range.Comparable) (comparableEdited : edited.Comparable)
    (valid : range.Valid) (validEdited : edited.Valid) :
    (range.validate label >>= fun _ => edited.validate labelEdited >>= fun _ => pure answer) =
      .ok answer := by
  rw [validate_eq_ok_iff.mpr ⟨valid, comparable⟩, Attempt.ok_bind,
    validate_eq_ok_iff.mpr ⟨validEdited, comparableEdited⟩]
  rfl

/-- If one of them is not valid, the first that is not is reported. The second one
is only looked at if the first is valid. -/
theorem validate_both_fails (comparable : range.Comparable)
    (comparableEdited : edited.Comparable) (invalid : ¬ (range.Valid ∧ edited.Valid)) :
    ∃ failure, (range.validate label >>= fun _ => edited.validate labelEdited >>= fun _ =>
      pure answer) = .error failure ∧ failure.isRecoverable = true := by
  by_cases valid : range.Valid
  · obtain ⟨failure, refused, recoverable⟩ :=
      validate_fails comparableEdited (fun validEdited => invalid ⟨valid, validEdited⟩) labelEdited
    refine ⟨failure, ?_, recoverable⟩
    rw [validate_eq_ok_iff.mpr ⟨valid, comparable⟩, Attempt.ok_bind, refused, Attempt.error_bind]
  · obtain ⟨failure, refused, recoverable⟩ := validate_fails comparable valid label
    exact ⟨failure, by rw [refused, Attempt.error_bind], recoverable⟩

end RangeFold.QuantRange
