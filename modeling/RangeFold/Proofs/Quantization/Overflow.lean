import RangeFold.Proofs.Number.Rounding
import RangeFold.Proofs.Quantization.Validity

/-!
# Snapping in floating point

In floating point every operation rounds, and what is too large becomes infinite. Between the input
bounds snapping forms two distances, the one of the input bounds and the one of the output bounds, and
adds the low output at the end. Finite bounds may be too far apart for this. If the distances and that
sum are finite, nothing else overflows: rounding keeps the order, so the place of a value is between zero
and one, its level is none that the range does not have, and what is added to the low output is no more
than the distance of the outputs.

The high input bound is the value to look at. It has the last level, so all the room that any value may
need is needed by it.
-/

namespace RangeFold

variable {format : Format}

section Parts

variable (value low high : Binary format)

/-- The value is above the low bound and not above the high one. -/
def Between : Prop := low.lt value = true ∧ value.le high = true

/-- The place of a value between bounds, as a portion of their distance. -/
def placeOf : Binary format := (value.sub low).div (high.sub low)

/-- The portion of the level that is nearest to a place. -/
def portionOf (place : Binary format) (levels : Int) : Binary format :=
  ((place.mul (.ofInt (levels - 1))).nearestInteger).div (.ofInt (levels - 1))

/-- The point that a portion of the distance of two bounds leads to. -/
def pointOf (portion low high : Binary format) : Binary format := (portion.mul (high.sub low)).add low

/-- The bounds have a finite distance, also when it is added to the low one. -/
structure OutputRoom : Prop where
  distance : (high.sub low).isFinite = true
  sum : ((high.sub low).add low).isFinite = true

end Parts

section Between

variable {value inputLow inputHigh : Binary format} {exact low high : Rat}

/-- For numbers that denote something, lying between the bounds is a matter of the
rationals denoted. -/
theorem between_iff (given : value.Denotes exact) (lower : inputLow.Denotes low)
    (upper : inputHigh.Denotes high) :
    Between value inputLow inputHigh ↔ low < exact ∧ exact ≤ high :=
  and_congr (lower.lt_iff given) (given.le_iff upper)

/-- Between the bounds a value is placed, moved to the nearest level and put between the outputs; any
other value becomes one of the outputs. -/
theorem quantizeValue_cases (given : value.Denotes exact) (lower : inputLow.Denotes low)
    (upper : inputHigh.Denotes high) (ordered : low ≤ high) (outputLow outputHigh : Binary format)
    (levels : Int) :
    let outcome := quantizeValue value inputLow inputHigh outputLow outputHigh levels
    (Between value inputLow inputHigh → outcome =
      pointOf (portionOf (placeOf value inputLow inputHigh) levels) outputLow outputHigh) ∧
    (¬ Between value inputLow inputHigh → outcome = outputLow ∨ outcome = outputHigh) := by
  have inOrder : inputLow.le inputHigh = true := (lower.le_iff upper).mpr ordered
  have lesser : Arithmetic.lesser inputLow inputHigh = inputLow := by
    simp [Arithmetic.lesser, Arithmetic.same, Arithmetic.le, lower.same_self, upper.same_self, inOrder]
  have greater : Arithmetic.greater inputLow inputHigh = inputHigh := by
    simp [Arithmetic.greater, Arithmetic.same, Arithmetic.le, lower.same_self, upper.same_self, inOrder]
  have below : Arithmetic.le value inputLow = true ↔ exact ≤ low := given.le_iff lower
  have beyond : Arithmetic.lt inputHigh value = true ↔ high < exact := upper.lt_iff given
  unfold quantizeValue
  rw [lesser, greater]
  simp only [below, beyond, between_iff given lower upper]
  constructor
  · rintro ⟨above, within⟩
    rw [if_neg (not_le.mpr above), if_neg (not_lt.mpr within)]
    rfl
  · intro outside
    split
    · exact .inl rfl
    · split
      · exact .inr rfl
      · rename_i above within
        exact absurd ⟨not_le.mp above, not_lt.mp within⟩ outside

end Between

section Room

variable {value place portion low high : Binary format} {exact bottom top : Rat} {levels : Int}

/-- A value whose distance from the low bound is finite has a place between zero and one. It has the
place zero if the bounds are too far apart for their distance. -/
theorem placeOf_within (given : value.Denotes exact) (lower : low.Denotes bottom)
    (upper : high.Denotes top) (between : Between value low high)
    (finite : (value.sub low).isFinite = true) (unit : format.Represents 1) :
    (placeOf value low high).Within 0 1 := by
  obtain ⟨above, within⟩ := (between_iff given lower upper).mp between
  have part := given.sub lower ((given.isFinite_sub lower).mp finite)
  by_cases holds : format.Holds (top - bottom)
  · have positive := lower.rounded_sub_pos upper (above.trans_le within)
    have nonneg := lower.rounded_sub_pos given above
    refine Binary.div_within part (upper.sub lower holds) given.represents_zero unit positive.ne'
      (div_nonneg nonneg.le positive.le) ?_
    rw [div_le_one positive]
    exact format.rounded_mono (sub_le_sub_right within bottom)
  · obtain ⟨zeroSign, same⟩ := upper.sub_eq lower
    obtain ⟨negative, infinity⟩ := Binary.round_of_not_holds zeroSign holds
    obtain ⟨sign, zero⟩ := part.div_infinite negative
    rw [placeOf, same, infinity, zero]
    exact ⟨0, Binary.zero_denotes sign given.infinity_pos, le_rfl, zero_le_one⟩

/-- The high bound has the place one. Both distances are the same number, and its
quotient by itself is exact. -/
theorem placeOf_high (lower : low.Denotes bottom) (upper : high.Denotes top) (apart : bottom < top)
    (finite : (high.sub low).isFinite = true) (unit : format.Represents 1) :
    (placeOf high low high).Within 1 1 := by
  have part := upper.sub lower ((upper.isFinite_sub lower).mp finite)
  have whole := div_self (lower.rounded_sub_pos upper apart).ne'
  exact Binary.div_within part part unit unit (lower.rounded_sub_pos upper apart).ne' whole.ge whole.le

/-- The number of steps is rounded to a whole number. Large numbers of levels are
not represented exactly, but none becomes a fraction. -/
theorem steps_denotes (enough : 2 ≤ levels) (counted : format.Holds (levels - 1 : Int))
    (unit : format.Represents 1) : ∃ count : Int,
      (Binary.ofInt (levels - 1) : Binary format).Denotes count ∧ (1 : Rat) ≤ count := by
  obtain ⟨count, whole⟩ := Format.exists_rounded_eq_intCast (by omega) counted
  have denotes := Binary.round_denotes false counted
  rw [whole] at denotes
  refine ⟨count, denotes, ?_⟩
  rw [← whole, ← unit.exact]
  exact format.rounded_mono (by exact_mod_cast (by omega : (1 : Int) ≤ levels - 1))

/-- The nearest level to a place between zero and one, or at one, is there too.
Products, integers and quotients all stay between the two. -/
theorem portionOf_within {start : Int} (either : start = 0 ∨ start = 1)
    (placed : place.Within start 1) (enough : 2 ≤ levels)
    (counted : format.Holds (levels - 1 : Int)) (unit : format.Represents 1) :
    (portionOf place levels).Within start 1 := by
  obtain ⟨count, steps, some⟩ := steps_denotes enough counted unit
  obtain ⟨portion, denotes, above, below⟩ := placed
  have positive : (0 : Rat) < count := by linarith
  have zero := steps.represents_zero
  have first : format.Represents start := by
    obtain rfl | rfl := either
    · exact_mod_cast zero
    · exact_mod_cast unit
  have firstStep : format.Represents (start * count : Int) := by
    obtain rfl | rfl := either
    · simpa using zero
    · simpa using steps.represents
  obtain ⟨moved, movedDenotes, movedAbove, movedBelow⟩ :=
    Binary.mul_within denotes steps firstStep steps.represents
      (by push_cast; exact mul_le_mul_of_nonneg_right above positive.le)
      (mul_le_of_le_one_left positive.le below)
  obtain ⟨level, levelDenotes, levelAbove, levelBelow⟩ :=
    Binary.nearestInteger_within movedDenotes firstStep steps.represents
      (by exact_mod_cast le_nearestInt movedAbove) (by exact_mod_cast nearestInt_le movedBelow)
  refine Binary.div_within levelDenotes steps first unit positive.ne' ?_ ?_
  · rw [le_div_iff₀ positive]
    exact_mod_cast levelAbove
  · rwa [div_le_one positive]

/-- With room between the outputs, a portion between zero and one leads to a finite
point. Neither the product nor the sum can leave what the whole distance needs. -/
theorem isFinite_pointOf (lower : low.Denotes bottom) (upper : high.Denotes top)
    (ordered : bottom ≤ top) (within : portion.Within 0 1) (room : OutputRoom low high) :
    (pointOf portion low high).isFinite = true := by
  obtain ⟨exact, denotes, above, below⟩ := within
  have distance := upper.sub lower ((upper.isFinite_sub lower).mp room.distance)
  have nonneg := format.rounded_nonneg (sub_nonneg.mpr ordered)
  obtain ⟨scaled, scaledDenotes, scaledAbove, scaledBelow⟩ :=
    Binary.mul_within denotes distance lower.represents_zero distance.represents
      (mul_nonneg above nonneg) (mul_le_of_le_one_left nonneg below)
  exact (scaledDenotes.isFinite_add lower).mpr (lower.represents.holds.between
    ((distance.isFinite_add lower).mp room.sum) (by linarith) (by linarith))

/-- The portion one leads to a finite point only if there is room between the
outputs. The point is the sum of the distance and the low bound then. -/
theorem outputRoom_of_isFinite (lower : low.Denotes bottom) (upper : high.Denotes top)
    (whole : portion.Within 1 1) (finite : (pointOf portion low high).isFinite = true) :
    OutputRoom low high := by
  have apart : (high.sub low).isFinite = true :=
    (Binary.isFinite_of_mul (Binary.isFinite_of_add finite).1).2
  have distance := upper.sub lower ((upper.isFinite_sub lower).mp apart)
  obtain ⟨exact, denotes, above, below⟩ := whole
  obtain rfl : exact = 1 := le_antisymm below above
  have same := one_mul (format.rounded (top - bottom))
  obtain ⟨scaled, scaledDenotes, scaledAbove, scaledBelow⟩ :=
    Binary.mul_within denotes distance distance.represents distance.represents same.ge same.le
  obtain rfl := le_antisymm scaledBelow scaledAbove
  exact ⟨apart, (distance.isFinite_add lower).mpr ((scaledDenotes.isFinite_add lower).mp finite)⟩

/-- A finite point between the bounds has come from finite distances. The distance
of the input bounds may be infinite at that, the place being zero. -/
theorem distances_of_isFinite {outputLow outputHigh : Binary format} (finite : (pointOf
    (portionOf (placeOf value low high) levels) outputLow outputHigh).isFinite = true) :
    (value.sub low).isFinite = true ∧ (outputHigh.sub outputLow).isFinite = true := by
  obtain ⟨scaled, -⟩ := Binary.isFinite_of_add finite
  obtain ⟨portion, distance⟩ := Binary.isFinite_of_mul scaled
  have level := Binary.isFinite_of_nearestInteger (Binary.isFinite_of_div portion)
  exact ⟨Binary.isFinite_of_div (Binary.isFinite_of_mul level).1, distance⟩

end Room

/-- Two finite numbers in order. -/
structure FiniteBounds (low high : Binary format) : Prop where
  lower : low.isFinite = true
  upper : high.isFinite = true
  ordered : low.le high = true

/-- Finite bounds denote rationals in the order of the bounds. From here on the
argument is about rationals. -/
theorem FiniteBounds.denote {low high : Binary format} (bounds : FiniteBounds low high) :
    ∃ bottom top, low.Denotes bottom ∧ high.Denotes top ∧ bottom ≤ top := by
  obtain ⟨bottom, lower⟩ := Binary.isFinite_iff.mp bounds.lower
  obtain ⟨top, upper⟩ := Binary.isFinite_iff.mp bounds.upper
  exact ⟨bottom, top, lower, upper, (lower.le_iff upper).mp bounds.ordered⟩

/-- If the value is between the input bounds, its distance from the low one is finite and there is room
between the outputs. Nothing is asked of any other value. -/
def HasRoom (value inputLow inputHigh outputLow outputHigh : Binary format) : Prop :=
  Between value inputLow inputHigh →
    (value.sub inputLow).isFinite = true ∧ OutputRoom outputLow outputHigh

section Element

variable {value inputLow inputHigh outputLow outputHigh : Binary format} {levels : Int}
  (input : FiniteBounds inputLow inputHigh) (output : FiniteBounds outputLow outputHigh)

include input

/-- Between the input bounds, only finite distances lead to a finite outcome.
Snapping inside the bounds is placing and putting back. -/
theorem distances_finite (given : value.isFinite = true) (between : Between value inputLow inputHigh)
    (finite : (quantizeValue value inputLow inputHigh outputLow outputHigh levels).isFinite = true) :
    (value.sub inputLow).isFinite = true ∧ (outputHigh.sub outputLow).isFinite = true := by
  obtain ⟨exact, given⟩ := Binary.isFinite_iff.mp given
  obtain ⟨low, high, lower, upper, ordered⟩ := input.denote
  rw [(quantizeValue_cases given lower upper ordered outputLow outputHigh levels).1 between] at finite
  exact distances_of_isFinite finite

/-- No value needs more room than the high input bound. Every distance from the low
bound is within that of the high one. -/
theorem HasRoom.of_high (given : value.isFinite = true)
    (room : HasRoom inputHigh inputLow inputHigh outputLow outputHigh) :
    HasRoom value inputLow inputHigh outputLow outputHigh := by
  intro between
  obtain ⟨exact, given⟩ := Binary.isFinite_iff.mp given
  obtain ⟨low, high, lower, upper, -⟩ := input.denote
  obtain ⟨above, within⟩ := (between_iff given lower upper).mp between
  obtain ⟨distance, outputRoom⟩ :=
    room ((between_iff upper lower upper).mpr ⟨above.trans_le within, le_rfl⟩)
  have holds := (upper.isFinite_sub lower).mp distance
  exact ⟨(given.isFinite_sub lower).mpr
    (given.represents_zero.holds.between holds (by linarith) (by linarith)), outputRoom⟩

include output

variable (enough : 2 ≤ levels) (counted : format.Holds (levels - 1 : Int)) (unit : format.Represents 1)

include enough counted unit

/-- A value that is not between the input bounds is snapped to a finite number in any case, and one
between them if its distance from the low bound is finite and there is room between the outputs. -/
theorem isFinite_quantizeValue (given : value.isFinite = true)
    (room : HasRoom value inputLow inputHigh outputLow outputHigh) :
    (quantizeValue value inputLow inputHigh outputLow outputHigh levels).isFinite = true := by
  obtain ⟨exact, given⟩ := Binary.isFinite_iff.mp given
  obtain ⟨low, high, lower, upper, ordered⟩ := input.denote
  obtain ⟨bottom, top, lowerOutput, upperOutput, orderedOutput⟩ := output.denote
  obtain ⟨inside, outside⟩ :=
    quantizeValue_cases given lower upper ordered outputLow outputHigh levels
  by_cases between : Between value inputLow inputHigh
  · obtain ⟨distance, outputRoom⟩ := room between
    have placed := placeOf_within given lower upper between distance unit
    rw [inside between]
    exact isFinite_pointOf lowerOutput upperOutput orderedOutput
      (by simpa using portionOf_within (.inl rfl) (by simpa using placed) enough counted unit) outputRoom
  · obtain same | same := outside between
    · rw [same]
      exact output.lower
    · rw [same]
      exact output.upper

/-- The high input bound is snapped to a finite number only if it has room. Its
portion is one, so the whole distance is formed and added. -/
theorem hasRoom_of_isFinite (finite :
    (quantizeValue inputHigh inputLow inputHigh outputLow outputHigh levels).isFinite = true) :
    HasRoom inputHigh inputLow inputHigh outputLow outputHigh := by
  intro between
  obtain ⟨low, high, lower, upper, ordered⟩ := input.denote
  obtain ⟨bottom, top, lowerOutput, upperOutput, -⟩ := output.denote
  have apart := ((between_iff upper lower upper).mp between).1
  have distance := (distances_finite input input.upper between finite).1
  have placed := placeOf_high lower upper apart distance unit
  rw [(quantizeValue_cases upper lower upper ordered outputLow outputHigh levels).1 between] at finite
  exact ⟨distance, outputRoom_of_isFinite lowerOutput upperOutput
    (by simpa using portionOf_within (.inr rfl) (by simpa using placed) enough counted unit) finite⟩

end Element

/-- Every element is a finite number. -/
def Tensor.AllFinite (tensor : Tensor (Binary format)) : Prop :=
  ∀ value ∈ tensor.data, value.isFinite = true

section Elements

variable {target : Shape} {index : Index}

/-- Every element read inside an array of finite numbers is finite. -/
theorem Tensor.AllFinite.get {tensor : Tensor (Binary format)} (finite : tensor.AllFinite)
    (inside : index ∈ tensor.shape.indices) : (tensor.get index).isFinite = true := by
  have stored := Shape.offset_lt_volume inside
  rw [← tensor.size_eq] at stored
  rw [Tensor.get, List.getElem?_eq_getElem stored]
  exact finite _ (List.getElem_mem stored)

/-- A tabulated array is finite if it is so at every index it was tabulated at. -/
theorem Tensor.allFinite_tabulate {element : Index → Binary format} :
    (Tensor.tabulate target element).AllFinite ↔
      ∀ index ∈ target.indices, (element index).isFinite = true := by
  simp [Tensor.AllFinite, Tensor.tabulate, Tensor.elements_eq]

/-- Spreading a finite array to a larger shape reads finite elements only, each
position being projected to one inside. -/
theorem Tensor.AllFinite.spread {tensor : Tensor (Binary format)} (finite : tensor.AllFinite)
    (fits : tensor.shape.fits target = true) (inside : index ∈ target.indices) :
    (tensor.spread index).isFinite = true := finite.get (Shape.project_mem fits inside)

/-- Finite bounds in order are so wherever they are stretched to. Every place of the
target reads one element of each, and those are in order. -/
theorem QuantRange.Ordered.finiteBounds {low high : Tensor (Binary format)} (ordered : Ordered low high)
    (finiteLow : low.AllFinite) (finiteHigh : high.AllFinite) (fitsLow : low.shape.fits target = true)
    (fitsHigh : high.shape.fits target = true) (inside : index ∈ target.indices) :
    FiniteBounds (low.spread index) (high.spread index) where
  lower := finiteLow.spread fitsLow inside
  upper := finiteHigh.spread fitsHigh inside
  ordered := by
    obtain ⟨joined, joins, compared⟩ := ordered
    obtain ⟨same, joinsToo, fits⟩ := Shape.broadcast_of_fits fitsLow fitsHigh
    obtain rfl : joined = same := Option.some.inj (joins.symm.trans joinsToo)
    obtain ⟨stretchesLow, stretchesHigh⟩ := Shape.fits_of_broadcast joins
    have placed := compared (joined.project index) (Shape.project_mem fits inside)
    simp only [Tensor.spread, Shape.project_project stretchesLow fits inside,
      Shape.project_project stretchesHigh fits inside] at placed
    exact placed

end Elements

namespace QuantRange

/-- Every element of every bound is a finite number. -/
def AllFinite (range : QuantRange (Binary format)) : Prop :=
  ∀ label bound, (label, bound) ∈ range.bounds → bound.AllFinite

/-- A range is finite when its four bounds are. -/
theorem allFinite_iff {range : QuantRange (Binary format)} : range.AllFinite ↔
    range.inputLow.AllFinite ∧ range.inputHigh.AllFinite ∧
      range.outputLow.AllFinite ∧ range.outputHigh.AllFinite := forall_bounds_iff

/-- The value is between the input bounds at the index. -/
def BetweenAt (range : QuantRange (Binary format)) (index : Index) (value : Binary format) : Prop :=
  Between value (range.inputLow.spread index) (range.inputHigh.spread index)

/-- The value has room at the index. -/
def HasRoomAt (range : QuantRange (Binary format)) (index : Index) (value : Binary format) : Prop :=
  HasRoom value (range.inputLow.spread index) (range.inputHigh.spread index)
    (range.outputLow.spread index) (range.outputHigh.spread index)

end QuantRange

section Single

/-- The 32-bit format has one among its numbers, as the levels and portions need. -/
theorem binary32_represents_one : Format.binary32.Represents 1 where
  holds := by
    show Format.binary32.nearestRank |1| < Format.binary32.infinity
    decide +kernel
  exact := by decide +kernel

/-- As many steps as a 64-bit number counts are finite. The format reaches far
beyond them. -/
theorem binary32_holds_steps {levels : Int} (enough : 2 ≤ levels) (counted : levels < 2 ^ 63) :
    Format.binary32.Holds (levels - 1 : Int) := by
  have many : Format.binary32.Holds (2 ^ 63 : Int) := by
    show Format.binary32.nearestRank |((2 ^ 63 : Int) : Rat)| < Format.binary32.infinity
    decide +kernel
  refine binary32_represents_one.holds.between many ?_ ?_
  · exact_mod_cast (by omega : (1 : Int) ≤ levels - 1)
  · exact_mod_cast (by omega : levels - 1 ≤ 2 ^ 63)

variable {range : QuantRange Binary32} {shape : Shape} {label : String}

/-- Snapping finite data with a valid range of finite bounds, in single precision. It succeeds for all data
that the bounds fit. An element is finite if it has room, as every element has that is not between the
input bounds; and no element between them is unless its own distance and that of the outputs are. So all
outcomes of all data are finite exactly if the high input bounds have room. -/
theorem snapping_finite_iff (passes : range.validate label = .ok ()) (counted : range.levels < 2 ^ 63)
    (finite : range.AllFinite) (fits : range.Fits shape) (node : String) :
    (∀ data : Tensor Binary32, data.shape = shape → data.AllFinite → ∃ result,
      range.apply node data = .ok result ∧ result.shape = shape ∧ ∀ index ∈ shape.indices,
        (range.HasRoomAt index (data.get index) → (result.get index).isFinite = true) ∧
        ((result.get index).isFinite = true → range.BetweenAt index (data.get index) →
          ((data.get index).sub (range.inputLow.spread index)).isFinite = true ∧
            ((range.outputHigh.spread index).sub (range.outputLow.spread index)).isFinite = true)) ∧
    ((∀ data result : Tensor Binary32, data.shape = shape → data.AllFinite →
        range.apply node data = .ok result → result.AllFinite) ↔
      ∀ index ∈ shape.indices, range.HasRoomAt index (range.inputHigh.spread index)) := by
  obtain ⟨⟨enough, orderedInput, orderedOutput⟩, -⟩ := QuantRange.validate_eq_ok_iff.mp passes
  obtain ⟨finiteLow, finiteHigh, finiteBottom, finiteTop⟩ := QuantRange.allFinite_iff.mp finite
  obtain ⟨fitsLow, fitsHigh, fitsBottom, fitsTop⟩ := QuantRange.fits_iff.mp fits
  have steps := binary32_holds_steps enough counted
  have input {index : Index} (inside : index ∈ shape.indices) :=
    orderedInput.finiteBounds finiteLow finiteHigh fitsLow fitsHigh inside
  have output {index : Index} (inside : index ∈ shape.indices) :=
    orderedOutput.finiteBounds finiteBottom finiteTop fitsBottom fitsTop inside
  constructor
  · rintro data rfl finiteData
    refine ⟨range.snapped data, QuantRange.apply_eq_ok_iff.mpr ⟨enough, fits, rfl⟩, rfl,
      fun index inside => ?_⟩
    rw [QuantRange.snapped, Tensor.get_tabulate inside]
    have given := finiteData.get inside
    exact ⟨isFinite_quantizeValue (input inside) (output inside) enough steps
        binary32_represents_one given,
      fun finite between => distances_finite (input inside) given between finite⟩
  constructor
  · intro always index inside
    -- the high input bounds are data too
    have finiteData : (Tensor.tabulate shape range.inputHigh.spread).AllFinite :=
      Tensor.allFinite_tabulate.mpr fun index inside => (input inside).upper
    have snaps := always (Tensor.tabulate shape range.inputHigh.spread) _ rfl finiteData
      (QuantRange.apply_eq_ok_iff.mpr ⟨enough, fits, rfl⟩)
    have element := Tensor.allFinite_tabulate.mp snaps index inside
    rw [Tensor.get_tabulate inside] at element
    exact hasRoom_of_isFinite (input inside) (output inside) enough steps binary32_represents_one element
  · rintro room data result rfl finiteData applied
    obtain ⟨-, -, rfl⟩ := QuantRange.apply_eq_ok_iff.mp applied
    refine Tensor.allFinite_tabulate.mpr fun index inside => ?_
    have given := finiteData.get inside
    exact isFinite_quantizeValue (input inside) (output inside) enough steps binary32_represents_one given
      (HasRoom.of_high (input inside) given (room index inside))

/-- The largest finite number. -/
def largest : Binary32 := .ofBits 0x7f7fffff

/-- Input bounds whose distance is infinite. -/
def widest : QuantRange Binary32 :=
  ⟨.scalar largest.neg, .scalar largest, .scalar (.ofInt 0), .scalar (.ofInt 1), 2⟩

/-- The distance of the value and that of the bounds are both infinite and have no
quotient. The check passes nevertheless, as it compares bounds and forms no
distance. -/
theorem widest_overflows : widest.validate "q" = .ok () ∧ widest.AllFinite ∧
    (Tensor.vector [largest]).AllFinite ∧ ∃ result,
      widest.apply "q" (.vector [largest]) = .ok result ∧ result.data = [.nan] ∧
        ¬ result.AllFinite := by
  have snaps : (widest.snapped (.vector [largest])).data = [.nan] := by decide +kernel
  refine ⟨by decide +kernel, QuantRange.allFinite_iff.mpr ?_, ?_, widest.snapped (.vector [largest]),
    QuantRange.apply_eq_ok_iff.mpr ⟨by decide, QuantRange.fits_iff.mpr (by decide), rfl⟩, snaps, ?_⟩
  · unfold Tensor.AllFinite
    decide +kernel
  · unfold Tensor.AllFinite
    decide +kernel
  · intro finite
    have absent := finite .nan (by rw [snaps]; exact List.mem_singleton_self _)
    cases absent

/-- Input bounds whose distance is just finite. -/
def wide : QuantRange Binary32 :=
  ⟨.scalar (.ofInt (-2 ^ 126)), .scalar (.ofInt (2 ^ 126)), .scalar (.ofInt 0), .scalar (.ofInt 1), 256⟩

/-- Whatever finite data is snapped with these bounds, the outcome is finite. The
room needed at the high input bound is there. -/
theorem wide_finite : wide.validate "q" = .ok () ∧ wide.levels < 2 ^ 63 ∧ wide.AllFinite ∧
    wide.Fits [2, 3] ∧ ∀ data : Tensor Binary32, data.shape = [2, 3] → data.AllFinite →
      ∃ result, wide.apply "q" data = .ok result ∧ result.AllFinite := by
  have passes : wide.validate "q" = .ok () := by decide +kernel
  have counted : wide.levels < 2 ^ 63 := by decide
  have finite : wide.AllFinite := by
    refine QuantRange.allFinite_iff.mpr ?_
    unfold Tensor.AllFinite
    decide +kernel
  have fits : wide.Fits [2, 3] := QuantRange.fits_iff.mpr (by decide)
  obtain ⟨succeeds, always⟩ := snapping_finite_iff passes counted finite fits "q"
  have room : ∀ index ∈ Shape.indices [2, 3], wide.HasRoomAt index (wide.inputHigh.spread index) := by
    refine fun index _ _ => ⟨?_, ?_, ?_⟩
    · show ((.ofInt (2 ^ 126) : Binary32).sub (.ofInt (-2 ^ 126))).isFinite = true
      decide +kernel
    · show ((.ofInt 1 : Binary32).sub (.ofInt 0)).isFinite = true
      decide +kernel
    · show (((.ofInt 1 : Binary32).sub (.ofInt 0)).add (.ofInt 0)).isFinite = true
      decide +kernel
  refine ⟨passes, counted, finite, fits, fun data shaped finiteData => ?_⟩
  obtain ⟨result, applied, -⟩ := succeeds data shaped finiteData
  exact ⟨result, applied, always.mpr room data result shaped finiteData applied⟩

end Single

end RangeFold
