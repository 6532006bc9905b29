import RangeFold.Proofs.Number.Nearest
import RangeFold.Quantization.Range
import Mathlib.Data.Finset.Card
import Mathlib.Tactic.FieldSimp

/-!
# Levels in exact arithmetic

A range divides its input bounds into as many steps as it has levels but one. Snapping first decides on
the level of a value, which depends on the input bounds only, and then says where the level lies between
the output bounds. Both keep the order: a value at the low bound has the lowest level, a value above the
high bound the highest one, and the nearest level between them grows with the value. If input and output
bounds are the same, a level lies at a value that has this level, so nothing is left to snap.

A range whose input bounds coincide has no value between them, and no value is then divided by the
distance of the bounds.
-/

namespace RangeFold

section Division

/-- A comparison of numbers that may be missing. Nothing holds of a number that is. -/
def comparePresent (holds : Rat → Rat → Bool) : Option Rat → Option Rat → Bool
  | some left, some right => holds left right
  | _, _ => false

/-- Exact arithmetic in which only a positive number divides. What is computed from a missing number is
missing too, so an outcome that is there was computed without any other division. -/
@[reducible] def positiveDivision : Arithmetic (Option Rat) where
  default := none
  ofInt value := some value
  add left right := do return (← left) + (← right)
  sub left right := do return (← left) - (← right)
  mul left right := do return (← left) * (← right)
  div left right := do if 0 < (← right) then return (← left) / (← right) else none
  neg value := value.map (- ·)
  nearestInteger value := value.map fun present => (nearestInt present : Rat)
  le := comparePresent fun left right => decide (left ≤ right)
  lt := comparePresent fun left right => decide (left < right)
  same := comparePresent fun left right => decide (left = right)
  isFinite := Option.isSome
  text value := (value.map rationalText).getD ""

end Division

/-- The level of a value: the lowest at the low bound or below it, the highest above the high bound, and
between them the nearest one. -/
def levelOf (value inputLow inputHigh : Rat) (levels : Int) : Int :=
  if value ≤ inputLow then 0
  else if inputHigh < value then levels - 1
  else nearestInt ((value - inputLow) / (inputHigh - inputLow) * (levels - 1 : Int))

/-- Where a level lies between two bounds. -/
def levelValue (low high : Rat) (levels level : Int) : Rat :=
  low + level / (levels - 1) * (high - low)

section Level

variable {value other inputLow inputHigh low high : Rat} {levels level larger : Int}

/-- Of two ordered rationals the lesser is the first. -/
theorem lesser_eq (ordered : low ≤ high) : Arithmetic.lesser low high = low := by
  simp [Arithmetic.lesser, Arithmetic.same, Arithmetic.le, ordered]

/-- Of two ordered rationals the greater is the second. -/
theorem greater_eq (ordered : low ≤ high) : Arithmetic.greater low high = high := by
  simp [Arithmetic.greater, Arithmetic.same, Arithmetic.le, ordered]

/-- With two levels or more there is a step between the first and the last, so the
division by their number is by a positive one. -/
theorem steps_pos (enough : 2 ≤ levels) : (0 : Rat) < levels - 1 := by
  have : (2 : Rat) ≤ levels := by exact_mod_cast enough
  linarith

/-- Snapping is to find the level and then its place between the output bounds.
Values outside the input bounds have the first or the last level. -/
theorem quantizeValue_eq (value low high : Rat) (input : inputLow ≤ inputHigh)
    (enough : 2 ≤ levels) : quantizeValue value inputLow inputHigh low high levels =
      levelValue low high levels (levelOf value inputLow inputHigh levels) := by
  have steps := steps_pos enough
  unfold quantizeValue levelOf levelValue
  rw [lesser_eq input, greater_eq input]
  simp only [Arithmetic.le, Arithmetic.lt, decide_eq_true_eq]
  split
  · simp
  · split
    · push_cast
      rw [div_self steps.ne']
      ring
    · simp only [Arithmetic.add, Arithmetic.mul, Arithmetic.div, Arithmetic.sub, Arithmetic.ofInt,
        Arithmetic.nearestInteger]
      push_cast
      ring

/-- Every division that snapping carries out is by a positive number: by the distance of the input
bounds, which is left out if they coincide, and by the number of steps. -/
theorem quantizeValue_positiveDivision (input : inputLow ≤ inputHigh) (enough : 2 ≤ levels) :
    @quantizeValue _ positiveDivision (some value) (some inputLow) (some inputHigh) (some low)
      (some high) levels = some (quantizeValue value inputLow inputHigh low high levels) := by
  have steps : (1 : Rat) < levels := sub_pos.mp (steps_pos enough)
  have lesser : @Arithmetic.lesser _ positiveDivision (some inputLow) (some inputHigh) =
      some inputLow := by
    simp [Arithmetic.lesser, Arithmetic.same, Arithmetic.le, comparePresent, input]
  have greater : @Arithmetic.greater _ positiveDivision (some inputLow) (some inputHigh) =
      some inputHigh := by
    simp [Arithmetic.greater, Arithmetic.same, Arithmetic.le, comparePresent, input]
  unfold quantizeValue
  rw [lesser, greater, lesser_eq input, greater_eq input]
  simp only [comparePresent, Arithmetic.le, Arithmetic.lt, decide_eq_true_eq]
  split
  · rfl
  · split
    · rfl
    · rename_i above within
      have apart : 0 < inputHigh - inputLow := by linarith
      simp [apart, steps, Arithmetic.add, Arithmetic.mul, Arithmetic.div, Arithmetic.sub,
        Arithmetic.ofInt, Arithmetic.nearestInteger]

/-- The place of a value between the bounds, in steps. After rounding it is still
between them, as both are whole. -/
theorem place_bounds (above : inputLow < value) (within : value ≤ inputHigh) (enough : 2 ≤ levels) :
    0 ≤ (value - inputLow) / (inputHigh - inputLow) * (levels - 1 : Int) ∧
      (value - inputLow) / (inputHigh - inputLow) * (levels - 1 : Int) ≤ (levels - 1 : Int) := by
  have steps : (0 : Rat) < (levels - 1 : Int) := by exact_mod_cast steps_pos enough
  have apart : 0 < inputHigh - inputLow := by linarith
  have portion : (value - inputLow) / (inputHigh - inputLow) ≤ 1 := by
    rw [div_le_one apart]
    linarith
  have start : 0 ≤ (value - inputLow) / (inputHigh - inputLow) :=
    div_nonneg (by linarith) apart.le
  exact ⟨mul_nonneg start steps.le, by nlinarith⟩

/-- The level of a value is one of those the range has, wherever the value and the
bounds lie. -/
theorem levelOf_bounds (value inputLow inputHigh : Rat) (enough : 2 ≤ levels) :
    0 ≤ levelOf value inputLow inputHigh levels ∧
      levelOf value inputLow inputHigh levels ≤ levels - 1 := by
  unfold levelOf
  split
  · omega
  · split
    · omega
    · rename_i above within
      obtain ⟨start, finish⟩ := place_bounds (not_le.mp above) (not_lt.mp within) enough
      exact ⟨le_nearestInt (by simpa using start), nearestInt_le finish⟩

/-- A greater value has no lower level. Rounding to the nearest level keeps the
order. -/
theorem levelOf_mono (enough : 2 ≤ levels) (ordered : value ≤ other) :
    levelOf value inputLow inputHigh levels ≤ levelOf other inputLow inputHigh levels := by
  by_cases low : value ≤ inputLow
  · rw [levelOf, if_pos low]
    exact (levelOf_bounds other inputLow inputHigh enough).1
  · by_cases high : inputHigh < other
    · have above : ¬ other ≤ inputLow := fun below => low (ordered.trans below)
      rw [show levelOf other inputLow inputHigh levels = levels - 1 by
        rw [levelOf, if_neg above, if_pos high]]
      exact (levelOf_bounds value inputLow inputHigh enough).2
    · -- neither value is beyond the bounds, and the places of both are rounded
      have steps : (0 : Rat) ≤ (levels - 1 : Int) := by exact_mod_cast (steps_pos enough).le
      have apart : 0 < inputHigh - inputLow := by linarith
      rw [levelOf, levelOf, if_neg low, if_neg (by linarith), if_neg (by linarith), if_neg high]
      exact nearestInt_mono (by gcongr)

/-- Between ordered outputs a higher level stands for a value at least as high. -/
theorem levelValue_mono (output : low ≤ high) (enough : 2 ≤ levels) (ordered : level ≤ larger) :
    levelValue low high levels level ≤ levelValue low high levels larger := by
  have steps := (steps_pos enough).le
  have wide : 0 ≤ high - low := by linarith
  unfold levelValue
  gcongr

/-- The first level stands for the low output. -/
theorem levelValue_first : levelValue low high levels 0 = low := by simp [levelValue]

/-- The last level stands for the high output. -/
theorem levelValue_last (enough : 2 ≤ levels) : levelValue low high levels (levels - 1) = high := by
  rw [levelValue]
  push_cast
  rw [div_self (steps_pos enough).ne']
  ring

/-- A level lies at a value of this level. Snapping a value for a second time
changes nothing for this reason. -/
theorem levelOf_levelValue (apart : low < high) (enough : 2 ≤ levels) (start : 0 ≤ level)
    (finish : level ≤ levels - 1) :
    levelOf (levelValue low high levels level) low high levels = level := by
  have steps := steps_pos enough
  have under : levelValue low high levels level ≤ high := by
    simpa only [levelValue_last enough] using levelValue_mono apart.le enough finish
  rcases start.eq_or_lt with rfl | positive
  · rw [levelValue_first, levelOf, if_pos le_rfl]
  · have counted : (0 : Rat) < level := by exact_mod_cast positive
    have width : high - low ≠ 0 := by linarith
    have beyond : low < levelValue low high levels level :=
      lt_add_of_pos_right low (mul_pos (div_pos counted steps) (by linarith))
    have place : (levelValue low high levels level - low) / (high - low) * (levels - 1 : Int) =
        level := by
      unfold levelValue
      push_cast
      field_simp
      ring
    rw [levelOf, if_neg (not_le.mpr beyond), if_neg (not_lt.mpr under), place, nearestInt_intCast]

end Level

/-- Snapping in exact arithmetic. Nothing is divided by zero. Every value comes to lie at one of the
levels, which are equally spaced from the low to the high output: at the first one if it does not exceed
the low input bound, at the last one if it exceeds the high input bound, and otherwise at the nearest
one, the even one of two. So the outcome is between the output bounds, there are no more outcomes than
levels, a greater value has no smaller outcome, and where input and output bounds agree an outcome is
its own. -/
theorem snapping_exact {inputLow inputHigh outputLow outputHigh : Rat} {levels : Int}
    (input : inputLow ≤ inputHigh) (output : outputLow ≤ outputHigh) (enough : 2 ≤ levels) :
    (∀ value, @quantizeValue _ positiveDivision (some value) (some inputLow) (some inputHigh)
        (some outputLow) (some outputHigh) levels =
      some (quantizeValue value inputLow inputHigh outputLow outputHigh levels)) ∧
    (∀ value, ∃ level : Int, 0 ≤ level ∧ level ≤ levels - 1 ∧
      quantizeValue value inputLow inputHigh outputLow outputHigh levels =
        outputLow + level / (levels - 1) * (outputHigh - outputLow) ∧
      (value ≤ inputLow → level = 0) ∧ (inputHigh < value → level = levels - 1) ∧
      (inputLow < value → value ≤ inputHigh →
        NearestEven ((value - inputLow) / (inputHigh - inputLow) * (levels - 1)) level)) ∧
    (∀ value, outputLow ≤ quantizeValue value inputLow inputHigh outputLow outputHigh levels ∧
      quantizeValue value inputLow inputHigh outputLow outputHigh levels ≤ outputHigh) ∧
    (∃ outcomes : Finset Rat, (outcomes.card : Int) ≤ levels ∧
      ∀ value, quantizeValue value inputLow inputHigh outputLow outputHigh levels ∈ outcomes) ∧
    (Monotone fun value => quantizeValue value inputLow inputHigh outputLow outputHigh levels) ∧
    (inputLow = outputLow → inputHigh = outputHigh → ∀ value,
      quantizeValue (quantizeValue value inputLow inputHigh outputLow outputHigh levels)
        inputLow inputHigh outputLow outputHigh levels =
      quantizeValue value inputLow inputHigh outputLow outputHigh levels) := by
  have placed (value : Rat) := quantizeValue_eq value outputLow outputHigh input enough
  have bounds (value : Rat) := levelOf_bounds value inputLow inputHigh enough
  refine ⟨fun value => quantizeValue_positiveDivision input enough, fun value => ?_, fun value => ?_,
    ?_, fun value other ordered => ?_, ?_⟩
  · refine ⟨_, (bounds value).1, (bounds value).2, placed value, fun low => if_pos low,
      fun high => ?_, fun above within => ?_⟩
    · rw [levelOf, if_neg (by linarith), if_pos high]
    · rw [levelOf, if_neg (not_le.mpr above), if_neg (not_lt.mpr within)]
      exact_mod_cast nearestEven_nearestInt _
  · rw [placed]
    constructor
    · simpa only [levelValue_first] using levelValue_mono output enough (bounds value).1
    · simpa only [levelValue_last enough] using levelValue_mono output enough (bounds value).2
  · let outcome (level : Nat) : Rat := levelValue outputLow outputHigh levels level
    refine ⟨(Finset.range levels.toNat).image outcome, ?_, fun value => ?_⟩
    · have counted := Finset.card_image_le (s := Finset.range levels.toNat) (f := outcome)
      rw [Finset.card_range] at counted
      omega
    · obtain ⟨start, finish⟩ := bounds value
      have level : outcome (levelOf value inputLow inputHigh levels).toNat =
          levelValue outputLow outputHigh levels (levelOf value inputLow inputHigh levels) :=
        congrArg (levelValue outputLow outputHigh levels) (Int.toNat_of_nonneg start)
      rw [placed, Finset.mem_image]
      exact ⟨_, Finset.mem_range.mpr (by omega), level⟩
  · show quantizeValue value _ _ _ _ _ ≤ quantizeValue other _ _ _ _ _
    rw [placed, placed]
    exact levelValue_mono output enough (levelOf_mono enough ordered)
  · rintro rfl rfl value
    rw [placed (quantizeValue _ _ _ _ _ _), placed value]
    rcases input.eq_or_lt with rfl | apart
    · simp [levelValue]
    · rw [levelOf_levelValue apart enough (bounds value).1 (bounds value).2]

/-- Four levels from -1 to 1: zero is half way between the two inner ones and goes to the even one. -/
theorem fourLevels_snapping :
    quantizeValue (0 : Rat) (-1) 1 (-1) 1 4 = 1 / 3 ∧
      (∃ level : Int, level ≤ 4 - 1 ∧ (1 / 3 : Rat) = -1 + level / (((4 : Int) : Rat) - 1) * (1 - -1)) ∧
      (Monotone fun value : Rat => quantizeValue value (-1) 1 (-1) 1 4) ∧
      quantizeValue (1 / 3 : Rat) (-1) 1 (-1) 1 4 = 1 / 3 := by
  have middle : quantizeValue (0 : Rat) (-1) 1 (-1) 1 4 = 1 / 3 := by decide +kernel
  have bounds : (-1 : Rat) ≤ 1 := by norm_num
  have enough : (2 : Int) ≤ 4 := by norm_num
  obtain ⟨-, levels, -, -, grows, again⟩ := snapping_exact bounds bounds enough
  obtain ⟨level, -, within, outcome, -⟩ := levels 0
  refine ⟨middle, ⟨level, within, middle ▸ outcome⟩, grows, ?_⟩
  have repeated := again rfl rfl 0
  rwa [middle] at repeated

end RangeFold
