import RangeFold.Number.Nearest
import Mathlib.Algebra.Order.Archimedean.Basic
import Mathlib.Algebra.Order.Field.Power
import Mathlib.Tactic.Linarith
import Mathlib.Tactic.Positivity

/-!
# Laws of the nearest integer

An integer is the nearest one to a rational if it is at most a half away and, where it is exactly a
half away, even. There is one such integer, and rounding finds it. From this alone follow that rounding
leaves integers where they are and that it keeps the order of rationals: two rationals that would change
places would both have to be the one tie between their images, and a tie has one answer.

The exponent of a rational is the one of the power of two at or below it.
-/

namespace RangeFold

section Nearest

/-- The integer is at most a half away, and even where it is a half away. -/
structure NearestEven (value : Rat) (integer : Int) : Prop where
  above : (integer : Rat) - 1 / 2 ≤ value
  below : value ≤ integer + 1 / 2
  tie : value = integer - 1 / 2 ∨ value = integer + 1 / 2 → integer % 2 = 0

/-- The computed rounding meets its specification: within one half, and even where
the two neighbours are equally near. -/
theorem nearestEven_nearestInt (value : Rat) : NearestEven value (nearestInt value) := by
  have under : (value.floor : Rat) ≤ value := Rat.floor_le value
  have beyond : value < value.floor + 1 := by exact_mod_cast Rat.lt_floor_add_one value
  unfold nearestInt
  dsimp only
  split
  · refine ⟨by linarith, by linarith, ?_⟩
    rintro (same | same) <;> exfalso <;> linarith
  · split
    · refine ⟨by push_cast; linarith, by push_cast; linarith, ?_⟩
      push_cast
      rintro (same | same) <;> exfalso <;> linarith
    · have half : value = value.floor + 1 / 2 := by linarith
      rcases Int.emod_two_eq_zero_or_one value.floor with even | odd
      · rw [even, add_zero]
        exact ⟨by linarith, by linarith, fun _ => even⟩
      · rw [odd]
        refine ⟨by push_cast; linarith, by push_cast; linarith, fun _ => by omega⟩

variable {value other : Rat} {integer larger : Int}

/-- Of rationals in order the nearest integers are in order. If they were not, the two rationals would
lie half way between neighbours, of which both would be even. -/
theorem NearestEven.mono (nearest : NearestEven value integer) (nearestOther : NearestEven other larger)
    (ordered : value ≤ other) : integer ≤ larger := by
  by_contra crossed
  have above := nearest.above
  have below := nearestOther.below
  have apart : (larger : Rat) + 1 ≤ integer := by exact_mod_cast not_le.mp crossed
  have next : (integer : Rat) = larger + 1 := by linarith
  have neighbours : integer = larger + 1 := by exact_mod_cast next
  have even := nearest.tie (.inl (by linarith))
  have evenOther := nearestOther.tie (.inr (by linarith))
  omega

/-- The specification determines the integer, so it may stand for the computation in
either direction. -/
theorem nearestInt_eq_iff : nearestInt value = integer ↔ NearestEven value integer := by
  constructor
  · rintro rfl
    exact nearestEven_nearestInt value
  · intro nearest
    have rounded := nearestEven_nearestInt value
    exact le_antisymm (rounded.mono nearest le_rfl) (nearest.mono rounded le_rfl)

/-- Rounding to integers keeps the order. Of two values that would cross, both would
have to be halfway between the same integers. -/
theorem nearestInt_mono (ordered : value ≤ other) : nearestInt value ≤ nearestInt other :=
  (nearestEven_nearestInt value).mono (nearestEven_nearestInt other) ordered

/-- An integer is rounded to itself. -/
@[simp] theorem nearestInt_intCast (integer : Int) : nearestInt (integer : Rat) = integer := by
  refine nearestInt_eq_iff.mpr ⟨by linarith, by linarith, ?_⟩
  rintro (same | same) <;> exfalso <;> linarith

/-- An integer below a value stays below it after rounding, by monotony. -/
theorem le_nearestInt (bound : (integer : Rat) ≤ value) : integer ≤ nearestInt value := by
  simpa using nearestInt_mono bound

/-- An integer above a value stays above it after rounding. -/
theorem nearestInt_le (bound : value ≤ integer) : nearestInt value ≤ integer := by
  simpa using nearestInt_mono bound

end Nearest

section Exponent

variable {value other : Rat}

/-- A natural number other than zero lies between two powers of two. The powers are
written with integer exponents, as those of rationals will be. -/
theorem zpow_log2_bounds {number : Nat} (some : number ≠ 0) :
    (2 : Rat) ^ (number.log2 : Int) ≤ number ∧ (number : Rat) < 2 ^ ((number.log2 : Int) + 1) := by
  constructor
  · exact_mod_cast Nat.log2_self_le some
  · exact_mod_cast (Nat.lt_log2_self : number < 2 ^ (number.log2 + 1))

/-- A positive rational lies between the power of two of its exponent and the next
one. It is found from the logarithms of numerator and denominator, which miss it by
one at most. -/
theorem floorLog_bounds (positive : 0 < value) :
    (2 : Rat) ^ floorLog value ≤ value ∧ value < 2 ^ (floorLog value + 1) := by
  have numerator : 0 < value.num := Rat.num_pos.mpr positive
  have natural : ((value.num.natAbs : Nat) : Rat) = value.num := by
    simpa only [Int.cast_natCast] using
      congrArg (Int.cast : Int → Rat) (Int.natAbs_of_nonneg numerator.le)
  have quotient : value = (value.num.natAbs : Rat) / (value.den : Rat) := by
    rw [natural, Rat.num_div_den]
  obtain ⟨numLow, numHigh⟩ := zpow_log2_bounds (Int.natAbs_ne_zero.mpr numerator.ne')
  obtain ⟨denLow, denHigh⟩ := zpow_log2_bounds value.den_nz
  have denPositive : (0 : Rat) < value.den := by exact_mod_cast value.den_pos
  unfold floorLog
  dsimp only
  generalize (value.num.natAbs.log2 : Int) = upper at *
  generalize (value.den.log2 : Int) = lower at *
  have high : value < 2 ^ (upper - lower + 1) := by
    rw [quotient, div_lt_iff₀ denPositive]
    calc (value.num.natAbs : Rat) < 2 ^ (upper + 1) := numHigh
      _ = 2 ^ (upper - lower + 1) * 2 ^ lower := by
        rw [← zpow_add₀ two_ne_zero]
        congr 1
        ring
      _ ≤ 2 ^ (upper - lower + 1) * value.den := by gcongr
  split
  · rename_i reached
    exact ⟨reached, high⟩
  · rename_i missed
    refine ⟨?_, by simpa using missed⟩
    rw [quotient, le_div_iff₀ denPositive]
    calc (2 : Rat) ^ (upper - lower - 1) * value.den
        ≤ 2 ^ (upper - lower - 1) * 2 ^ (lower + 1) := by gcongr
      _ = 2 ^ upper := by
        rw [← zpow_add₀ two_ne_zero]
        congr 1
        ring
      _ ≤ value.num.natAbs := numLow

/-- The exponent is known by the two powers between which a rational lies. No other
power has both properties, so either bound can be used alone. -/
theorem le_floorLog {exponent : Int} (positive : 0 < value)
    (bound : (2 : Rat) ^ exponent ≤ value) : exponent ≤ floorLog value := by
  have next := bound.trans_lt (floorLog_bounds positive).2
  have := (zpow_lt_zpow_iff_right₀ one_lt_two).mp next
  omega

/-- A positive value below a power of two has a smaller exponent. -/
theorem floorLog_lt {exponent : Int} (positive : 0 < value)
    (bound : value < (2 : Rat) ^ exponent) : floorLog value < exponent :=
  (zpow_lt_zpow_iff_right₀ one_lt_two).mp ((floorLog_bounds positive).1.trans_lt bound)

/-- The exponent of a positive value grows with it. -/
theorem floorLog_mono (positive : 0 < value) (ordered : value ≤ other) :
    floorLog value ≤ floorLog other :=
  le_floorLog (positive.trans_le ordered) ((floorLog_bounds positive).1.trans ordered)

end Exponent

end RangeFold
