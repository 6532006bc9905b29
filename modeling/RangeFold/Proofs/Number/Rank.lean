import RangeFold.Number.Binary
import RangeFold.Proofs.Number.Nearest
import Mathlib.Tactic.Ring

/-!
# Ranks and rounding

The numbers of a format are its ranks, and the value of a rank is a whole number of steps of its spacing.
Below the stride the spacing is the smallest one; above it the number of steps is between the stride and
its double, and the spacing tells which. Rounding finds the spacing from the exponent of a value, counts
the steps to the nearest whole number and puts the rank together again.

What is used of rounding is that it keeps the order and that it leaves the numbers of the format where
they are. A value between two that round to finite numbers is therefore rounded to one as well, however
the rounding goes in between.
-/

namespace RangeFold.Format

variable {format : Format} {value other : Rat} {rank larger : Nat}

section Magnitude

/-- Every exponent has ranks, whatever the precision. -/
theorem stride_pos (format : Format) : 0 < format.stride := Nat.two_pow_pos _

/-- The stride as a power with an integer exponent, in the form the exponent laws of
the rationals need. -/
theorem stride_eq (format : Format) : (format.stride : Rat) = 2 ^ ((format.precision - 1 : Nat) : Int) := by
  rw [zpow_natCast, stride, Nat.pow_eq]
  exact_mod_cast rfl

/-- A rank split into steps and the shift of their spacing from the smallest one. Fewer steps than the
stride are steps of the smallest spacing. -/
structure Split (format : Format) (rank shift steps : Nat) : Prop where
  rank : rank = shift * format.stride + steps
  least : shift = 0 ∨ format.stride ≤ steps
  few : steps < 2 * format.stride

/-- Every rank can be split. Below the stride it is all steps; above it the quotient
by the stride gives the shift, of which one stride belongs to the steps. -/
theorem exists_split (format : Format) (rank : Nat) : ∃ shift steps, format.Split rank shift steps := by
  have positive := format.stride_pos
  have split := Nat.div_add_mod rank format.stride
  have rest := Nat.mod_lt rank positive
  cases binade : rank / format.stride with
  | zero => exact ⟨0, rank, by simp, .inl rfl, by rw [binade] at split; omega⟩
  | succ shift =>
    rw [binade, Nat.mul_succ, Nat.mul_comm] at split
    exact ⟨shift, format.stride + rank % format.stride, by omega, .inr (by omega), by omega⟩

/-- A rank stands for its steps. The shift only says how large they are. -/
theorem Split.magnitude {shift steps : Nat} (split : format.Split rank shift steps) :
    format.magnitude rank = steps * (2 : Rat) ^ (format.unitExponent + shift) := by
  have positive := format.stride_pos
  have few := split.few
  unfold Format.magnitude
  by_cases small : steps < format.stride
  · obtain rfl : shift = 0 := split.least.resolve_right (by omega)
    have whole : rank = steps := by simpa using split.rank
    rw [whole, Nat.div_eq_of_lt small, Nat.mod_eq_of_lt small]
    simp
  · obtain ⟨fraction, rfl⟩ := Nat.exists_eq_add_of_le (not_lt.mp small)
    have apart : rank = fraction + format.stride * (shift + 1) := by
      rw [split.rank]
      ring
    have within : fraction < format.stride := by omega
    rw [apart, Nat.add_mul_div_left _ _ positive, Nat.add_mul_mod_self_left,
      Nat.div_eq_of_lt within, Nat.mod_eq_of_lt within]
    simp [← add_assoc]

/-- The value of a rank is not negative, as the sign is kept apart from it. -/
theorem magnitude_nonneg (format : Format) (rank : Nat) : 0 ≤ format.magnitude rank := by
  obtain ⟨shift, steps, split⟩ := format.exists_split rank
  rw [split.magnitude]
  positivity

/-- Rank zero is worth zero, in every format. -/
@[simp] theorem magnitude_zero (format : Format) : format.magnitude 0 = 0 := by
  have none : format.Split 0 0 0 := ⟨by simp, .inl rfl, by have := format.stride_pos; omega⟩
  rw [none.magnitude]
  simp

/-- The least positive value. It is also the smallest spacing. -/
theorem magnitude_one (format : Format) : format.magnitude 1 = 2 ^ format.unitExponent := by
  have single : format.Split 1 0 1 := ⟨by simp, .inl rfl, by have := format.stride_pos; omega⟩
  rw [single.magnitude]
  simp

/-- Every value is a multiple of the least positive one. Sums and differences of
values are therefore multiples of it as well. -/
theorem exists_magnitude_eq (format : Format) (rank : Nat) :
    ∃ units : Nat, format.magnitude rank = units * 2 ^ format.unitExponent := by
  obtain ⟨shift, steps, split⟩ := format.exists_split rank
  refine ⟨2 ^ shift * steps, ?_⟩
  rw [split.magnitude, zpow_add₀ two_ne_zero, zpow_natCast]
  push_cast
  ring

end Magnitude

section Rounding

/-- The exponent of the spacing at which a value is rounded. -/
def spacing (format : Format) (value : Rat) : Int :=
  max format.unitExponent (floorLog value - (format.precision - 1 : Nat))

/-- The number of steps that a value is rounded to. -/
def steps (format : Format) (value : Rat) : Nat :=
  (nearestInt (value / 2 ^ format.spacing value)).toNat

/-- Zero is rounded to rank zero. It has no exponent, so the computation treats it
by itself. -/
theorem nearestRank_zero (format : Format) : format.nearestRank 0 = 0 := if_pos rfl

/-- The rank a positive value is rounded to: the strides below its spacing and the
steps of that spacing, cut off at infinity. -/
theorem nearestRank_eq (format : Format) (positive : 0 < value) : format.nearestRank value =
    min format.infinity
      ((format.spacing value - format.unitExponent).toNat * format.stride + format.steps value) := by
  have spaced : (if floorLog value - ((format.precision - 1 : Nat) : Int) < format.unitExponent
      then format.unitExponent else floorLog value - ((format.precision - 1 : Nat) : Int)) =
        format.spacing value := by
    unfold spacing
    split <;> omega
  unfold nearestRank
  simp only [if_neg positive.ne', spaced]
  rfl

/-- A value is less than twice the stride in steps of its spacing, and at least the stride unless the
spacing is the smallest one. -/
theorem steps_bounds (format : Format) (positive : 0 < value) : format.steps value ≤ 2 * format.stride ∧
    (format.spacing value = format.unitExponent ∨ format.stride ≤ format.steps value) := by
  obtain ⟨low, high⟩ := floorLog_bounds positive
  have power : (0 : Rat) < 2 ^ format.spacing value := by positivity
  constructor
  · have bound : value / 2 ^ format.spacing value ≤ ((2 * format.stride : Nat) : Int) := by
      rw [div_le_iff₀ power]
      push_cast
      calc value ≤ 2 ^ (floorLog value + 1) := high.le
        _ ≤ 2 ^ (1 + ((format.precision - 1 : Nat) : Int) + format.spacing value) := by
          refine zpow_le_zpow_right₀ one_le_two ?_
          unfold spacing
          omega
        _ = 2 * format.stride * 2 ^ format.spacing value := by
          rw [stride_eq, zpow_add₀ two_ne_zero, zpow_add₀ two_ne_zero, zpow_one]
    have := nearestInt_le bound
    unfold steps
    omega
  · by_cases least : format.spacing value = format.unitExponent
    · exact .inl least
    · have own : format.spacing value = floorLog value - ((format.precision - 1 : Nat) : Int) := by
        unfold spacing at least ⊢
        omega
      have bound : ((format.stride : Nat) : Int) ≤ value / 2 ^ format.spacing value := by
        rw [le_div_iff₀ power]
        push_cast
        calc (format.stride : Rat) * 2 ^ format.spacing value = 2 ^ floorLog value := by
              rw [stride_eq, own, ← zpow_add₀ two_ne_zero]
              congr 1
              ring
          _ ≤ value := low
      have := le_nearestInt bound
      unfold steps
      exact .inr (by omega)

/-- Greater values have no smaller ranks: at one spacing the steps grow, and a greater spacing begins
with as many steps as the smaller one ends with. -/
theorem nearestRank_mono (format : Format) (nonneg : 0 ≤ value) (ordered : value ≤ other) :
    format.nearestRank value ≤ format.nearestRank other := by
  rcases nonneg.eq_or_lt with rfl | positive
  · rw [nearestRank_zero]
    exact Nat.zero_le _
  have exponents := floorLog_mono positive ordered
  rw [format.nearestRank_eq positive, format.nearestRank_eq (positive.trans_le ordered)]
  refine min_le_min le_rfl ?_
  have grows : format.spacing value ≤ format.spacing other := by
    unfold spacing
    omega
  rcases grows.eq_or_lt with same | wider
  · have more : format.steps value ≤ format.steps other := by
      unfold steps
      rw [same]
      exact Int.toNat_le_toNat (nearestInt_mono (by gcongr))
    rw [same]
    omega
  · have few := (format.steps_bounds positive).1
    have least : format.unitExponent ≤ format.spacing value := le_max_left _ _
    have many := (format.steps_bounds (positive.trans_le ordered)).2.resolve_left (by omega)
    have next : (format.spacing value - format.unitExponent).toNat + 1 ≤
        (format.spacing other - format.unitExponent).toNat := by omega
    have := Nat.mul_le_mul_right format.stride next
    rw [Nat.succ_mul] at this
    omega

/-- The numbers of the format are where they are rounded to. Ranks past infinity are
brought down to it. -/
theorem nearestRank_magnitude (format : Format) (rank : Nat) :
    format.nearestRank (format.magnitude rank) = min format.infinity rank := by
  obtain ⟨shift, steps, split⟩ := format.exists_split rank
  have stride := format.stride_pos
  rcases Nat.eq_zero_or_pos steps with rfl | some
  · -- no steps are steps of the smallest spacing, and there are none in the rank zero only
    obtain rfl : shift = 0 := split.least.resolve_right (by omega)
    rw [split.magnitude, split.rank]
    simp [nearestRank_zero]
  have counted : (1 : Rat) ≤ steps := by exact_mod_cast some
  have few : (steps : Rat) < 2 * format.stride := by exact_mod_cast split.few
  have power : (0 : Rat) < 2 ^ (format.unitExponent + shift) := by positivity
  have positive : 0 < format.magnitude rank := by
    rw [split.magnitude]
    positivity
  have spaced : format.spacing (format.magnitude rank) = format.unitExponent + shift := by
    have under : floorLog (format.magnitude rank) <
        1 + ((format.precision - 1 : Nat) : Int) + (format.unitExponent + shift) := by
      refine floorLog_lt positive ?_
      rw [zpow_add₀ two_ne_zero, zpow_one_add₀ two_ne_zero, ← stride_eq, split.magnitude]
      gcongr
    rcases split.least with rfl | many
    · unfold spacing
      omega
    · have beyond : ((format.precision - 1 : Nat) : Int) + (format.unitExponent + shift) ≤
          floorLog (format.magnitude rank) := by
        refine le_floorLog positive ?_
        rw [zpow_add₀ two_ne_zero, ← stride_eq, split.magnitude]
        gcongr
      unfold spacing
      omega
  have whole : format.steps (format.magnitude rank) = steps := by
    rw [Format.steps, spaced, split.magnitude, mul_div_cancel_right₀ _ power.ne']
    exact_mod_cast congrArg Int.toNat (nearestInt_intCast (steps : Int))
  rw [format.nearestRank_eq positive, spaced, whole, split.rank]
  congr 2
  rw [add_sub_cancel_left, Int.toNat_natCast]

/-- The numbers of a format, infinity's place included, are rounded to themselves. -/
theorem nearestRank_magnitude_of_le (inside : rank ≤ format.infinity) :
    format.nearestRank (format.magnitude rank) = rank := by
  rw [nearestRank_magnitude, min_eq_right inside]

/-- Up to infinity the values grow with the ranks. Values can be compared by
comparing ranks, which is how the format does it. -/
theorem magnitude_le_iff (inside : rank ≤ format.infinity) (insideToo : larger ≤ format.infinity) :
    format.magnitude rank ≤ format.magnitude larger ↔ rank ≤ larger := by
  have mono {first second : Nat} (within : first ≤ format.infinity)
      (withinToo : second ≤ format.infinity)
      (ordered : format.magnitude first ≤ format.magnitude second) : first ≤ second := by
    have := format.nearestRank_mono (format.magnitude_nonneg first) ordered
    rwa [nearestRank_magnitude_of_le within, nearestRank_magnitude_of_le withinToo] at this
  refine ⟨mono inside insideToo, fun ordered => ?_⟩
  by_contra crossed
  obtain rfl : rank = larger := le_antisymm ordered (mono insideToo inside (not_le.mp crossed).le)
  exact crossed le_rfl

/-- Rounding stays on the scale: what is too large is infinite. -/
theorem nearestRank_le_infinity (format : Format) (value : Rat) :
    format.nearestRank value ≤ format.infinity :=
  Nat.lt_succ_iff.mp (format.nearestRank_le value)

/-- What is rounded to a finite number is rounded to whole steps of its spacing. The
rank that was put together is taken apart again. -/
theorem magnitude_nearestRank (positive : 0 < value)
    (finite : format.nearestRank value < format.infinity) :
    format.magnitude (format.nearestRank value) = format.steps value * 2 ^ format.spacing value := by
  have least : format.unitExponent ≤ format.spacing value := le_max_left _ _
  have stride := format.stride_pos
  obtain ⟨few, many⟩ := format.steps_bounds positive
  have rank := format.nearestRank_eq positive
  rw [min_def] at rank
  split at rank
  · omega
  · have exponent : format.unitExponent + (format.spacing value - format.unitExponent).toNat =
        format.spacing value := by omega
    rcases few.eq_or_lt with double | fewer
    · -- as many steps as two strides are one stride of the next spacing
      have split : format.Split (format.nearestRank value)
          ((format.spacing value - format.unitExponent).toNat + 1) format.stride :=
        ⟨by rw [rank, double]; ring, .inr le_rfl, by omega⟩
      rw [split.magnitude, double]
      push_cast
      rw [← add_assoc, exponent, zpow_add_one₀ two_ne_zero]
      ring
    · have split : format.Split (format.nearestRank value)
          (format.spacing value - format.unitExponent).toNat (format.steps value) :=
        ⟨rank, many.imp_left fun same => by rw [same, sub_self, Int.toNat_zero], fewer⟩
      rw [split.magnitude, exponent]

end Rounding

end RangeFold.Format
