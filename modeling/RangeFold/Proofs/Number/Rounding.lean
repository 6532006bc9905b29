import RangeFold.Proofs.Number.Rank

/-!
# Finite numbers and their operations

A finite number denotes a rational, and an operation on finite numbers rounds the exact outcome of the
operation on what they denote. The format holds a rational if it is rounded to a finite number; what it
does not hold becomes infinite.

Rounding keeps the order of rationals of either sign and leaves what numbers denote where it is. So the
format holds what lies between two rationals that it holds.
-/

namespace RangeFold

variable {format : Format}

namespace Format

variable {value other low high : Rat}

/-- The rational is rounded to a finite number. -/
def Holds (format : Format) (value : Rat) : Prop := format.nearestRank |value| < format.infinity

/-- What a rational is rounded to. -/
def rounded (format : Format) (value : Rat) : Rat :=
  format.signedValue (decide (value < 0)) (format.nearestRank |value|)

/-- A rational the format does not hold is rounded to the rank of infinity, as no
rank lies beyond. -/
theorem not_holds_iff : ¬ format.Holds value ↔ format.nearestRank |value| = format.infinity := by
  have := format.nearestRank_le_infinity |value|
  unfold Holds
  omega

/-- Without a sign a rational is rounded to the value of its nearest rank. -/
theorem rounded_of_nonneg (nonneg : 0 ≤ value) :
    format.rounded value = format.magnitude (format.nearestRank value) := by
  rw [rounded, abs_of_nonneg nonneg, decide_eq_false (not_lt.mpr nonneg)]
  rfl

/-- A negative rational is rounded like its opposite, so rounding is symmetric about
zero. -/
theorem rounded_of_neg (negative : value < 0) :
    format.rounded value = -format.magnitude (format.nearestRank (-value)) := by
  rw [rounded, abs_of_neg negative, decide_eq_true negative]
  rfl

/-- Rounding does not take a rational below zero. -/
theorem rounded_nonneg (format : Format) (nonneg : 0 ≤ value) : 0 ≤ format.rounded value := by
  rw [rounded_of_nonneg nonneg]
  exact format.magnitude_nonneg _

/-- Rounding keeps the order. The signs are split first; on either side of zero the
order is that of the ranks. -/
theorem rounded_mono (format : Format) (ordered : value ≤ other) :
    format.rounded value ≤ format.rounded other := by
  have grows {first second : Rat} (nonneg : 0 ≤ first) (ordered : first ≤ second) :
      format.magnitude (format.nearestRank first) ≤ format.magnitude (format.nearestRank second) :=
    (magnitude_le_iff (format.nearestRank_le_infinity _) (format.nearestRank_le_infinity _)).mpr
      (format.nearestRank_mono nonneg ordered)
  rcases lt_or_ge value 0 with negative | nonneg
  · rcases lt_or_ge other 0 with negativeOther | nonnegOther
    · rw [rounded_of_neg negative, rounded_of_neg negativeOther]
      exact neg_le_neg (grows (by linarith) (by linarith))
    · have := format.magnitude_nonneg (format.nearestRank (-value))
      rw [rounded_of_neg negative]
      exact le_trans (by linarith) (format.rounded_nonneg nonnegOther)
  · rw [rounded_of_nonneg nonneg, rounded_of_nonneg (nonneg.trans ordered)]
    exact grows nonneg ordered

/-- Whatever lies between two rationals that are held is no farther from zero than
one of them. Its rank is no greater than theirs. -/
theorem Holds.between (holdsLow : format.Holds low) (holdsHigh : format.Holds high)
    (above : low ≤ value) (below : value ≤ high) : format.Holds value := by
  have nearer {bound : Rat} (holds : format.Holds bound) (near : |value| ≤ |bound|) :
      format.Holds value := lt_of_le_of_lt (format.nearestRank_mono (abs_nonneg value) near) holds
  rcases le_total 0 value with nonneg | nonpos
  · refine nearer holdsHigh ?_
    rwa [abs_of_nonneg nonneg, abs_of_nonneg (nonneg.trans below)]
  · refine nearer holdsLow ?_
    rw [abs_of_nonpos nonpos, abs_of_nonpos (above.trans nonpos)]
    linarith

/-- A whole number is rounded to a whole number: to itself where the spacing is finer than one, and to
a multiple of the spacing otherwise. -/
theorem exists_rounded_eq_intCast {whole : Int} (positive : 0 < whole)
    (holds : format.Holds whole) : ∃ integer : Int, format.rounded whole = integer := by
  have above : (0 : Rat) < whole := by exact_mod_cast positive
  rw [Holds, abs_of_pos above] at holds
  rw [rounded_of_nonneg above.le, magnitude_nearestRank above holds]
  have power : (0 : Rat) < 2 ^ format.spacing whole := by positivity
  rcases le_or_gt 0 (format.spacing whole) with coarse | fine
  · refine ⟨format.steps whole * 2 ^ (format.spacing whole).toNat, ?_⟩
    push_cast
    rw [← zpow_natCast, Int.toNat_of_nonneg coarse]
  · have inverse : (whole : Rat) / 2 ^ format.spacing whole =
        ((whole * 2 ^ (-format.spacing whole).toNat : Int) : Rat) := by
      push_cast
      rw [← zpow_natCast, Int.toNat_of_nonneg (by omega), zpow_neg, div_eq_mul_inv]
    refine ⟨whole, ?_⟩
    have exact : ((format.steps whole : Nat) : Rat) = whole / 2 ^ format.spacing whole := by
      rw [steps, inverse, nearestInt_intCast]
      have nonneg : 0 ≤ whole * 2 ^ (-format.spacing whole).toNat := by positivity
      exact_mod_cast Int.toNat_of_nonneg nonneg
    rw [exact, div_mul_cancel₀ _ power.ne']

/-- A rational that is held and is where it is rounded to. -/
structure Represents (format : Format) (value : Rat) : Prop where
  holds : format.Holds value
  exact : format.rounded value = value

/-- What is rounded between two represented rationals does not leave them. Rounding
is monotone and fixes both ends. -/
theorem rounded_between (representsLow : format.Represents low) (representsHigh : format.Represents high)
    (above : low ≤ value) (below : value ≤ high) :
    low ≤ format.rounded value ∧ format.rounded value ≤ high := by
  have start := format.rounded_mono above
  have finish := format.rounded_mono below
  rw [representsLow.exact] at start
  rw [representsHigh.exact] at finish
  exact ⟨start, finish⟩

end Format

namespace Binary

/-- A finite number stands for the exact value of its rank, with its sign. -/
inductive Denotes : Binary format → Rat → Prop where
  | signed {negative : Bool} {rank : Fin (format.infinity + 1)} (finite : rank.val < format.infinity) :
    Denotes (.signed negative rank) (format.signedValue negative rank)

variable {number left right : Binary format} {value first second : Rat}

/-- Finite numbers are those that denote a rational: neither infinity nor what is
not a number does. -/
theorem isFinite_iff : number.isFinite = true ↔ ∃ value, number.Denotes value := by
  cases number with
  | nan => exact iff_of_false Bool.false_ne_true fun ⟨_, absent⟩ => by cases absent
  | signed negative rank =>
    simp only [isFinite, decide_eq_true_eq]
    constructor
    · exact fun finite => ⟨_, .signed finite⟩
    · rintro ⟨_, ⟨finite⟩⟩
      exact finite

/-- What denotes a rational is finite. -/
theorem Denotes.isFinite (denotes : number.Denotes value) : number.isFinite = true :=
  isFinite_iff.mpr ⟨value, denotes⟩

/-- The sign does not show in the absolute value, which is that of the rank. -/
theorem abs_signedValue (negative : Bool) (rank : Nat) :
    |format.signedValue negative rank| = format.magnitude rank := by
  have := format.magnitude_nonneg rank
  cases negative <;> simp [Format.signedValue, abs_of_nonneg this]

/-- The format represents what its numbers denote. Both say that the rational is the
value of a finite rank with a sign. -/
theorem Denotes.represents (denotes : number.Denotes value) : format.Represents value := by
  obtain @⟨negative, rank, finite⟩ := denotes
  have nonneg := format.magnitude_nonneg rank
  have same := Format.nearestRank_magnitude_of_le finite.le
  refine ⟨by rwa [Format.Holds, abs_signedValue, same], ?_⟩
  rw [Format.rounded, abs_signedValue, same]
  cases negative with
  | false =>
    rw [decide_eq_false (show ¬ format.signedValue false rank < 0 from not_lt.mpr nonneg)]
  | true =>
    rcases nonneg.eq_or_lt with none | positive
    · simp [Format.signedValue, ← none]
    · rw [decide_eq_true (show format.signedValue true rank < 0 from neg_lt_zero.mpr positive)]

/-- Both zeros denote zero, once the format has finite numbers at all. -/
theorem zero_denotes (negative : Bool) (some : 0 < format.infinity) :
    (zero negative : Binary format).Denotes 0 := by
  have nothing : format.signedValue negative 0 = 0 := by
    cases negative <;> simp [Format.signedValue]
  rw [← nothing]
  exact .signed some

/-- A format with a number that denotes something has room below infinity. -/
theorem Denotes.infinity_pos (denotes : number.Denotes value) : 0 < format.infinity := by
  obtain ⟨finite⟩ := denotes
  omega

/-- Zero is a number of every format that has finite numbers. Rank zero is below
infinity then. -/
theorem Denotes.represents_zero (denotes : number.Denotes value) : format.Represents 0 :=
  (zero_denotes false denotes.infinity_pos).represents

/-- The distance of two numbers is not rounded to zero: it is a multiple of the least positive value. -/
theorem Denotes.rounded_sub_pos (denotes : left.Denotes first) (denotesToo : right.Denotes second)
    (apart : first < second) : 0 < format.rounded (second - first) := by
  have inside : 1 ≤ format.infinity := denotes.infinity_pos
  have multiple {denoted : Binary format} {exact : Rat} (denotes : denoted.Denotes exact) :
      ∃ units : Int, exact = units * 2 ^ format.unitExponent := by
    obtain @⟨negative, rank, -⟩ := denotes
    obtain ⟨units, counted⟩ := format.exists_magnitude_eq rank
    cases negative with
    | false => exact ⟨units, by rw [Int.cast_natCast]; exact counted⟩
    | true =>
      exact ⟨-units, by rw [Int.cast_neg, Int.cast_natCast, neg_mul]; exact congrArg Neg.neg counted⟩
  obtain ⟨units, rfl⟩ := multiple denotes
  obtain ⟨unitsToo, rfl⟩ := multiple denotesToo
  have power : (0 : Rat) < 2 ^ format.unitExponent := by positivity
  have more : (1 : Rat) ≤ (unitsToo - units : Int) := by
    have := lt_of_mul_lt_mul_right apart power.le
    have : units < unitsToo := by exact_mod_cast this
    exact_mod_cast (by omega : (1 : Int) ≤ unitsToo - units)
  have least : format.magnitude 1 ≤
      (unitsToo : Rat) * 2 ^ format.unitExponent - units * 2 ^ format.unitExponent := by
    rw [format.magnitude_one, ← sub_mul, ← Int.cast_sub]
    exact le_mul_of_one_le_left power.le more
  refine lt_of_lt_of_le ?_ (format.rounded_mono least)
  rwa [Format.rounded_of_nonneg (format.magnitude_nonneg 1),
    Format.nearestRank_magnitude_of_le inside, format.magnitude_one]

/-- The order of positions is that of values. Both zeros share a position, as they
do a value. -/
theorem position_le_iff (negative negativeToo : Bool) {rank larger : Nat}
    (inside : rank ≤ format.infinity) (insideToo : larger ≤ format.infinity) :
    position negative rank ≤ position negativeToo larger ↔
      format.signedValue negative rank ≤ format.signedValue negativeToo larger := by
  have nonneg := format.magnitude_nonneg rank
  have nonnegToo := format.magnitude_nonneg larger
  have up := Format.magnitude_le_iff inside insideToo
  have down := Format.magnitude_le_iff insideToo inside
  have zero := Format.magnitude_le_iff inside (Nat.zero_le format.infinity)
  have zeroToo := Format.magnitude_le_iff insideToo (Nat.zero_le format.infinity)
  rw [Format.magnitude_zero] at zero zeroToo
  cases negative <;> cases negativeToo <;>
    simp only [position, Format.signedValue, Bool.false_eq_true, if_false, if_true]
  · rw [up]
    omega
  · constructor
    · intro ordered
      have low : format.magnitude rank ≤ 0 := zero.mpr (by omega)
      have lowToo : format.magnitude larger ≤ 0 := zeroToo.mpr (by omega)
      linarith
    · intro ordered
      have := zero.mp (by linarith)
      have := zeroToo.mp (by linarith)
      omega
  · exact iff_of_true (by omega) (by linarith)
  · rw [neg_le_neg_iff, neg_le_neg_iff, down]
    omega

/-- Comparing finite numbers compares what they denote. In particular the two zeros
are equal. -/
theorem Denotes.le_iff (denotes : left.Denotes first) (denotesToo : right.Denotes second) :
    left.le right = true ↔ first ≤ second := by
  obtain ⟨finite⟩ := denotes
  obtain ⟨finiteToo⟩ := denotesToo
  rw [← position_le_iff _ _ finite.le finiteToo.le]
  exact decide_eq_true_iff

/-- The strict comparison of finite numbers is that of what they denote. -/
theorem Denotes.lt_iff (denotes : left.Denotes first) (denotesToo : right.Denotes second) :
    left.lt right = true ↔ first < second := by
  obtain ⟨finite⟩ := denotes
  obtain ⟨finiteToo⟩ := denotesToo
  rw [← not_le, ← position_le_iff _ _ finiteToo.le finite.le, not_le]
  exact decide_eq_true_iff

/-- A finite number equals itself, which cannot be said of every number of the
format. -/
theorem Denotes.same_self (denotes : number.Denotes value) : number.same number = true := by
  obtain ⟨finite⟩ := denotes
  exact decide_eq_true rfl

section Round

/-- A rounded rational has the rank nearest to its size and, unless it is zero, its
own sign. -/
theorem round_rank (format : Format) (zeroSign : Bool) (value : Rat) : ∃ negative,
    round zeroSign value = (.signed negative ⟨format.nearestRank |value|, format.nearestRank_le _⟩ :
      Binary format) ∧ (value ≠ 0 → negative = decide (value < 0)) := by
  have size : (if value < 0 then -value else value) = |value| := by
    split
    · rw [abs_of_neg ‹_›]
    · rw [abs_of_nonneg (not_lt.mp ‹_›)]
  refine ⟨if value = 0 then zeroSign else decide (value < 0), ?_, fun some => if_neg some⟩
  unfold round
  simp only [size]

/-- What is held is rounded to a number that denotes what it is rounded to. The sign
of an exact zero is free and does not matter to what is denoted. -/
theorem round_denotes (zeroSign : Bool) (holds : format.Holds value) :
    (round zeroSign value : Binary format).Denotes (format.rounded value) := by
  obtain ⟨negative, same, sign⟩ := round_rank format zeroSign value
  have outcome : format.rounded value =
      format.signedValue negative (format.nearestRank |value|) := by
    by_cases zero : value = 0
    · subst zero
      cases negative <;> simp [Format.rounded, Format.signedValue, Format.nearestRank_zero]
    · rw [sign zero, Format.rounded]
  rw [same, outcome]
  exact .signed holds

/-- What is not held becomes infinite. Its sign is that of the rational, which is
not zero. -/
theorem round_of_not_holds (zeroSign : Bool) (beyond : ¬ format.Holds value) :
    ∃ negative, (round zeroSign value : Binary format) = infinite negative := by
  obtain ⟨negative, same, -⟩ := round_rank format zeroSign value
  refine ⟨negative, same.trans ?_⟩
  rw [infinite]
  congr
  exact Format.not_holds_iff.mp beyond

/-- Neither infinity is finite. -/
theorem isFinite_infinite (negative : Bool) :
    (infinite negative : Binary format).isFinite = false :=
  decide_eq_false (lt_irrefl _)

/-- Rounding gives a finite number exactly for the rationals that the format holds. -/
theorem isFinite_round (zeroSign : Bool) :
    (round zeroSign value : Binary format).isFinite = true ↔ format.Holds value := by
  constructor
  · intro finite
    by_contra beyond
    obtain ⟨negative, infinity⟩ := round_of_not_holds zeroSign beyond
    rw [infinity, isFinite_infinite] at finite
    exact Bool.false_ne_true finite
  · exact fun holds => (round_denotes zeroSign holds).isFinite

end Round

section Operations

variable (denotes : left.Denotes first) (denotesToo : right.Denotes second)

include denotes

/-- Changing the sign is exact. -/
theorem Denotes.neg : left.neg.Denotes (-first) := by
  obtain @⟨negative, rank, finite⟩ := denotes
  have opposite : -format.signedValue negative rank = format.signedValue (!negative) rank := by
    cases negative <;> simp [Format.signedValue]
  rw [opposite]
  exact .signed finite

/-- Rounding to an integral number rounds what is denoted to an integer, and that
integer to the format again. -/
theorem Denotes.nearestInteger_eq : ∃ zeroSign,
    left.nearestInteger = round zeroSign (nearestInt first) := by
  obtain @⟨negative, rank, finite⟩ := denotes
  exact ⟨negative, if_neg finite.ne⟩

/-- A finite number by an infinite one is a zero. A quotient of distances may thus
be finite although one distance overflowed. -/
theorem Denotes.div_infinite (negative : Bool) : ∃ sign, left.div (infinite negative) = zero sign := by
  obtain @⟨sign, rank, finite⟩ := denotes
  exact ⟨sign != negative, by simp [div, combine, infinite, finite.ne]⟩

include denotesToo

/-- A sum of finite numbers is their exact sum, rounded. Only the sign of a zero
depends on the operands beyond that. -/
theorem Denotes.add_eq : ∃ zeroSign, left.add right = round zeroSign (first + second) := by
  obtain @⟨negative, rank, finite⟩ := denotes
  obtain @⟨negativeToo, rankToo, finiteToo⟩ := denotesToo
  exact ⟨negative && negativeToo, by simp only [add, combine, if_neg finite.ne, if_neg finiteToo.ne]⟩

/-- A difference of finite numbers is the exact difference, rounded. -/
theorem Denotes.sub_eq : ∃ zeroSign, left.sub right = round zeroSign (first - second) := by
  rw [sub_eq_add_neg]
  exact denotes.add_eq denotesToo.neg

/-- A sum of finite numbers is finite exactly if the format holds the exact sum. -/
theorem Denotes.isFinite_add : (left.add right).isFinite = true ↔ format.Holds (first + second) := by
  obtain ⟨zeroSign, same⟩ := denotes.add_eq denotesToo
  rw [same, isFinite_round]

/-- A difference of finite numbers is finite exactly if the format holds the exact
difference. -/
theorem Denotes.isFinite_sub : (left.sub right).isFinite = true ↔ format.Holds (first - second) := by
  obtain ⟨zeroSign, same⟩ := denotes.sub_eq denotesToo
  rw [same, isFinite_round]

/-- Where the format holds the difference, the computed one denotes it up to one
rounding. -/
theorem Denotes.sub (holds : format.Holds (first - second)) :
    (left.sub right).Denotes (format.rounded (first - second)) := by
  obtain ⟨zeroSign, same⟩ := denotes.sub_eq denotesToo
  rw [same]
  exact round_denotes zeroSign holds

/-- A product of finite numbers is the exact product, rounded. -/
theorem Denotes.mul_eq : ∃ zeroSign, left.mul right = round zeroSign (first * second) := by
  obtain @⟨negative, rank, finite⟩ := denotes
  obtain @⟨negativeToo, rankToo, finiteToo⟩ := denotesToo
  have neither : ¬ (rank.val = format.infinity ∨ rankToo.val = format.infinity) := by omega
  exact ⟨negative != negativeToo, by simp only [mul, combine, if_neg neither]⟩

/-- A quotient by a number that does not denote zero is the exact quotient, rounded. -/
theorem Denotes.div_eq (divisor : second ≠ 0) :
    ∃ zeroSign, left.div right = round zeroSign (first / second) := by
  obtain @⟨negative, rank, finite⟩ := denotes
  obtain @⟨negativeToo, rankToo, finiteToo⟩ := denotesToo
  have some : rankToo.val ≠ 0 := by
    intro zero
    rw [zero] at divisor
    cases negativeToo <;> simp [Format.signedValue] at divisor
  exact ⟨negative != negativeToo, by
    simp only [div, combine, if_neg finite.ne, if_neg finiteToo.ne, if_neg some]⟩

omit denotes denotesToo

/-- Whatever is combined with no number is no number. Finite outcomes thus come from
signed operands. -/
theorem signed_of_combine {operation : Bool → Nat → Bool → Nat → Binary format}
    (finite : (combine operation left right).isFinite = true) :
    ∃ negative rank negativeToo rankToo,
      left = .signed negative rank ∧ right = .signed negativeToo rankToo := by
  cases left with
  | nan => cases finite
  | signed negative rank =>
    cases right with
    | nan => cases finite
    | signed negativeToo rankToo => exact ⟨negative, rank, negativeToo, rankToo, rfl, rfl⟩

/-- Only finite operands have a finite sum. An infinite operand gives an infinite
sum or none. -/
theorem isFinite_of_add (finite : (left.add right).isFinite = true) :
    left.isFinite = true ∧ right.isFinite = true := by
  obtain ⟨negative, rank, negativeToo, rankToo, rfl, rfl⟩ := signed_of_combine finite
  simp only [add, combine] at finite
  split at finite
  · split at finite <;> simp [isFinite, infinite] at finite
  · split at finite
    · simp [isFinite, infinite] at finite
    · exact ⟨decide_eq_true (by omega), decide_eq_true (by omega)⟩

/-- Only finite operands have a finite product. An infinite operand gives an
infinite product or none. -/
theorem isFinite_of_mul (finite : (left.mul right).isFinite = true) :
    left.isFinite = true ∧ right.isFinite = true := by
  obtain ⟨negative, rank, negativeToo, rankToo, rfl, rfl⟩ := signed_of_combine finite
  simp only [mul, combine] at finite
  split at finite
  · split at finite <;> simp [isFinite, infinite] at finite
  · exact ⟨decide_eq_true (by omega), decide_eq_true (by omega)⟩

/-- Only a finite number has finite quotients. The divisor may well be infinite. -/
theorem isFinite_of_div (finite : (left.div right).isFinite = true) : left.isFinite = true := by
  obtain ⟨negative, rank, negativeToo, rankToo, rfl, rfl⟩ := signed_of_combine finite
  simp only [div, combine] at finite
  split at finite
  · split at finite <;> simp [isFinite, infinite] at finite
  · exact decide_eq_true (by omega)

/-- Rounding to an integral number makes nothing finite that was not. -/
theorem isFinite_of_nearestInteger (finite : number.nearestInteger.isFinite = true) :
    number.isFinite = true := by
  cases number with
  | nan => cases finite
  | signed negative rank =>
    simp only [nearestInteger] at finite
    split at finite
    · simp [isFinite, infinite] at finite
    · exact decide_eq_true (by omega)

end Operations

section Within

/-- The number is finite, and what it denotes lies between two rationals. -/
def Within (number : Binary format) (low high : Rat) : Prop :=
  ∃ value, number.Denotes value ∧ low ≤ value ∧ value ≤ high

variable {low high : Rat}

/-- A rational between two represented ones is rounded to a finite number, which lies between them as
well. -/
theorem round_within {zeroSign : Bool} (representsLow : format.Represents low)
    (representsHigh : format.Represents high) (above : low ≤ value) (below : value ≤ high) :
    (round zeroSign value : Binary format).Within low high :=
  ⟨_, round_denotes zeroSign (representsLow.holds.between representsHigh.holds above below),
    Format.rounded_between representsLow representsHigh above below⟩

variable (denotes : left.Denotes first) (denotesToo : right.Denotes second)
  (representsLow : format.Represents low) (representsHigh : format.Represents high)

include denotes representsLow representsHigh

/-- A number stays between two numbers of the format when it is rounded to an
integral one, if the integer itself does. -/
theorem nearestInteger_within (above : low ≤ nearestInt first) (below : nearestInt first ≤ high) :
    left.nearestInteger.Within low high := by
  obtain ⟨zeroSign, same⟩ := denotes.nearestInteger_eq
  rw [same]
  exact round_within representsLow representsHigh above below

include denotesToo

/-- A product stays between two numbers of the format if the exact product does. -/
theorem mul_within (above : low ≤ first * second) (below : first * second ≤ high) :
    (left.mul right).Within low high := by
  obtain ⟨zeroSign, same⟩ := denotes.mul_eq denotesToo
  rw [same]
  exact round_within representsLow representsHigh above below

/-- A quotient stays between two numbers of the format if the exact quotient does. -/
theorem div_within (divisor : second ≠ 0) (above : low ≤ first / second)
    (below : first / second ≤ high) : (left.div right).Within low high := by
  obtain ⟨zeroSign, same⟩ := denotes.div_eq denotesToo divisor
  rw [same]
  exact round_within representsLow representsHigh above below

end Within

end Binary

end RangeFold
