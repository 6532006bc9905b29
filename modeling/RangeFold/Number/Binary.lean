import RangeFold.Number.Nearest

/-!
# Binary floating-point numbers

A format is a significand width and an exponent width. Its non-negative values,
from zero up to infinity, are numbered in increasing order; the number of a value
is its rank. A floating-point number is then a sign and a rank, or the single
value that is not a number.

Every operation computes its exact rational result and rounds it once, to the
nearest rank and at a tie to the even one. No machine float takes part.
-/

namespace RangeFold

/-- A binary interchange format. `precision` counts the significand's digits with
the leading one; `exponentWidth` is the width of the exponent field. -/
structure Format where
  precision : Nat
  exponentWidth : Nat
deriving DecidableEq

namespace Format

/-- The 32-bit format. -/
def binary32 : Format := ⟨24, 8⟩

/-- The 64-bit format. -/
def binary64 : Format := ⟨53, 11⟩

/-- How many ranks share one exponent. -/
def stride (format : Format) : Nat := Nat.pow 2 (format.precision - 1)

/-- The exponent of the least positive value, which is also the spacing of the
smallest values. -/
def unitExponent (format : Format) : Int :=
  3 - (Nat.pow 2 (format.exponentWidth - 1) : Nat) - (format.precision : Int)

/-- The rank of infinity: the one after all finite ranks. -/
def infinity (format : Format) : Nat :=
  (Nat.pow 2 format.exponentWidth - 1) * format.stride

/-- The value of a rank. Ranks below the stride are equally spaced from zero; each
further stride doubles the spacing. Infinity's rank continues the scale, which
places it where the first value too large to represent would be. -/
def magnitude (format : Format) (rank : Nat) : Rat :=
  let binade := rank / format.stride
  let fraction := rank % format.stride
  if binade = 0 then (fraction : Rat) * (2 : Rat) ^ format.unitExponent
  else ((format.stride + fraction : Nat) : Rat) * (2 : Rat) ^ (format.unitExponent + binade - 1)

/-- The exact value of a finite number, given by its sign and rank. -/
def signedValue (format : Format) (negative : Bool) (rank : Nat) : Rat :=
  if negative then -format.magnitude rank else format.magnitude rank

/-- The rank nearest to a non-negative rational. The spacing is the one of the
rational's own exponent; rounding up to the next exponent needs no correction,
because ranks run on across it. Whatever rounds past the finite ranks is infinite. -/
def nearestRank (format : Format) (value : Rat) : Nat :=
  if value = 0 then 0
  else
    let own := floorLog value - (format.precision - 1 : Nat)
    let exponent := if own < format.unitExponent then format.unitExponent else own
    let steps := (nearestInt (value / (2 : Rat) ^ exponent)).toNat
    min format.infinity ((exponent - format.unitExponent).toNat * format.stride + steps)

/-- Rounding gives a rank of the format, infinity being the last. -/
theorem nearestRank_le (format : Format) (value : Rat) :
    format.nearestRank value < format.infinity + 1 := by
  unfold nearestRank
  split
  · exact Nat.succ_pos _
  · exact Nat.lt_succ_of_le (Nat.min_le_left _ _)

end Format

/-- A floating-point number: not a number, or a sign with a rank. Zero and infinity
have both signs. -/
inductive Binary (format : Format) where
  | nan
  | signed (negative : Bool) (rank : Fin (format.infinity + 1))
deriving DecidableEq

namespace Binary

variable {format : Format}

/-- The zero of a sign. -/
def zero (negative : Bool) : Binary format := .signed negative ⟨0, Nat.succ_pos _⟩

instance : Inhabited (Binary format) := ⟨zero false⟩

/-- The infinity of a sign. -/
def infinite (negative : Bool) : Binary format :=
  .signed negative ⟨format.infinity, Nat.lt_succ_self _⟩

/-- Round an exact result. The sign of a nonzero result is its own, also when it
rounds to zero; `zeroSign` is the sign of an exact zero. -/
def round (zeroSign : Bool) (value : Rat) : Binary format :=
  let negative := if value = 0 then zeroSign else decide (value < 0)
  let size := if value < 0 then -value else value
  .signed negative ⟨format.nearestRank size, format.nearestRank_le size⟩

/-- Both signed values and both not-a-number cases of a two-operand operation. -/
def combine (operation : Bool → Nat → Bool → Nat → Binary format) :
    Binary format → Binary format → Binary format
  | .signed leftSign left, .signed rightSign right => operation leftSign left rightSign right
  | _, _ => .nan

/-- Change the sign, of zero and infinity too. -/
def neg : Binary format → Binary format
  | .nan => .nan
  | .signed negative rank => .signed (!negative) rank

/-- Opposite infinities have no sum. An exact zero is negative only when both
operands are. -/
def add : Binary format → Binary format → Binary format :=
  combine fun leftSign left rightSign right =>
    if left = format.infinity then
      if right = format.infinity ∧ leftSign ≠ rightSign then .nan else infinite leftSign
    else if right = format.infinity then infinite rightSign
    else round (leftSign && rightSign)
      (format.signedValue leftSign left + format.signedValue rightSign right)

/-- Subtraction adds the opposite number. -/
def sub (left right : Binary format) : Binary format := add left (neg right)

/-- The sign of a product is negative when exactly one operand's is. Zero times
infinity is not a number. -/
def mul : Binary format → Binary format → Binary format :=
  combine fun leftSign left rightSign right =>
    let sign := leftSign != rightSign
    if left = format.infinity ∨ right = format.infinity then
      if left = 0 ∨ right = 0 then .nan else infinite sign
    else round sign
      (format.signedValue leftSign left * format.signedValue rightSign right)

/-- Zero by zero and infinity by infinity have no quotient; any other number by
zero is infinite. -/
def div : Binary format → Binary format → Binary format :=
  combine fun leftSign left rightSign right =>
    let sign := leftSign != rightSign
    if left = format.infinity then
      if right = format.infinity then .nan else infinite sign
    else if right = format.infinity then zero sign
    else if right = 0 then
      if left = 0 then .nan else infinite sign
    else round sign
      (format.signedValue leftSign left / format.signedValue rightSign right)

/-- The position of a number on the scale of its format, both zeros at 0. -/
def position (negative : Bool) (rank : Nat) : Int :=
  if negative then -(rank : Int) else rank

/-- Compare two numbers by position; nothing holds of a value that is not one. -/
def compare (holds : Int → Int → Bool) : Binary format → Binary format → Bool
  | .signed leftSign left, .signed rightSign right =>
    holds (position leftSign left) (position rightSign right)
  | _, _ => false

/-- A number is not above another. -/
def le : Binary format → Binary format → Bool := compare fun left right => decide (left ≤ right)

/-- A number is below another. -/
def lt : Binary format → Binary format → Bool := compare fun left right => decide (left < right)

/-- Numerical equality: the zeros are equal and not-a-number differs from itself. -/
def same : Binary format → Binary format → Bool := compare fun left right => decide (left = right)

/-- Neither infinite nor what is not a number. -/
def isFinite : Binary format → Bool
  | .nan => false
  | .signed _ rank => decide (rank.val < format.infinity)

/-- Round to an integral number. The sign is kept, also by a result of zero. -/
def nearestInteger : Binary format → Binary format
  | .nan => .nan
  | .signed negative rank =>
    if rank.val = format.infinity then infinite negative
    else round negative (nearestInt (format.signedValue negative rank))

/-- The number nearest to an integer. -/
def ofInt (value : Int) : Binary format := round false value

/-- The number of bits of the format's encoding below the sign. -/
def signWeight (format : Format) : Nat :=
  Nat.pow 2 (format.exponentWidth + (format.precision - 1))

/-- The encoding of a number: its rank, with the sign above it. What is not a number
has many encodings and none of them is preferred. -/
def toBits : Binary format → Option Nat
  | .nan => none
  | .signed negative rank => some ((if negative then signWeight format else 0) + rank)

/-- The number of an encoding. Ranks past infinity's are not numbers. -/
def ofBits (bits : Nat) : Binary format :=
  let rank := bits % signWeight format
  if inside : rank < format.infinity + 1 then
    .signed (decide ((bits / signWeight format) % 2 = 1)) ⟨rank, inside⟩
  else .nan

end Binary

/-- Single precision, the arithmetic of tensor values. -/
abbrev Binary32 := Binary Format.binary32

/-- Double precision, the arithmetic of pass parameters. -/
abbrev Binary64 := Binary Format.binary64

end RangeFold
