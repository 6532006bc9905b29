/-!
# Nearest integers

The rounding of a rational to an integer on which every other rounding of the
library rests. A value half way between two integers goes to the even one, so
the direction of a tie does not depend on its sign.
-/

namespace RangeFold

/-- The integer nearest to a rational. At a tie the floor is kept when it is even
and raised by one when it is odd. -/
def nearestInt (value : Rat) : Int :=
  let below := value.floor
  if value - below < 1 / 2 then below
  else if 1 / 2 < value - below then below + 1
  else below + below % 2

/-- The exponent of the greatest power of two that does not exceed a positive
rational. Numerator and denominator bound it from both sides, so the guess is at
most one too large. -/
def floorLog (value : Rat) : Int :=
  let guess : Int := (value.num.natAbs.log2 : Int) - (value.den.log2 : Int)
  if (2 : Rat) ^ guess ≤ value then guess else guess - 1

end RangeFold
