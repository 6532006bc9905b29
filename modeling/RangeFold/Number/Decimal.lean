import RangeFold.Number.Binary

/-!
# Shortest decimal text

A floating-point number is written with the fewest decimal digits that single it
out: the text is the point of the coarsest decimal grid on which some point
rounds to the number. Positional notation is used for every size, without an
exponent and without a trailing point.

Decimal grids are searched from coarse to fine. A grid has a point that rounds
to the number exactly if one of the two grid points next to the number does, so
only those two are tried.
-/

namespace RangeFold

/-- A point of the decimal grid with spacing `10 ^ exponent`. -/
structure GridPoint where
  digits : Nat
  exponent : Int
deriving DecidableEq

namespace GridPoint

/-- The rational at a point of the grid. -/
def value (point : GridPoint) : Rat := (point.digits : Rat) * (10 : Rat) ^ point.exponent

/-- Positional notation. Digits past the point are padded with zeros on the left. -/
def text (point : GridPoint) : String :=
  if 0 ≤ point.exponent then
    toString (point.digits * Nat.pow 10 point.exponent.toNat)
  else
    let places := (-point.exponent).toNat
    let whole := point.digits / Nat.pow 10 places
    let fraction := toString (point.digits % Nat.pow 10 places)
    toString whole ++ "." ++
      String.ofList (List.replicate (places - fraction.length) '0') ++ fraction

end GridPoint

/-- The rationals that round to a number. Its ends belong to it exactly when the
number's rank is even. -/
structure RoundingInterval where
  low : Rat
  high : Rat
  closed : Bool

namespace RoundingInterval

/-- The interval of a rank reaches half way to both neighbours. -/
def ofRank (format : Format) (rank : Nat) : RoundingInterval where
  low := (format.magnitude (rank - 1) + format.magnitude rank) / 2
  high := (format.magnitude rank + format.magnitude (rank + 1)) / 2
  closed := rank % 2 == 0

/-- The rational rounds to the number that the interval belongs to. -/
def holds (interval : RoundingInterval) (value : Rat) : Bool :=
  if interval.closed then decide (interval.low ≤ value) && decide (value ≤ interval.high)
  else decide (interval.low < value) && decide (value < interval.high)

/-- The point of one grid that rounds to `value`, if any. Of two such neighbours the
nearer is taken, at a tie the upper. -/
def pointOn (interval : RoundingInterval) (value : Rat) (exponent : Int) : Option GridPoint :=
  let below : GridPoint := ⟨(value / (10 : Rat) ^ exponent).floor.toNat, exponent⟩
  let above : GridPoint := ⟨below.digits + 1, exponent⟩
  match interval.holds below.value, interval.holds above.value with
  | true, true =>
    some (if value - below.value < above.value - value then below else above)
  | true, false => some below
  | false, true => some above
  | false, false => none

/-- The exponent of a grid too coarse for the interval. Ten lies between the third
and the fourth power of two, so a third of a positive and a quarter of a negative
binary exponent bound the decimal one from above. -/
def coarsest (interval : RoundingInterval) : Int :=
  let binary := floorLog interval.high
  if 0 ≤ binary then binary / 3 + 1 else binary / 4 + 1

/-- The first grid, from coarse to fine, with a point in the interval. The grid that
is finer than the format's least spacing always has one. -/
def shortest (interval : RoundingInterval) (value : Rat) (finest : Int) : GridPoint :=
  let start := interval.coarsest
  let found := (List.range (start - finest + 1).toNat).findSome? fun (step : Nat) =>
    interval.pointOn value (start - step)
  found.getD ⟨(value / (10 : Rat) ^ finest).floor.toNat, finest⟩

end RoundingInterval

/-- The decimal text of a finite magnitude. -/
def Format.decimal (format : Format) (rank : Nat) : String :=
  if rank = 0 then "0"
  else
    let interval := RoundingInterval.ofRank format rank
    (interval.shortest (format.magnitude rank) format.unitExponent).text

/-- The text of a number, its sign in front also for zero. -/
def Binary.text {format : Format} : Binary format → String
  | .nan => "NaN"
  | .signed negative rank =>
    (if negative then "-" else "") ++
      if rank.val = format.infinity then "inf" else format.decimal rank

end RangeFold
