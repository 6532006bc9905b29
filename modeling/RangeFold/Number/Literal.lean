import RangeFold.Number.Binary

/-!
# Decimal literals

The value of a number as it is written. A literal without point and exponent is an
integer where a 64-bit word holds it. Any other literal is a double, computed in
three steps: the leading digits that fit an unsigned 64-bit word form the
significand, digits beyond it only move the point, and the significand is multiplied
or divided by a power of ten. Each step rounds once, so a long literal need not
become the double nearest to it. A literal too large for a double has no value.
-/

namespace RangeFold

/-- A number as written: digits before and after the point, and a signed exponent. The
fraction and the exponent are absent if their marks are. -/
structure DecimalLiteral where
  negative : Bool
  whole : List Nat
  fraction : Option (List Nat)
  exponent : Option (Bool × List Nat)
deriving DecidableEq

/-- The value of a literal. -/
inductive LiteralValue where
  | integer (value : Int)
  | real (value : Binary64)
deriving DecidableEq

namespace DecimalLiteral

/-- The first number that does not fit an unsigned 64-bit word. -/
def wordLimit : Nat := 18446744073709551616

/-- The largest exponent that is read as such. -/
def exponentLimit : Nat := 2147483647

/-- The number of the longest run of leading digits that fits below a limit, and the
digits after it. -/
def leading (limit : Nat) : Nat → List Nat → Nat × List Nat
  | number, [] => (number, [])
  | number, digit :: rest =>
    if number * 10 + digit < limit then leading limit (number * 10 + digit) rest
    else (number, digit :: rest)

/-- A power of ten as a double. -/
def powerOfTen (exponent : Nat) : Binary64 := Binary.round false ((10 : Rat) ^ exponent)

/-- The greatest power of ten that is a double. -/
def greatestPower : Nat := 308

/-- Divide by a power of ten of any size, in steps of the greatest one. Four steps leave
nothing of a 64-bit significand. -/
def scaleDown : Nat → Binary64 → Nat → Binary64
  | 0, _, _ => Binary.zero false
  | steps + 1, value, exponent =>
    if exponent ≤ greatestPower then Binary.div value (powerOfTen exponent)
    else scaleDown steps (Binary.div value (powerOfTen greatestPower)) (exponent - greatestPower)

/-- A significand times a power of ten, or none if that is too large. Zero takes any
exponent. -/
def scaled (significand : Nat) (exponent : Int) : Option Binary64 :=
  let value : Binary64 := Binary.ofInt significand
  if 0 ≤ exponent then
    if exponent.toNat ≤ greatestPower then
      let product := Binary.mul value (powerOfTen exponent.toNat)
      if product.isFinite then some product else none
    else if significand = 0 then some (Binary.zero false)
    else none
  else some (scaleDown 5 value (-exponent).toNat)

/-- The magnitude of a literal that is a double. An exponent too large to be read
makes a zero of anything it would make smaller, and of zero itself. -/
def magnitude (literal : DecimalLiteral) : Option Binary64 :=
  let (wholePart, beyond) := leading wordLimit 0 literal.whole
  let (significand, unread) := leading wordLimit wholePart (literal.fraction.getD [])
  let placed : Int :=
    (beyond.length : Int) - (((literal.fraction.getD []).length : Int) - (unread.length : Int))
  match literal.exponent with
  | none => scaled significand placed
  | some (down, digits) =>
    let (exponent, tooLong) := leading (exponentLimit + 1) 0 digits
    if !tooLong.isEmpty then
      if significand ≠ 0 ∧ !down then none else some (Binary.zero false)
    else if down then scaled significand (placed - exponent)
    else scaled significand (placed + exponent)

/-- The value of a literal. An integer stays one if it is an unsigned word, or negative
and a signed one; minus zero is a double. -/
def value (literal : DecimalLiteral) : Option LiteralValue :=
  let asReal : Option LiteralValue :=
    literal.magnitude.map fun size => .real (if literal.negative then size.neg else size)
  if literal.fraction.isSome || literal.exponent.isSome then asReal
  else
    let (number, beyond) := leading wordLimit 0 literal.whole
    if !beyond.isEmpty then asReal
    else if !literal.negative then some (.integer number)
    else if number = 0 ∨ wordLimit / 2 < number then asReal
    else some (.integer (-(number : Int)))

end DecimalLiteral

end RangeFold
