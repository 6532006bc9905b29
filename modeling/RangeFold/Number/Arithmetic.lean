import RangeFold.Number.Decimal

/-!
# Arithmetic on tensor elements

The operations that quantization and constant folding need of an element. They
are stated as a class so that the same definitions run on floating-point numbers,
where each operation rounds once, and on rationals, where none does. Statements
about what a graph computes in exact arithmetic are statements about the second
instance of one program.
-/

namespace RangeFold

/-- Elements that can be quantized. Comparisons answer false where either operand
has no place in the order. -/
class Arithmetic (α : Type) extends Inhabited α where
  ofInt : Int → α
  add : α → α → α
  sub : α → α → α
  mul : α → α → α
  div : α → α → α
  neg : α → α
  nearestInteger : α → α
  le : α → α → Bool
  lt : α → α → Bool
  same : α → α → Bool
  isFinite : α → Bool
  text : α → String

namespace Arithmetic

variable {α : Type} [Arithmetic α]

/-- The lesser of two elements. An element that does not equal itself yields to the
other one. -/
def lesser (left right : α) : α :=
  if same left left && same right right then
    if le left right then left else right
  else if same left left then left else right

/-- The greater of two elements. An element that does not equal itself yields to the
other one. -/
def greater (left right : α) : α :=
  if same left left && same right right then
    if le left right then right else left
  else if same left left then left else right

end Arithmetic

instance binaryArithmetic (format : Format) : Arithmetic (Binary format) where
  default := Binary.zero false
  ofInt := Binary.ofInt
  add := Binary.add
  sub := Binary.sub
  mul := Binary.mul
  div := Binary.div
  neg := Binary.neg
  nearestInteger := Binary.nearestInteger
  le := Binary.le
  lt := Binary.lt
  same := Binary.same
  isFinite := Binary.isFinite
  text := Binary.text

/-- The text of a fraction in lowest terms. -/
def rationalText (value : Rat) : String :=
  if value.den = 1 then toString value.num
  else toString value.num ++ "/" ++ toString value.den

instance rationalArithmetic : Arithmetic Rat where
  default := 0
  ofInt value := value
  add left right := left + right
  sub left right := left - right
  mul left right := left * right
  div left right := left / right
  neg value := -value
  nearestInteger value := nearestInt value
  le left right := decide (left ≤ right)
  lt left right := decide (left < right)
  same left right := decide (left = right)
  isFinite _ := true
  text := rationalText

end RangeFold
