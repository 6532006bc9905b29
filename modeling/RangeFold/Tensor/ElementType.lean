/-!
# Element types

The closed set of element types a graph value can carry. Only the floating types
can be quantized.
-/

namespace RangeFold

/-- The types that elements can have. -/
inductive ElementType where
  | f32
  | f16
  | bf16
  | i8
  | u8
  | i32
  | i64
  | bool
deriving DecidableEq

namespace ElementType

/-- All element types. -/
def all : List ElementType := [f32, f16, bf16, i8, u8, i32, i64, bool]

/-- The type of a value whose node states none. -/
instance : Inhabited ElementType := ⟨f32⟩

/-- The written name. -/
def text : ElementType → String
  | f32 => "f32"
  | f16 => "f16"
  | bf16 => "bf16"
  | i8 => "i8"
  | u8 => "u8"
  | i32 => "i32"
  | i64 => "i64"
  | bool => "bool"

/-- The type of a written name; names are lower case only. -/
def ofText? (name : String) : Option ElementType :=
  all.find? fun element => element.text == name

/-- The size of one element in bits. A truth value takes a byte. -/
def bits : ElementType → Nat
  | f32 | i32 => 32
  | f16 | bf16 => 16
  | i8 | u8 | bool => 8
  | i64 => 64

/-- A floating-point type. -/
def isFloat : ElementType → Bool
  | f32 | f16 | bf16 => true
  | _ => false

/-- An integer type. -/
def isInteger : ElementType → Bool
  | i8 | u8 | i32 | i64 => true
  | _ => false

/-- Types with negative values. -/
def isSigned : ElementType → Bool
  | u8 | bool => false
  | _ => true

/-- A type is found again by its own name. -/
theorem ofText?_text (element : ElementType) : ofText? element.text = some element := by
  cases element <;> decide

end ElementType

end RangeFold
