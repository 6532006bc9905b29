import RangeFold.Text.Glyph

/-!
# Quoted text

A text between quotation marks in which every character shows: marks and
backslashes are escaped, the usual control characters have short escapes, and any
other character without a glyph of its own is written by its code.
-/

namespace RangeFold

/-- Hexadecimal digits of a number, lower case, without leading zeros. -/
def hexadecimal (number : Nat) : String := String.ofList (Nat.toDigits 16 number)

/-- One character of a quoted text. -/
def quotedCharacter (character : Char) : String :=
  match character.toNat with
  | 0x00 => "\\0"
  | 0x09 => "\\t"
  | 0x0a => "\\n"
  | 0x0d => "\\r"
  | 0x22 => "\\\""
  | 0x5c => "\\\\"
  | code =>
    if hasGlyph character then character.toString
    else "\\u\x7b" ++ hexadecimal code ++ "\x7d"

/-- A text in quotation marks. -/
def quoted (text : String) : String :=
  "\"" ++ String.join (text.toList.map quotedCharacter) ++ "\""

end RangeFold
