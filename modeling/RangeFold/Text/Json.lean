import RangeFold.Number.Literal

/-!
# JSON

Reading a JSON text into a tree. The tree keeps numbers as they are written and the
fields of an object in order with their repetitions, so what they mean is left to
whoever reads the tree. A text with an unpaired surrogate has no characters; it is
well formed all the same, and only fails who looks at it.
-/

namespace RangeFold

/-- A document as far as settings use it. -/
inductive Json where
  | null
  | truth (value : Bool)
  | number (literal : DecimalLiteral)
  | text (content : Option String)
  | list (items : List Json)
  | object (fields : List (Option String × Json))

namespace Json

/-- The characters that may stand between tokens. -/
def isBlank (character : Char) : Bool :=
  character == ' ' || character == '\n' || character == '\t' || character == '\r'

/-- What follows the blanks. -/
def skipBlanks (input : List Char) : List Char := input.dropWhile isBlank

/-- The value of a hexadecimal digit in either case. -/
def hexDigit (character : Char) : Option Nat :=
  let code := character.toNat
  if 0x30 ≤ code ∧ code ≤ 0x39 then some (code - 0x30)
  else if 0x61 ≤ code ∧ code ≤ 0x66 then some (code - 0x61 + 10)
  else if 0x41 ≤ code ∧ code ≤ 0x46 then some (code - 0x41 + 10)
  else none

/-- The number that hexadecimal digits stand for. -/
def hexNumber (characters : List Char) : Option Nat :=
  characters.foldlM (fun number character =>
    (hexDigit character).map fun digit => number * 16 + digit) 0

/-- The code of a character escaped by one letter or mark. -/
def shortEscape (character : Char) : Option Nat :=
  match character with
  | '\x22' => some 0x22
  | '\x5c' => some 0x5c
  | '/' => some 0x2f
  | 'b' => some 0x08
  | 'f' => some 0x0c
  | 'n' => some 0x0a
  | 'r' => some 0x0d
  | 't' => some 0x09
  | _ => none

/-- Read the rest of a text after its opening mark into code units. Control characters
must be escaped. -/
def readUnits : List Char → Option (List Nat × List Char)
  | [] => none
  | '\x22' :: rest => some ([], rest)
  | '\x5c' :: 'u' :: a :: b :: c :: d :: rest =>
    match hexNumber [a, b, c, d], readUnits rest with
    | some unit, some (units, after) => some (unit :: units, after)
    | _, _ => none
  | '\x5c' :: escape :: rest =>
    match shortEscape escape, readUnits rest with
    | some unit, some (units, after) => some (unit :: units, after)
    | _, _ => none
  | character :: rest =>
    if character.toNat < 0x20 ∨ character = '\x5c' then none
    else
      match readUnits rest with
      | some (units, after) => some (character.toNat :: units, after)
      | none => none

/-- The characters of code units. A leading surrogate and the trailing one after it are
one character; a surrogate without its partner is none. -/
def joinUnits : List Nat → Option (List Char)
  | [] => some []
  | unit :: rest =>
    if 0xd800 ≤ unit ∧ unit ≤ 0xdbff then
      match rest with
      | low :: after =>
        if 0xdc00 ≤ low ∧ low ≤ 0xdfff then
          (joinUnits after).map
            (Char.ofNat (0x10000 + (unit - 0xd800) * 0x400 + (low - 0xdc00)) :: ·)
        else none
      | [] => none
    else if 0xdc00 ≤ unit ∧ unit ≤ 0xdfff then none
    else (joinUnits rest).map (Char.ofNat unit :: ·)

/-- Read the rest of a text after its opening mark. -/
def readText (input : List Char) : Option (Option String × List Char) :=
  (readUnits input).map fun (units, rest) => ((joinUnits units).map String.ofList, rest)

/-- Read digits, as many as there are. -/
def readDigits (input : List Char) : List Nat × List Char :=
  ((input.takeWhile Char.isDigit).map fun character => character.toNat - 0x30,
    input.dropWhile Char.isDigit)

/-- Read the digits that a mark demands. -/
def readSomeDigits (input : List Char) : Option (List Nat × List Char) :=
  let (digits, rest) := readDigits input
  if digits.isEmpty then none else some (digits, rest)

/-- Read the digits before the point. A leading zero stands alone. -/
def readWhole (input : List Char) : Option (List Nat × List Char) :=
  match readSomeDigits input with
  | some (0 :: _ :: _, _) => none
  | other => other

/-- Read a point and the digits after it, if there is a point. -/
def readFraction : List Char → Option (Option (List Nat) × List Char)
  | '.' :: rest => (readSomeDigits rest).map fun (digits, after) => (some digits, after)
  | input => some (none, input)

/-- Read the sign and the digits of an exponent. -/
def readSignedDigits : List Char → Option ((Bool × List Nat) × List Char)
  | '-' :: rest => (readSomeDigits rest).map fun (digits, after) => ((true, digits), after)
  | '+' :: rest => (readSomeDigits rest).map fun (digits, after) => ((false, digits), after)
  | input => (readSomeDigits input).map fun (digits, after) => ((false, digits), after)

/-- Read an exponent, if there is one. -/
def readExponent : List Char → Option (Option (Bool × List Nat) × List Char)
  | 'e' :: rest | 'E' :: rest =>
    (readSignedDigits rest).map fun (exponent, after) => (some exponent, after)
  | input => some (none, input)

/-- Read a number without its sign. -/
def readUnsigned (negative : Bool) (input : List Char) : Option (DecimalLiteral × List Char) := do
  let (whole, input) ← readWhole input
  let (fraction, input) ← readFraction input
  let (exponent, input) ← readExponent input
  return (⟨negative, whole, fraction, exponent⟩, input)

/-- Read a number with its sign, and answer what follows it. -/
def readNumber : List Char → Option (DecimalLiteral × List Char)
  | '-' :: rest => readUnsigned true rest
  | input => readUnsigned false input

mutual

/-- Read one value after any blanks. The first argument bounds the depth of the calls. -/
def readValue : Nat → List Char → Option (Json × List Char)
  | 0, _ => none
  | depth + 1, input =>
    match skipBlanks input with
    | 'n' :: 'u' :: 'l' :: 'l' :: rest => some (.null, rest)
    | 't' :: 'r' :: 'u' :: 'e' :: rest => some (.truth true, rest)
    | 'f' :: 'a' :: 'l' :: 's' :: 'e' :: rest => some (.truth false, rest)
    | '\x22' :: rest => (readText rest).map fun (content, after) => (.text content, after)
    | '\x5b' :: rest =>
      match skipBlanks rest with
      | '\x5d' :: after => some (.list [], after)
      | _ => (readItems depth rest).map fun (items, after) => (.list items, after)
    | '\x7b' :: rest =>
      match skipBlanks rest with
      | '\x7d' :: after => some (.object [], after)
      | _ => (readFields depth rest).map fun (fields, after) => (.object fields, after)
    | start => (readNumber start).map fun (literal, after) => (.number literal, after)
termination_by structural depth => depth

/-- Read the items of a list up to its closing bracket. -/
def readItems : Nat → List Char → Option (List Json × List Char)
  | 0, _ => none
  | depth + 1, input =>
    match readValue depth input with
    | none => none
    | some (item, rest) =>
      match skipBlanks rest with
      | ',' :: after => (readItems depth after).map fun (items, final) => (item :: items, final)
      | '\x5d' :: after => some ([item], after)
      | _ => none
termination_by structural depth => depth

/-- Read the fields of an object up to its closing brace. -/
def readFields : Nat → List Char → Option (List (Option String × Json) × List Char)
  | 0, _ => none
  | depth + 1, input =>
    match skipBlanks input with
    | '\x22' :: rest =>
      match readText rest with
      | none => none
      | some (name, rest) =>
        match skipBlanks rest with
        | ':' :: rest =>
          match readValue depth rest with
          | none => none
          | some (value, rest) =>
            match skipBlanks rest with
            | ',' :: after =>
              (readFields depth after).map fun (fields, final) => ((name, value) :: fields, final)
            | '\x7d' :: after => some ([(name, value)], after)
            | _ => none
        | _ => none
    | _ => none
termination_by structural depth => depth

end

/-- Read a whole text. A value takes at least half as many characters as its calls are
deep. -/
def read (source : String) : Option Json :=
  let characters := source.toList
  match readValue (2 * characters.length + 2) characters with
  | some (value, rest) => if (skipBlanks rest).isEmpty then some value else none
  | none => none

/-- The only field of a name, absent if there is none. A repeated field is refused. -/
def field (fields : List (Option String × Json)) (name : String) : Option (Option Json) :=
  match fields.filter fun (key, _) => key == some name with
  | [] => some none
  | [(_, value)] => some (some value)
  | _ => none

/-- The values of a record's named fields, absent where not given. A record is written
as an object, whose other fields do not matter, or as the list of its values, which may
end early. -/
def record (names : List String) : Json → Option (List (Option Json))
  | .object fields =>
    if fields.all fun (key, _) => key.isSome then names.mapM (field fields) else none
  | .list items =>
    if items.length ≤ names.length then
      some ((List.range names.length).map fun place => items[place]?)
    else none
  | _ => none

end Json

end RangeFold
