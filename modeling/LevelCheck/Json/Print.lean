import LevelCheck.Json.Basic
set_option autoImplicit false

/-! # Writing JSON text

Strings are escaped minimally: quote, backslash and control characters only. Two layouts are
written: a compact one on one line, and an indented one with two spaces per level, in which an empty
array or object stays on its line. -/

namespace LevelCheck.Json

/-! ## Numbers and strings -/

/-- The character of a decimal digit. -/
def digitChar (d : Nat) : Char := Char.ofNat ('0'.toNat + d)

/-- The text of a row of digits. -/
def digitsText (digits : List Nat) : List Char := digits.map digitChar

/-- The text of an exponent, which always has a sign. -/
def exponentText (e : Int) : List Char :=
  'e' :: (if 0 ≤ e then '+' :: (toString e).toList else (toString e).toList)

/-- The text of a number. -/
def numberText (n : JsonNumber) : List Char :=
  (if n.negative then ['-'] else []) ++ digitsText n.whole ++
    (if n.fraction.isEmpty then [] else '.' :: digitsText n.fraction) ++
    (match n.exponent with
    | some e => exponentText e
    | none => [])

/-- The character of a hexadecimal digit. -/
def hexChar (d : Nat) : Char :=
  if d < 10 then Char.ofNat ('0'.toNat + d) else Char.ofNat ('a'.toNat + (d - 10))

/-- How one character is written inside a string. -/
def escapeChar (c : Char) : List Char :=
  if c == '"' then ['\\', '"']
  else if c == '\\' then ['\\', '\\']
  else if c == '\x08' then ['\\', 'b']
  else if c == '\x0c' then ['\\', 'f']
  else if c == '\n' then ['\\', 'n']
  else if c == '\r' then ['\\', 'r']
  else if c == '\t' then ['\\', 't']
  else if c.toNat < 0x20 then
    ['\\', 'u', '0', '0', hexChar (c.toNat / 16), hexChar (c.toNat % 16)]
  else [c]

/-- A string with its quotes. -/
def stringText (s : String) : List Char := '"' :: (s.toList.flatMap escapeChar ++ ['"'])

/-- How a string without text is written: as an empty one. -/
def unpairedText : List Char := ['"', '"']

/-! ## Compact layout -/

mutual
/-- The value on one line. -/
def compactText : Json → List Char
  | .null => "null".toList
  | .bool true => "true".toList
  | .bool false => "false".toList
  | .number n => numberText n
  | .string s => stringText s
  | .unpaired => unpairedText
  | .array items => '[' :: (compactItems items ++ [']'])
  | .object members => '\x7b' :: (compactMembers members ++ ['\x7d'])
/-- Items with commas between them. -/
def compactItems : List Json → List Char
  | [] => []
  | [item] => compactText item
  | item :: rest => compactText item ++ ',' :: compactItems rest
/-- Members with commas between them. -/
def compactMembers : List (String × Json) → List Char
  | [] => []
  | [(name, value)] => stringText name ++ ':' :: compactText value
  | (name, value) :: rest => stringText name ++ ':' :: compactText value ++ ',' :: compactMembers rest
end

/-- The value on one line. -/
def compact (j : Json) : String := String.ofList j.compactText

/-! ## Indented layout -/

/-- A line break and the indentation of a nesting depth. -/
def newLine (depth : Nat) : List Char := '\n' :: List.replicate (2 * depth) ' '

mutual
/-- The value at a nesting depth. -/
def indentedText : Nat → Json → List Char
  | _, .null => "null".toList
  | _, .bool true => "true".toList
  | _, .bool false => "false".toList
  | _, .number n => numberText n
  | _, .string s => stringText s
  | _, .unpaired => unpairedText
  | _, .array [] => ['[', ']']
  | depth, .array (item :: rest) =>
    '[' :: (newLine (depth + 1) ++ indentedText (depth + 1) item ++ indentedItems (depth + 1) rest ++
      newLine depth ++ [']'])
  | _, .object [] => ['\x7b', '\x7d']
  | depth, .object ((name, value) :: rest) =>
    '\x7b' :: (newLine (depth + 1) ++ stringText name ++ [':', ' '] ++
      indentedText (depth + 1) value ++ indentedMembers (depth + 1) rest ++ newLine depth ++ ['\x7d'])
/-- Further items, each on its own line. -/
def indentedItems : Nat → List Json → List Char
  | _, [] => []
  | depth, item :: rest =>
    ',' :: (newLine depth ++ indentedText depth item ++ indentedItems depth rest)
/-- Further members, each on its own line. -/
def indentedMembers : Nat → List (String × Json) → List Char
  | _, [] => []
  | depth, (name, value) :: rest =>
    ',' :: (newLine depth ++ stringText name ++ [':', ' '] ++ indentedText depth value ++
      indentedMembers depth rest)
end

/-- The value laid out with two spaces per level. -/
def pretty (j : Json) : String := String.ofList (indentedText 0 j)

end LevelCheck.Json
