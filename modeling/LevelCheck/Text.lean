set_option autoImplicit false

/-! # Text

The few operations on text that names and messages need: cutting a dotted name at its last or first
separator, trimming blanks and replacing a pattern. They are stated on `List Char`, where each is a
`takeWhile`, a `dropWhile` or a recursion on the list, and lifted to `String` at the end. -/

namespace LevelCheck.Text

/-! ## Blanks -/

/-- The characters with the Unicode property `White_Space`. -/
def isBlank (c : Char) : Bool :=
  let n := c.toNat
  (9 ≤ n && n ≤ 13) || n == 0x20 || n == 0x85 || n == 0xA0 || n == 0x1680 ||
    (0x2000 ≤ n && n ≤ 0x200A) || n == 0x2028 || n == 0x2029 || n == 0x202F || n == 0x205F ||
    n == 0x3000

/-- Drop the characters at the end that satisfy `p`. -/
def dropEndWhile (p : Char → Bool) (cs : List Char) : List Char :=
  (cs.reverse.dropWhile p).reverse

/-- Drop blanks on both sides. -/
def trim (s : String) : String :=
  String.ofList (dropEndWhile isBlank (s.toList.dropWhile isBlank))

/-! ## Cutting at a separator -/

/-- What follows the last `sep`; the whole text when there is none. -/
def afterLast (sep : Char) (s : String) : String :=
  String.ofList (s.toList.reverse.takeWhile (· != sep)).reverse

/-- What precedes the last `sep`; empty when there is none. -/
def beforeLast (sep : Char) (s : String) : String :=
  String.ofList ((s.toList.reverse.dropWhile (· != sep)).drop 1).reverse

/-- The parts before and after the first `sep`, when there is one. -/
def cutFirst? (sep : Char) (s : String) : Option (String × String) :=
  match s.toList.dropWhile (· != sep) with
  | [] => none
  | _ :: rest => some (String.ofList (s.toList.takeWhile (· != sep)), String.ofList rest)

/-- The text without `ending`, when it ends so. -/
def withoutEnding? (ending s : String) : Option String :=
  if ending.toList.isSuffixOf s.toList then
    some (String.ofList (s.toList.take (s.toList.length - ending.toList.length)))
  else none

/-- The text without `opening`, when it starts so. -/
def withoutOpening? (opening s : String) : Option String :=
  if opening.toList.isPrefixOf s.toList then
    some (String.ofList (s.toList.drop opening.toList.length))
  else none

/-- The pieces between the separators, one more than there are separators. -/
def splitAt (sep : Char) : List Char → List (List Char)
  | [] => [[]]
  | c :: rest =>
    if c == sep then [] :: splitAt sep rest
    else
      match splitAt sep rest with
      | [] => [[c]]
      | piece :: pieces => (c :: piece) :: pieces

/-- A line without the carriage return at its end, if it has one. -/
def withoutReturn (line : List Char) : List Char :=
  match line.getLast? with
  | some '\r' => line.dropLast
  | _ => line

/-- The lines among pieces between line feeds: what follows the last line feed is a line only if it
is not empty, and it is the only one whose end is not a line break. -/
def linesOf : List (List Char) → List (List Char)
  | [] => []
  | [last] => if last.isEmpty then [] else [last]
  | line :: rest => withoutReturn line :: linesOf rest

/-- The lines of a text. A line ends with a line feed, before which a carriage return may stand. -/
def lines (s : String) : List String := (linesOf (splitAt '\n' s.toList)).map String.ofList

/-! ## Replacing -/

/-- Replace occurrences of `pattern` from left to right; `skip` characters of the last occurrence
found are still to be passed over. -/
def replaceFrom (pattern replacement : List Char) : Nat → List Char → List Char
  | _, [] => []
  | skip + 1, _ :: rest => replaceFrom pattern replacement skip rest
  | 0, c :: rest =>
    if pattern.isPrefixOf (c :: rest) then
      replacement ++ replaceFrom pattern replacement (pattern.length - 1) rest
    else c :: replaceFrom pattern replacement 0 rest

/-- Replace every occurrence of a non-empty pattern, scanning from left to right without overlap. -/
def replace (pattern replacement s : String) : String :=
  String.ofList (replaceFrom pattern.toList replacement.toList 0 s.toList)

/-- Lower the letters `A` to `Z`. -/
def lowerAscii (s : String) : String := String.ofList (s.toList.map Char.toLower)

/-! ## Laying out -/

/-- Join the pieces with `sep` between them. -/
def joinWith (sep : String) : List String → String
  | [] => ""
  | [s] => s
  | s :: rest => s ++ sep ++ joinWith sep rest

/-- Put spaces in front until the text has `width` characters. -/
def padStart (width : Nat) (s : String) : String :=
  String.ofList (List.replicate (width - s.toList.length) ' ') ++ s

end LevelCheck.Text
