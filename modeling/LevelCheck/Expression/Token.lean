import LevelCheck.Decimal
import LevelCheck.Text.Letter
set_option autoImplicit false

/-! # The words of an expression

A line is cut into tokens: numbers, quoted strings, names, operators and brackets, with any blanks
between them. Each token is as long as possible, and a string reaches to the next quote. -/

namespace LevelCheck.Expression

/-- An operator between two operands. -/
inductive Operator where
  | add
  | sub
  | mul
  | div
  | rem
  | eq
  | notEq
  | less
  | lessEq
  | greater
  | greaterEq
  | and
  | or
  deriving DecidableEq, Repr, Inhabited

namespace Operator

/-- How an operator is written. -/
def text : Operator → String
  | .add => "+"
  | .sub => "-"
  | .mul => "*"
  | .div => "/"
  | .rem => "%"
  | .eq => "=="
  | .notEq => "!="
  | .less => "<"
  | .lessEq => "<="
  | .greater => ">"
  | .greaterEq => ">="
  | .and => "&&"
  | .or => "||"

/-- How tightly an operator binds its operands. -/
def precedence : Operator → Nat
  | .or => 1
  | .and => 2
  | .eq | .notEq => 3
  | .less | .lessEq | .greater | .greaterEq => 4
  | .add | .sub => 5
  | .mul | .div | .rem => 6

end Operator

/-- A token. -/
inductive Token where
  | int (value : Nat)
  | double (value : Float)
  | bool (value : Bool)
  | string (text : String)
  | name (text : String)
  | operator (op : Operator)
  | bang
  | assign
  | letWord
  | leftParen
  | rightParen
  deriving DecidableEq, Repr, Inhabited

/-- How a token is shown in a message. -/
def Token.text : Token → String
  | .int n => toString n
  | .double x => Decimal.positionalText x
  | .bool true => "true"
  | .bool false => "false"
  | .string s => "\"" ++ s ++ "\""
  | .name s => s
  | .operator op => op.text
  | .bang => "!"
  | .assign => "="
  | .letWord => "let"
  | .leftParen => "("
  | .rightParen => ")"

/-- What keeps a line from being cut into tokens. -/
inductive ScanError where
  | unterminatedString
  | integerTooLarge (literal : String)
  | unexpectedCharacter (c : Char)
  deriving DecidableEq, Repr

/-- The wording of the error. -/
def ScanError.message : ScanError → String
  | .unterminatedString => "Syntax error: unterminated string literal"
  | .integerTooLarge literal => "Integer number too large: " ++ literal
  | .unexpectedCharacter c => "Unexpected character '" ++ String.singleton c ++ "'"

namespace Token

/-! ## Single tokens -/

/-- A name or word may start with the character. -/
def isWordStart (c : Char) : Bool := Text.isLetter c || c == '_' || c == '$'

/-- A name or word may go on with the character. -/
def isWordPart (c : Char) : Bool := Text.isLetterOrNumber c || c == '_' || c == '$'

/-- Integers from here on are refused. -/
def integerLimit : Nat := 9223372036854775808

/-- The value of a digit. -/
def digitValue (c : Char) : Nat := c.toNat - '0'.toNat

/-- The value of a row of digits. -/
def digitsValue (digits : List Char) : Nat := JsonNumber.ofDigits (digits.map digitValue)

/-- The token of a row of digits. -/
def ofDigits (digits : List Char) : Except ScanError Token :=
  if digitsValue digits < integerLimit then .ok (.int (digitsValue digits))
  else .error (.integerTooLarge (String.ofList digits))

/-- The token of a word: a name unless it is reserved. -/
def ofWord (word : String) : Token :=
  if word = "let" then .letWord
  else if word = "true" then .bool true
  else if word = "false" then .bool false
  else .name word

/-- The string up to the next quote, whose opening quote has been read, and what follows it. -/
def scanString (cs : List Char) : Except ScanError (Token × List Char) :=
  match cs.dropWhile (· != '"') with
  | [] => .error .unterminatedString
  | _ :: rest => .ok (.string (String.ofList (cs.takeWhile (· != '"'))), rest)

/-- The number at the start, and what follows it. A point belongs to it only if a digit follows. -/
def scanNumber (cs : List Char) : Except ScanError (Token × List Char) :=
  let whole := cs.takeWhile Char.isDigit
  match cs.dropWhile Char.isDigit with
  | '.' :: d :: rest =>
    if d.isDigit then
      let fraction := d :: rest.takeWhile Char.isDigit
      .ok (.double (Decimal.ofPositional (whole.map digitValue) (fraction.map digitValue)),
        rest.dropWhile Char.isDigit)
    else (ofDigits whole).map fun token => (token, '.' :: d :: rest)
  | rest => (ofDigits whole).map fun token => (token, rest)

/-- The word that starts with `c`, and what follows it. -/
def scanWord (c : Char) (rest : List Char) : Token × List Char :=
  (ofWord (String.ofList (c :: rest.takeWhile isWordPart)), rest.dropWhile isWordPart)

/-- The operator or bracket that starts with `c`, and what follows it. -/
def scanMark (c : Char) (rest : List Char) : Except ScanError (Token × List Char) :=
  match c, rest with
  | '=', '=' :: more => .ok (.operator .eq, more)
  | '!', '=' :: more => .ok (.operator .notEq, more)
  | '<', '=' :: more => .ok (.operator .lessEq, more)
  | '>', '=' :: more => .ok (.operator .greaterEq, more)
  | '&', '&' :: more => .ok (.operator .and, more)
  | '|', '|' :: more => .ok (.operator .or, more)
  | '=', more => .ok (.assign, more)
  | '!', more => .ok (.bang, more)
  | '<', more => .ok (.operator .less, more)
  | '>', more => .ok (.operator .greater, more)
  | '+', more => .ok (.operator .add, more)
  | '-', more => .ok (.operator .sub, more)
  | '*', more => .ok (.operator .mul, more)
  | '/', more => .ok (.operator .div, more)
  | '%', more => .ok (.operator .rem, more)
  | '(', more => .ok (.leftParen, more)
  | ')', more => .ok (.rightParen, more)
  | c, _ => .error (.unexpectedCharacter c)

/-- The token that starts with `c`, and what follows it. -/
def scanNext (c : Char) (rest : List Char) : Except ScanError (Token × List Char) :=
  if c == '"' then scanString rest
  else if c.isDigit then scanNumber (c :: rest)
  else if isWordStart c then .ok (scanWord c rest)
  else scanMark c rest

/-! ## The tokens of a line -/

theorem length_dropWhile_le {α : Type} (p : α → Bool) (xs : List α) :
    (xs.dropWhile p).length ≤ xs.length :=
  (List.dropWhile_sublist p).length_le

theorem eq_of_map_pair {ε α β : Type} {e : Except ε α} {b rest : β} {a : α}
    (h : e.map (fun x => (x, b)) = .ok (a, rest)) : rest = b := by
  cases e <;> simp_all [Except.map]

theorem length_scanString_le {cs rest : List Char} {token : Token}
    (h : scanString cs = .ok (token, rest)) : rest.length ≤ cs.length := by
  unfold scanString at h
  have bound := length_dropWhile_le (· != '"') cs
  split at h
  · contradiction
  · next found => simp only [Except.ok.injEq, Prod.mk.injEq] at h; grind

theorem length_scanNumber_le {c : Char} {cs rest : List Char} {token : Token} (digit : c.isDigit)
    (h : scanNumber (c :: cs) = .ok (token, rest)) : rest.length ≤ cs.length := by
  have skipped : (c :: cs).dropWhile Char.isDigit = cs.dropWhile Char.isDigit := by
    simp [List.dropWhile, digit]
  have bound := length_dropWhile_le Char.isDigit cs
  unfold scanNumber at h
  rw [skipped] at h
  split at h
  · next d more found =>
    have further := length_dropWhile_le Char.isDigit more
    split at h
    · simp only [Except.ok.injEq, Prod.mk.injEq] at h
      grind
    · have := eq_of_map_pair h
      grind
  · have := eq_of_map_pair h
    grind

theorem length_scanMark_le {c : Char} {cs rest : List Char} {token : Token}
    (h : scanMark c cs = .ok (token, rest)) : rest.length ≤ cs.length := by
  unfold scanMark at h
  split at h <;> grind

/-- Each token uses its first character up, so scanning ends. -/
theorem length_scanNext_le {c : Char} {cs rest : List Char} {token : Token}
    (h : scanNext c cs = .ok (token, rest)) : rest.length ≤ cs.length := by
  unfold scanNext at h
  split at h
  · exact length_scanString_le h
  · split at h
    · next digit => exact length_scanNumber_le digit h
    · split at h
      · have bound := length_dropWhile_le isWordPart cs
        simp only [scanWord, Except.ok.injEq, Prod.mk.injEq] at h
        grind
      · exact length_scanMark_le h

/-- The tokens of a line, with any blanks between them. -/
def scan : List Char → Except ScanError (List Token)
  | [] => .ok []
  | c :: rest =>
    if Text.isBlank c then scan rest
    else
      match _h : scanNext c rest with
      | .error e => .error e
      | .ok (token, more) =>
        match scan more with
        | .error e => .error e
        | .ok tokens => .ok (token :: tokens)
termination_by cs => cs.length
decreasing_by
  · simp
  · have := length_scanNext_le _h
    simp only [List.length_cons]
    omega

end Token

end LevelCheck.Expression
