import LevelCheck.Text
set_option autoImplicit false

/-! # JSON values

A value keeps what its text says: an object is the list of its members in written order, repeated
names included, and a number is its written digits, so that `1`, `1.0` and `1e0` stay apart. What a
number or a repeated member *means* is decided by whoever reads the value. -/

namespace LevelCheck

/-- A written number: a sign, the digits before and after the point, and the exponent. The fraction
is empty exactly when no point is written. -/
structure JsonNumber where
  negative : Bool
  whole : List Nat
  fraction : List Nat
  exponent : Option Int
  deriving Repr, DecidableEq, Inhabited

/-- A JSON value. -/
inductive Json where
  | null
  | bool (value : Bool)
  | number (value : JsonNumber)
  | string (text : String)
  /-- A string, or an object with a member name, whose escapes name half of a surrogate pair: the
  grammar allows it, but it has no text. -/
  | unpaired
  | array (items : List Json)
  | object (members : List (String × Json))
  deriving Repr, Inhabited

namespace JsonNumber

/-- The digits of a natural number, most significant first. -/
def digitsOf (n : Nat) : List Nat :=
  (Nat.toDigits 10 n).map fun c => c.toNat - '0'.toNat

/-- The number that a row of digits writes. -/
def ofDigits (digits : List Nat) : Nat :=
  digits.foldl (fun total d => 10 * total + d) 0

/-- An integer as a written number. -/
def ofInt (i : Int) : JsonNumber :=
  { negative := decide (i < 0), whole := digitsOf i.natAbs, fraction := [], exponent := none }

/-- No point and no exponent is written. -/
def isInteger (n : JsonNumber) : Bool := n.fraction.isEmpty && n.exponent.isNone

/-- The integer that is written. A negative zero, a point or an exponent makes a number that is
not an integer. -/
def toInt? (n : JsonNumber) : Option Int :=
  if n.isInteger then
    match n.negative, ofDigits n.whole with
    | true, 0 => none
    | true, m => some (-(m : Int))
    | false, m => some m
  else none

end JsonNumber

namespace Json

/-- The number that writes `i`. -/
def ofInt (i : Int) : Json := .number (JsonNumber.ofInt i)

/-- The number that writes `n`. -/
def ofNat (n : Nat) : Json := ofInt n

/-- A text, or null when there is none. -/
def ofText? (s : Option String) : Json :=
  match s with
  | some s => .string s
  | none => .null

/-- The value of the first member called `name`. -/
def member? (name : String) : Json → Option Json
  | .object members => (members.find? (·.1 == name)).map (·.2)
  | _ => none

/-- The text of a string. -/
def text? : Json → Option String
  | .string s => some s
  | _ => none

/-- The items of an array. -/
def items? : Json → Option (List Json)
  | .array items => some items
  | _ => none

/-- The integer that a number writes. -/
def int? : Json → Option Int
  | .number n => n.toInt?
  | _ => none

/-- The natural number that a number writes. -/
def nat? (j : Json) : Option Nat :=
  match j.int? with
  | some (.ofNat n) => some n
  | _ => none

/-- The truth value. -/
def bool? : Json → Option Bool
  | .bool b => some b
  | _ => none

end Json

end LevelCheck
