import LevelCheck.Double
import LevelCheck.Expression.Token
set_option autoImplicit false

/-! # Values and operators

Expressions compute with 32-bit integers, doubles, truth values and strings. Integer arithmetic
wraps; a double and an integer meet as doubles; adding a string to anything joins their texts. -/

namespace LevelCheck.Expression

/-- A value. -/
inductive Value where
  | int (value : Int32)
  | double (value : Float)
  | bool (value : Bool)
  | string (text : String)
  deriving DecidableEq, Repr, Inhabited

/-- The type of a value. -/
inductive ValueType where
  | int
  | double
  | bool
  | string
  deriving DecidableEq, Repr, Inhabited

/-- The word for the type. -/
def ValueType.word : ValueType → String
  | .int => "int"
  | .double => "double"
  | .bool => "boolean"
  | .string => "String"

namespace Value

/-- The type of the value. -/
def type : Value → ValueType
  | .int _ => .int
  | .double _ => .double
  | .bool _ => .bool
  | .string _ => .string

/-- A number as a double. -/
def double? : Value → Option Float
  | .int i => some (Float.ofInt i.toInt)
  | .double x => some x
  | _ => none

/-- Integral doubles below this magnitude are shown with one decimal. -/
def plainLimit : Float := 1e7

/-- How a double is shown: integral ones of moderate size with one decimal, all others by their
shortest digits without an exponent. -/
def doubleText (x : Float) : String :=
  if x.isNaN then "NaN"
  else if x.isInf then (if 0.0 < x then "Infinity" else "-Infinity")
  else if x.floor == x && x.abs < plainLimit then Decimal.positionalText x ++ ".0"
  else Decimal.positionalText x

/-- How a value is shown when it is joined to a string. -/
def plainText : Value → String
  | .int i => toString i.toInt
  | .double x => doubleText x
  | .bool true => "true"
  | .bool false => "false"
  | .string s => s

/-- How a value is shown. -/
def text : Value → String
  | .string s => "\"" ++ s ++ "\""
  | v => v.plainText

end Value

/-- What keeps an operator from being applied. -/
inductive OperandError where
  | badOperand (op : String) (type : ValueType)
  | badOperands (op : Operator) (left right : ValueType)
  | divisionByZero
  deriving DecidableEq, Repr

/-- The wording of the error. -/
def OperandError.message : OperandError → String
  | .badOperand op type => "Bad operand type " ++ type.word ++ " for unary operator '" ++ op ++ "'"
  | .badOperands op left right =>
    "Bad operand types for binary operator '" ++ op.text ++ "': " ++ left.word ++ " and " ++ right.word
  | .divisionByZero => "java.lang.ArithmeticException: / by zero"

/-! ## Applying operators -/

/-- An operator in front of its operand. -/
inductive PrefixOp where
  | minus
  | not
  deriving DecidableEq, Repr, Inhabited

/-- How the operator is written. -/
def PrefixOp.text : PrefixOp → String
  | .minus => "-"
  | .not => "!"

/-- The operator applied to a value. -/
def PrefixOp.apply : PrefixOp → Value → Except OperandError Value
  | .minus, .int i => .ok (.int (-i))
  | .minus, .double x => .ok (.double (-x))
  | .not, .bool b => .ok (.bool !b)
  | op, v => .error (.badOperand op.text v.type)

namespace Operator

/-- The operator on integers; there is no result for the operators on truth values. -/
def onInts? (op : Operator) (l r : Int32) : Option (Except OperandError Value) :=
  match op with
  | .add => some (.ok (.int (l + r)))
  | .sub => some (.ok (.int (l - r)))
  | .mul => some (.ok (.int (l * r)))
  | .div => some (if r = 0 then .error .divisionByZero else .ok (.int (l / r)))
  | .rem => some (if r = 0 then .error .divisionByZero else .ok (.int (l % r)))
  | .eq => some (.ok (.bool (l == r)))
  | .notEq => some (.ok (.bool (l != r)))
  | .less => some (.ok (.bool (l < r)))
  | .lessEq => some (.ok (.bool (l ≤ r)))
  | .greater => some (.ok (.bool (r < l)))
  | .greaterEq => some (.ok (.bool (r ≤ l)))
  | .and | .or => none

/-- The operator on doubles; there is no result for the operators on truth values. -/
def onDoubles? (op : Operator) (l r : Float) : Option Value :=
  match op with
  | .add => some (.double (l + r))
  | .sub => some (.double (l - r))
  | .mul => some (.double (l * r))
  | .div => some (.double (l / r))
  | .rem => some (.double (Double.remainder l r))
  | .eq => some (.bool (l == r))
  | .notEq => some (.bool (l != r))
  | .less => some (.bool (l < r))
  | .lessEq => some (.bool (l ≤ r))
  | .greater => some (.bool (r < l))
  | .greaterEq => some (.bool (r ≤ l))
  | .and | .or => none

/-- The operator on truth values. -/
def onBools? (op : Operator) (l r : Bool) : Option Value :=
  match op with
  | .and => some (.bool (l && r))
  | .or => some (.bool (l || r))
  | .eq => some (.bool (l == r))
  | .notEq => some (.bool (l != r))
  | _ => none

/-- The operator on strings. -/
def onStrings? (op : Operator) (l r : String) : Option Value :=
  match op with
  | .add => some (.string (l ++ r))
  | .eq => some (.bool (l == r))
  | .notEq => some (.bool (l != r))
  | _ => none

/-- The operator applied to two values. -/
def apply (op : Operator) (left right : Value) : Except OperandError Value :=
  let refused : Except OperandError Value := .error (.badOperands op left.type right.type)
  match left, right with
  | .int l, .int r => (op.onInts? l r).getD refused
  | .bool l, .bool r => ((op.onBools? l r).map .ok).getD refused
  | .string l, .string r => ((op.onStrings? l r).map .ok).getD refused
  | .string l, r => if op = .add then .ok (.string (l ++ r.plainText)) else refused
  | l, .string r => if op = .add then .ok (.string (l.plainText ++ r)) else refused
  | l, r =>
    match l.double?, r.double? with
    | some l, some r => ((op.onDoubles? l r).map .ok).getD refused
    | _, _ => refused

/-- The operator's left operand settles its result: false does for a conjunction, and true for a
disjunction. -/
def isSettledBy : Operator → Value → Bool
  | .and, .bool false => true
  | .or, .bool true => true
  | _, _ => false

end Operator

end LevelCheck.Expression
