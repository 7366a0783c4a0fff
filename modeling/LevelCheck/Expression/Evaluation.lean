import LevelCheck.Expression.Value
set_option autoImplicit false

/-! # Evaluating expressions

Tokens are read from left to right and evaluated as they are read. Operators of one precedence group
to the left, and prefix operators bind tighter than all others. When the left operand of a
conjunction or disjunction settles the result, the right operand is only read: it must be a
well-formed expression, but nothing in it is looked up or computed.

Nesting is bounded. `evaluate` takes the number of levels that remain, and reads an operand or the
inside of a bracket with one level less. -/

namespace LevelCheck.Expression

/-- What is wrong with a line. -/
inductive EvalError where
  | scan (error : ScanError)
  | operand (error : OperandError)
  | integerTooLarge (value : Nat)
  | undefinedName (name : String)
  | expectedClosing
  | unexpectedToken (token : Token)
  | unexpectedEnd
  | expectedBinding
  deriving DecidableEq, Repr

/-- The wording of the error. -/
def EvalError.message : EvalError → String
  | .scan e => e.message
  | .operand e => e.message
  | .integerTooLarge n => "Integer number too large: " ++ toString n
  | .undefinedName name => "Undefined name '" ++ name ++ "'"
  | .expectedClosing => "Syntax error: expected ')'"
  | .unexpectedToken token => "Syntax error: unexpected '" ++ token.text ++ "'"
  | .unexpectedEnd => "Syntax error: unexpected end of input"
  | .expectedBinding => "Syntax error: expected 'let name = value'"

/-- Why a line has no result: an error in the line, or a limit of the evaluation itself. -/
inductive Failure where
  | error (error : EvalError)
  | nestedTooDeeply
  deriving DecidableEq, Repr

/-- How deeply operands and brackets may be nested. -/
def maxNesting : Nat := 256

/-- The wording of a failure that is not an error in the line. -/
def nestingMessage : String :=
  "expression nested more than " ++ toString maxNesting ++ " levels deep"

/-! ## Bindings -/

/-- The values of names. -/
structure Bindings where
  entries : List (String × Value)
  deriving DecidableEq, Repr, Inhabited

namespace Bindings

/-- No name has a value. -/
def empty : Bindings := { entries := [] }

/-- The value of a name. -/
def get? (b : Bindings) (name : String) : Option Value :=
  (b.entries.find? (·.1 == name)).map (·.2)

/-- Give a name a value, in place of the one it has. -/
def set (b : Bindings) (name : String) (v : Value) : Bindings :=
  { entries := (name, v) :: b.entries.filter (·.1 != name) }

end Bindings

/-! ## Reading and evaluating -/

/-- A value and the tokens that follow its expression. -/
abbrev Evaluated := Except Failure (Value × List Token)

/-- How an expression at the start of a row of tokens is evaluated: whether anything in it is looked
up and computed, and the least precedence of the operators that belong to it. -/
abbrev Reader := Bool → Nat → List Token → Evaluated

/-- The failure of an erroneous line. -/
def refuse {α : Type} (e : EvalError) : Except Failure α := .error (.error e)

/-- The result of applying an operator. -/
def applied (result : Except OperandError Value) : Except Failure Value :=
  result.mapError fun e => .error (.operand e)

/-- A literal, a name or a bracketed expression. -/
def primary (b : Bindings) (nested : Reader) (live : Bool) : List Token → Evaluated
  | .int n :: rest =>
    if n ≤ 2147483647 then .ok (.int (Int32.ofNat n), rest) else refuse (.integerTooLarge n)
  | .double x :: rest => .ok (.double x, rest)
  | .string s :: rest => .ok (.string s, rest)
  | .bool v :: rest => .ok (.bool v, rest)
  | .name s :: rest =>
    match b.get? s with
    | some v => .ok (v, rest)
    | none => if live then refuse (.undefinedName s) else .ok (.bool false, rest)
  | .leftParen :: rest =>
    match nested live 0 rest with
    | .ok (v, .rightParen :: rest) => .ok (v, rest)
    | .ok _ => refuse .expectedClosing
    | .error e => .error e
  | token :: _ => refuse (.unexpectedToken token)
  | [] => refuse .unexpectedEnd

/-- The prefix operators at the start, and what follows them. -/
def prefixRun : List Token → List PrefixOp × List Token
  | .operator .sub :: rest =>
    let (ops, rest) := prefixRun rest
    (.minus :: ops, rest)
  | .bang :: rest =>
    let (ops, rest) := prefixRun rest
    (.not :: ops, rest)
  | rest => ([], rest)

/-- Apply prefix operators, the last of them first. -/
def applyPrefixes (ops : List PrefixOp) (v : Value) : Except Failure Value :=
  ops.foldrM (fun op v => applied (op.apply v)) v

/-- The operand behind prefix operators, and the operators that remain to be applied to it. The least
integer has no literal of its own: it is written as a minus and the literal one too great. -/
def operandOf (b : Bindings) (nested : Reader) (live : Bool) (ops : List PrefixOp)
    (tokens : List Token) : Except Failure (List PrefixOp × Value × List Token) :=
  match ops.getLast?, tokens with
  | some .minus, .int n :: rest =>
    if n = 2147483648 then .ok (ops.dropLast, .int Int32.minValue, rest)
    else (primary b nested live tokens).map fun read => (ops, read)
  | _, _ => (primary b nested live tokens).map fun read => (ops, read)

/-- An operand with its prefix operators. -/
def unary (b : Bindings) (nested : Reader) (live : Bool) (tokens : List Token) : Evaluated := do
  let (ops, tokens) := prefixRun tokens
  let (ops, v, rest) ← operandOf b nested live ops tokens
  let v ← if live then applyPrefixes ops v else .ok v
  .ok (v, rest)

/-- The operators of at least the given precedence that follow an operand, with their right operands.
Each of them takes a token at least, so there are no more of them than tokens. -/
def operators (nested : Reader) (live : Bool) (least : Nat) : Nat → Value → List Token → Evaluated
  | count + 1, left, .operator op :: rest =>
    if op.precedence < least then .ok (left, .operator op :: rest)
    else do
      let live' := live && !op.isSettledBy left
      let (right, rest) ← nested live' (op.precedence + 1) rest
      let left ← if live' then applied (op.apply left right) else .ok left
      operators nested live least count left rest
  | _, left, rest => .ok (left, rest)

/-- Evaluate the expression at the start of a row of at most `size` tokens, with a number of levels
of nesting remaining. -/
def evaluate (b : Bindings) (size : Nat) : Nat → Reader
  | 0, _, _, _ => .error .nestedTooDeeply
  | levels + 1, live, least, tokens => do
    let (left, rest) ← unary b (evaluate b size levels) live tokens
    operators (evaluate b size levels) live least size left rest

/-- The value of a row of tokens that is one expression. -/
def evaluateAll (b : Bindings) (tokens : List Token) : Except Failure Value :=
  match evaluate b tokens.length maxNesting true 0 tokens with
  | .ok (v, []) => .ok v
  | .ok (_, token :: _) => refuse (.unexpectedToken token)
  | .error e => .error e

end LevelCheck.Expression
