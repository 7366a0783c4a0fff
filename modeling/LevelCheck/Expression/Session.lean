import LevelCheck.Expression.Evaluation
set_option autoImplicit false

/-! # Lines of a session

A line is an expression, or binds a name with `let`, or gives a bound name another value. A
semicolon at its end keeps its value from being shown. A line that fails changes nothing. -/

namespace LevelCheck.Expression

/-- What a line asks for. -/
inductive Command where
  | nothing
  /-- Bind a name, whether it is bound or not. -/
  | bind (name : String) (value : List Token)
  /-- Give a bound name another value. -/
  | rebind (name : String) (value : List Token)
  | compute (value : List Token)
  deriving DecidableEq, Repr

/-- What a row of tokens asks for. -/
def Command.ofTokens : List Token → Except EvalError Command
  | [] => .ok .nothing
  | .letWord :: .name s :: .assign :: rest => .ok (.bind s rest)
  | .letWord :: _ => .error .expectedBinding
  | .name s :: .assign :: rest => .ok (.rebind s rest)
  | tokens => .ok (.compute tokens)

/-- A line without the blanks around it and the semicolon at its end, and whether there was one. -/
def statementOf (line : String) : String × Bool :=
  let line := Text.trim line
  match Text.withoutEnding? ";" line with
  | some statement => (statement, true)
  | none => (line, false)

/-- The state of a session. -/
structure Session where
  bindings : Bindings
  deriving DecidableEq, Repr, Inhabited

namespace Session

/-- A session in which no name is bound. -/
def start : Session := { bindings := .empty }

/-- Carry out a command: its value, if it has one, and the bindings afterwards. -/
def perform (b : Bindings) : Command → Except Failure (Option Value × Bindings)
  | .nothing => .ok (none, b)
  | .bind name value => do
    let v ← evaluateAll b value
    .ok (none, b.set name v)
  | .rebind name value =>
    match b.get? name with
    | none => refuse (.undefinedName name)
    | some _ => do
      let v ← evaluateAll b value
      .ok (some v, b.set name v)
  | .compute value => do
    let v ← evaluateAll b value
    .ok (some v, b)

/-- The value that a line shows, if any, and the bindings after it. -/
def evaluateLine (b : Bindings) (line : String) : Except Failure (Option Value × Bindings) := do
  let (statement, silent) := statementOf line
  let tokens ← (Token.scan statement.toList).mapError fun e => Failure.error (.scan e)
  let command ← (Command.ofTokens tokens).mapError Failure.error
  let (value, b) ← perform b command
  .ok (if silent then none else value, b)

/-- Evaluate a line. The bindings stay as they are when it fails. -/
def evaluate (s : Session) (line : String) : Except Failure (Option Value) × Session :=
  match evaluateLine s.bindings line with
  | .ok (value, bindings) => (.ok value, { bindings })
  | .error e => (.error e, s)

end Session

end LevelCheck.Expression
