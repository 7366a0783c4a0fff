import LevelCheck.Expression.Session
import LevelCheck.Proofs.ExpressionReading
import Mathlib.Tactic
set_option autoImplicit false

/-! # Integer arithmetic

Integers are added, subtracted, multiplied and negated in 32 bits, at every operator of an expression.
That comes to the same as computing the whole expression exactly and reducing it once at the end,
since reduction goes through each of these operators. Division does not, but it loses nothing: the
quotient and the remainder give the dividend back, also where the quotient does not fit. -/

namespace LevelCheck.Expression

/-! ## Lines that ask for a value -/

/-- The line asks for the value of the tokens, and for it to be shown. -/
def Asks (line : String) (tokens : List Token) : Prop :=
  ∃ statement, statementOf line = (statement, false) ∧ Token.scan statement.toList = .ok tokens

/-- An expression has tokens, and none that only stand in front of an expression. -/
theorem Parses.plain {p : Nat} {tokens : List Token} {e : Expr} (h : Parses p tokens e) :
    tokens ≠ [] ∧ .assign ∉ tokens ∧ .letWord ∉ tokens := by
  induction h with
  | bracket p inside ih => simp [ih.2.1, ih.2.2]
  | prefixed p op operand ih => cases op <;> simp [PrefixOp.token, ih.2.1, ih.2.2]
  | binary op binds left right ihl ihr => simp [ihl.2.1, ihl.2.2, ihr.2.1, ihr.2.2]
  | _ => simp

theorem Parses.compute {p : Nat} {tokens : List Token} {e : Expr} (h : Parses p tokens e) :
    Command.ofTokens tokens = .ok (.compute tokens) := by
  obtain ⟨some, noAssign, noLet⟩ := h.plain
  unfold Command.ofTokens
  split <;> simp_all

/-- A line that asks for an expression shows the value of its tree, or fails as its tree does. -/
theorem Session.evaluate_of_asks (s : Session) {line : String} {tokens : List Token} {e : Expr}
    (asks : Asks line tokens) (expression : IsExpression tokens e) :
    s.evaluate line = ((e.eval s.bindings).map some, s) := by
  obtain ⟨statement, split, scanned⟩ := asks
  have command := expression.parses.compute
  have value := expression.evaluateAll_eq s.bindings
  have steps : evaluateLine s.bindings line
      = (e.eval s.bindings).map fun v => (some v, s.bindings) := by
    simp only [evaluateLine, split, scanned, Except.mapError, bind, Except.bind, command, perform,
      value]
    cases e.eval s.bindings <;> rfl
  rw [evaluate, steps]
  cases e.eval s.bindings <;> rfl

/-! ## Exact values -/

/-- The operators that are computed exactly up to the final reduction. -/
def Operator.exactly? : Operator → Option (Int → Int → Int)
  | .add => some (· + ·)
  | .sub => some (· - ·)
  | .mul => some (· * ·)
  | _ => none

/-- The exact value of an expression, if it is built from integer literals, names of integers, sums,
differences, products, minus signs and brackets. -/
def Expr.exactValue? (b : Bindings) : Expr → Option Int
  | .int n => some n
  | .name s =>
    match b.get? s with
    | some (.int i) => some i.toInt
    | _ => none
  | .bracket e => e.exactValue? b
  | .prefixed .minus e => (e.exactValue? b).map (- ·)
  | .binary op l r => do
    let f ← op.exactly?
    return f (← l.exactValue? b) (← r.exactValue? b)
  | _ => none

/-- Reduction goes through an operator. -/
theorem Operator.apply_reduced {op : Operator} {f : Int → Int → Int} (isExact : op.exactly? = some f)
    (x y : Int) :
    op.apply (.int (Int32.ofInt x)) (.int (Int32.ofInt y)) = .ok (.int (Int32.ofInt (f x y))) := by
  cases op <;> cases isExact
  · simp [apply, onInts?, Int32.ofInt_add]
  · simp [apply, onInts?, Int32.ofInt_sub]
  · simp [apply, onInts?, Int32.ofInt_mul]

/-- An operand that is an integer settles nothing, so the operator is applied. -/
theorem Expr.eval_binary_int {b : Bindings} {op : Operator} {l r : Expr} {i j : Int32}
    (left : l.eval b = .ok (.int i)) (right : r.eval b = .ok (.int j)) :
    (Expr.binary op l r).eval b = applied (op.apply (.int i) (.int j)) := by
  have unsettled : op.isSettledBy (.int i) = false := by cases op <;> rfl
  rw [eval_binary, left, right]
  change (if op.isSettledBy (.int i) then _ else _) = _
  rw [unsettled]
  rfl

/-- Computing in 32 bits throughout is computing exactly and reducing once. -/
theorem Expr.eval_of_exact {b : Bindings} {e : Expr} {z : Int} (isExact : e.exactValue? b = some z) :
    e.eval b = .ok (.int (Int32.ofInt z)) := by
  induction e generalizing z with
  | int n =>
    cases isExact
    rw [eval, Int32.ofInt_eq_ofNat]
  | name s =>
    rw [Expr.exactValue?] at isExact
    split at isExact
    · next i bound =>
      cases isExact
      rw [eval, bound, Int32.ofInt_toInt]
    · contradiction
  | bracket e ih => exact ih isExact
  | prefixed op e ih =>
    cases op with
    | not => contradiction
    | minus =>
      obtain ⟨x, inner, rfl⟩ := Option.map_eq_some_iff.mp isExact
      rw [eval, ih inner, Int32.ofInt_neg]
      rfl
  | binary op l r ihl ihr =>
    simp only [Expr.exactValue?, Option.bind_eq_bind, Option.bind_eq_some_iff, Option.pure_def,
      Option.some.injEq] at isExact
    obtain ⟨f, operation, x, left, y, right, rfl⟩ := isExact
    rw [eval_binary_int (ihl left) (ihr right), Operator.apply_reduced operation]
    rfl
  | _ => contradiction

/-! ## Quotients and remainders -/

/-- The quotient in 32 bits is the exact one, reduced. -/
theorem div_eq_ofInt (i j : Int32) : i / j = Int32.ofInt (i.toInt.tdiv j.toInt) := by
  rw [Int32.ofInt_tdiv i.minValue_le_toInt i.toInt_le j.minValue_le_toInt j.toInt_le,
    Int32.ofInt_toInt, Int32.ofInt_toInt]

/-- The quotient and the remainder give the dividend back. -/
theorem div_mul_add_mod (i j : Int32) : i / j * j + i % j = i := by
  calc i / j * j + i % j
      = Int32.ofInt (i.toInt.tdiv j.toInt) * Int32.ofInt j.toInt + Int32.ofInt (i % j).toInt := by
        rw [div_eq_ofInt, Int32.ofInt_toInt, Int32.ofInt_toInt]
    _ = Int32.ofInt (i.toInt.tdiv j.toInt * j.toInt + i.toInt.tmod j.toInt) := by
        rw [Int32.toInt_mod, Int32.ofInt_add, Int32.ofInt_mul]
    _ = i := by rw [Int.tdiv_mul_add_tmod, Int32.ofInt_toInt]

theorem isExpression_names (op : Operator) (a b : String) :
    IsExpression [.name a, .operator op, .name b] (.binary op (.name a) (.name b)) where
  parses := .binary op (Nat.zero_le _) (.name _ a) (.name _ b)
  range := ⟨trivial, trivial⟩
  nesting := (by decide : 2 ≤ 256)

/-- The tokens of `(a / b) * b + a % b`. -/
def divisionTokens (a b : String) : List Token :=
  [.leftParen, .name a, .operator .div, .name b, .rightParen, .operator .mul, .name b, .operator .add,
    .name a, .operator .rem, .name b]

/-- The tree of `(a / b) * b + a % b`. -/
def divisionTree (a b : String) : Expr :=
  .binary .add (.binary .mul (.bracket (.binary .div (.name a) (.name b))) (.name b))
    (.binary .rem (.name a) (.name b))

theorem isExpression_division (a b : String) :
    IsExpression (divisionTokens a b) (divisionTree a b) where
  parses :=
    have quotient : Parses 0 [.name a, .operator .div, .name b] (.binary .div (.name a) (.name b)) :=
      (isExpression_names .div a b).parses
    have product : Parses 5 [.leftParen, .name a, .operator .div, .name b, .rightParen, .operator .mul,
        .name b] (.binary .mul (.bracket (.binary .div (.name a) (.name b))) (.name b)) :=
      .binary .mul (by decide) (.bracket _ quotient) (.name _ b)
    have remainder : Parses 6 [.name a, .operator .rem, .name b] (.binary .rem (.name a) (.name b)) :=
      .binary .rem (by decide) (.name _ a) (.name _ b)
    .binary .add (Nat.zero_le _) product remainder
  range := ⟨⟨⟨trivial, trivial⟩, trivial⟩, trivial, trivial⟩
  nesting := (by decide : 3 ≤ 256)

section

variable {bindings : Bindings} {a b : String} {i j : Int32}
  (dividend : bindings.get? a = some (.int i)) (divisor : bindings.get? b = some (.int j))

include dividend divisor

theorem eval_names (op : Operator) :
    (Expr.binary op (.name a) (.name b)).eval bindings = applied (op.apply (.int i) (.int j)) :=
  Expr.eval_binary_int (by rw [Expr.eval, dividend]) (by rw [Expr.eval, divisor])

theorem eval_div : (Expr.binary .div (.name a) (.name b)).eval bindings =
    if j = 0 then refuse (.operand .divisionByZero) else .ok (.int (i / j)) := by
  rw [eval_names dividend divisor]
  by_cases zero : j = 0 <;> simp [Operator.apply, Operator.onInts?, zero, applied, Except.mapError, refuse]

theorem eval_rem : (Expr.binary .rem (.name a) (.name b)).eval bindings =
    if j = 0 then refuse (.operand .divisionByZero) else .ok (.int (i % j)) := by
  rw [eval_names dividend divisor]
  by_cases zero : j = 0 <;> simp [Operator.apply, Operator.onInts?, zero, applied, Except.mapError, refuse]

theorem eval_division (nonzero : j ≠ 0) : (divisionTree a b).eval bindings = .ok (.int i) := by
  have quotient : (Expr.bracket (.binary .div (.name a) (.name b))).eval bindings = .ok (.int (i / j)) :=
    (eval_div dividend divisor).trans (if_neg nonzero)
  have remainder : (Expr.binary .rem (.name a) (.name b)).eval bindings = .ok (.int (i % j)) :=
    (eval_rem dividend divisor).trans (if_neg nonzero)
  have product : (Expr.binary .mul (.bracket (.binary .div (.name a) (.name b))) (.name b)).eval bindings
      = .ok (.int (i / j * j)) :=
    Expr.eval_binary_int quotient (by rw [Expr.eval, divisor])
  rw [divisionTree, Expr.eval_binary_int product remainder]
  change Except.ok (Value.int (i / j * j + i % j)) = _
  rw [div_mul_add_mod]

end

/-- Integer arithmetic is exact arithmetic, reduced once. A line that asks for an expression of integer
literals and names of integers, built with sums, differences, products, minus signs and brackets, shows
the exact value, brought into the range of 32 bits. -/
theorem Session.evaluate_arithmetic (s : Session) :
    (∀ (line : String) (tokens : List Token) (e : Expr) (z : Int), Asks line tokens →
      IsExpression tokens e → e.exactValue? s.bindings = some z →
        ∃ i : Int32, s.evaluate line = (.ok (some (.int i)), s) ∧ i.toInt = z.bmod (2 ^ 32)) ∧
    ∀ (a b : String) (i j : Int32), s.bindings.get? a = some (.int i) →
      s.bindings.get? b = some (.int j) →
        (j ≠ 0 →
          (∀ line, Asks line (divisionTokens a b) → s.evaluate line = (.ok (some (.int i)), s)) ∧
          (∀ line, Asks line [.name a, .operator .div, .name b] → ∃ q : Int32,
            s.evaluate line = (.ok (some (.int q)), s) ∧
              q.toInt = (i.toInt.tdiv j.toInt).bmod (2 ^ 32)) ∧
          ∀ line, Asks line [.name a, .operator .rem, .name b] → ∃ r : Int32,
            s.evaluate line = (.ok (some (.int r)), s) ∧ r.toInt = i.toInt.tmod j.toInt) ∧
        (j = 0 → ∀ line, Asks line [.name a, .operator .div, .name b] ∨
          Asks line [.name a, .operator .rem, .name b] →
            s.evaluate line = (refuse (.operand .divisionByZero), s)) := by
  refine ⟨fun line tokens e z asks expression isExact => ?_, fun a b i j dividend divisor => ⟨?_, ?_⟩⟩
  · refine ⟨Int32.ofInt z, ?_, Int32.toInt_ofInt⟩
    rw [s.evaluate_of_asks asks expression, Expr.eval_of_exact isExact]
    rfl
  · intro nonzero
    refine ⟨fun line asks => ?_, fun line asks => ⟨i / j, ?_, Int32.toInt_div i j⟩, fun line asks =>
      ⟨i % j, ?_, Int32.toInt_mod i j⟩⟩
    · rw [s.evaluate_of_asks asks (isExpression_division a b), eval_division dividend divisor nonzero]
      rfl
    · rw [s.evaluate_of_asks asks (isExpression_names .div a b), eval_div dividend divisor,
        if_neg nonzero]
      rfl
    · rw [s.evaluate_of_asks asks (isExpression_names .rem a b), eval_rem dividend divisor,
        if_neg nonzero]
      rfl
  · rintro zero line (asks | asks)
    · rw [s.evaluate_of_asks asks (isExpression_names .div a b), eval_div dividend divisor, if_pos zero]
      rfl
    · rw [s.evaluate_of_asks asks (isExpression_names .rem a b), eval_rem dividend divisor, if_pos zero]
      rfl

/-- A sum that leaves the range of 32 bits, and the one quotient that does, which the law of division
holds of all the same. -/
theorem Session.evaluate_arithmetic_least :
    let s : Session := { bindings := ⟨[("a", .int Int32.minValue), ("b", .int (-1)), ("c", .int 0)]⟩ }
    (∃ i : Int32, s.evaluate "2147483647 + 1" = (.ok (some (.int i)), s) ∧ i.toInt = -2147483648) ∧
      s.evaluate "(a / b) * b + a % b" = (.ok (some (.int Int32.minValue)), s) ∧
      (∃ q : Int32, s.evaluate "a / b" = (.ok (some (.int q)), s) ∧ q.toInt = -2147483648) ∧
      s.evaluate "a % c" = (refuse (.operand .divisionByZero), s) := by
  intro s
  obtain ⟨exact', division⟩ := s.evaluate_arithmetic
  have asks {line : String} {tokens : List Token} (statement : statementOf line = (line, false))
      (scanned : Token.scan line.toList = .ok tokens) : Asks line tokens := ⟨line, statement, scanned⟩
  have sum : IsExpression [.int 2147483647, .operator .add, .int 1]
      (.binary .add (.int 2147483647) (.int 1)) := by
    have small : 1 ≤ 2147483647 := by decide
    exact ⟨.binary .add (Nat.zero_le _) (.int _ _) (.int _ _), ⟨Nat.le_refl 2147483647, small⟩, by decide⟩
  obtain ⟨nonzero, -⟩ := division "a" "b" Int32.minValue (-1) (by decide +kernel) (by decide +kernel)
  obtain ⟨-, zero⟩ := division "a" "c" Int32.minValue 0 (by decide +kernel) (by decide +kernel)
  obtain ⟨law, quotient, -⟩ := nonzero (by decide)
  exact ⟨exact' _ _ _ 2147483648 (asks (by decide +kernel) (by decide +kernel)) sum (by decide +kernel),
    law _ (asks (by decide +kernel) (by decide +kernel)),
    quotient _ (asks (by decide +kernel) (by decide +kernel)),
    zero rfl _ (.inr (asks (by decide +kernel) (by decide +kernel)))⟩

end LevelCheck.Expression
