import LevelCheck.Expression.Evaluation
set_option autoImplicit false

/-! # Expression trees

The two phases that evaluation does at once. A row of tokens is grouped into a tree: operators of one
precedence to the left, those of higher precedence first, and prefix operators before all others. A
tree is evaluated from left to right, and a conjunction or disjunction that its left operand settles
leaves its right operand alone. -/

namespace LevelCheck.Expression

/-- An expression. -/
inductive Expr where
  | int (value : Nat)
  | double (value : Float)
  | string (text : String)
  | bool (value : Bool)
  | name (text : String)
  | bracket (inside : Expr)
  | prefixed (op : PrefixOp) (operand : Expr)
  | binary (op : Operator) (left right : Expr)
  deriving DecidableEq, Repr, Inhabited

/-- The token of a prefix operator. -/
def PrefixOp.token : PrefixOp → Token
  | .minus => .operator .sub
  | .not => .bang

/-! ## Grouping -/

/-- Prefix operators bind more tightly than every operator between operands. -/
def prefixPrecedence : Nat := 7

theorem Operator.precedence_lt (op : Operator) : op.precedence < prefixPrecedence := by
  cases op <;> decide

/-- The grammar: a row of tokens is an expression in which the operators outside all brackets have at
least the given precedence. The left operand of an operator may hold others of the same precedence,
the right one may not. -/
inductive Parses : Nat → List Token → Expr → Prop where
  | int (p n : Nat) : Parses p [.int n] (.int n)
  | double (p : Nat) (x : Float) : Parses p [.double x] (.double x)
  | string (p : Nat) (s : String) : Parses p [.string s] (.string s)
  | bool (p : Nat) (v : Bool) : Parses p [.bool v] (.bool v)
  | name (p : Nat) (s : String) : Parses p [.name s] (.name s)
  | bracket (p : Nat) {tokens : List Token} {e : Expr} (inside : Parses 0 tokens e) :
      Parses p (.leftParen :: (tokens ++ [.rightParen])) (.bracket e)
  | prefixed (p : Nat) (op : PrefixOp) {tokens : List Token} {e : Expr}
      (operand : Parses prefixPrecedence tokens e) : Parses p (op.token :: tokens) (.prefixed op e)
  | binary {p : Nat} (op : Operator) {before after : List Token} {l r : Expr}
      (binds : p ≤ op.precedence) (left : Parses op.precedence before l)
      (right : Parses (op.precedence + 1) after r) :
      Parses p (before ++ .operator op :: after) (.binary op l r)

/-- An expression stands wherever the operators are allowed that may stand in its place. -/
theorem Parses.relevel {p q : Nat} {tokens : List Token} {e : Expr} (h : Parses p tokens e)
    (allowed : ∀ op : Operator, p ≤ op.precedence → q ≤ op.precedence) : Parses q tokens e := by
  cases h with
  | int _ n => exact .int q n
  | double _ x => exact .double q x
  | string _ s => exact .string q s
  | bool _ v => exact .bool q v
  | name _ s => exact .name q s
  | bracket _ inside => exact .bracket q inside
  | prefixed _ op operand => exact .prefixed q op operand
  | binary op binds left right => exact .binary op (allowed op binds) left right

/-- An expression of tightly binding operators stands where looser ones are allowed too. -/
theorem Parses.weaken {p q : Nat} {tokens : List Token} {e : Expr} (h : Parses p tokens e)
    (le : q ≤ p) : Parses q tokens e := h.relevel fun _ binds => Nat.le_trans le binds

namespace Expr

/-- Every integer literal has a value of the type. The one that exceeds the greatest integer by one
may stand directly behind a minus. -/
def InRange : Expr → Prop
  | .int n => n ≤ 2147483647
  | .prefixed .minus (.int n) => n ≤ 2147483648
  | .prefixed _ e => e.InRange
  | .bracket e => e.InRange
  | .binary _ l r => l.InRange ∧ r.InRange
  | _ => True

/-- How deeply an expression is nested: the inside of a bracket and a right operand are one level
below the expression they belong to, a left operand and the operand of a prefix operator are on its
own level. -/
def nesting : Expr → Nat
  | .bracket e => e.nesting + 1
  | .prefixed _ e => e.nesting
  | .binary _ l r => max l.nesting (r.nesting + 1)
  | _ => 1

theorem nesting_pos (e : Expr) : 0 < e.nesting := by
  induction e with
  | prefixed op e ih => exact ih
  | binary op l r ihl ihr => exact Nat.lt_of_lt_of_le ihl (Nat.le_max_left _ _)
  | _ => exact Nat.succ_pos _

/-! ## Evaluation of a tree -/

/-- The value of an expression, or the first failure from the left. The right operand of a conjunction
whose left one is false, and of a disjunction whose left one is true, is skipped. -/
def eval (b : Bindings) : Expr → Except Failure Value
  | .int n => .ok (.int (Int32.ofNat n))
  | .double x => .ok (.double x)
  | .string s => .ok (.string s)
  | .bool v => .ok (.bool v)
  | .name s =>
    match b.get? s with
    | some v => .ok v
    | none => refuse (.undefinedName s)
  | .bracket e => e.eval b
  | .prefixed op e => do
    let v ← e.eval b
    applied (op.apply v)
  | .binary op l r => do
    let left ← l.eval b
    match op, left with
    | .and, .bool false => .ok (.bool false)
    | .or, .bool true => .ok (.bool true)
    | op, left => do
      let right ← r.eval b
      applied (op.apply left right)

theorem eval_binary (b : Bindings) (op : Operator) (l r : Expr) :
    (Expr.binary op l r).eval b = (do
      let left ← l.eval b
      if op.isSettledBy left then .ok left
      else do
        let right ← r.eval b
        applied (op.apply left right)) := by
  rw [eval]
  congr 1
  funext left
  unfold Operator.isSettledBy
  split <;> simp_all

/-- Two expressions that agree but for operands that are skipped: the left operand of a conjunction or
disjunction settles it, and the right operands are any expressions at all. -/
inductive AlikeUpToSkipped (b : Bindings) : Expr → Expr → Prop where
  | same (e : Expr) : AlikeUpToSkipped b e e
  | bracket {e e' : Expr} (inside : AlikeUpToSkipped b e e') :
      AlikeUpToSkipped b (.bracket e) (.bracket e')
  | prefixed (op : PrefixOp) {e e' : Expr} (operand : AlikeUpToSkipped b e e') :
      AlikeUpToSkipped b (.prefixed op e) (.prefixed op e')
  | binary (op : Operator) {l l' r r' : Expr} (left : AlikeUpToSkipped b l l')
      (right : AlikeUpToSkipped b r r') : AlikeUpToSkipped b (.binary op l r) (.binary op l' r')
  | and {l l' : Expr} (r r' : Expr) (left : AlikeUpToSkipped b l l')
      (settled : l.eval b = .ok (.bool false)) :
      AlikeUpToSkipped b (.binary .and l r) (.binary .and l' r')
  | or {l l' : Expr} (r r' : Expr) (left : AlikeUpToSkipped b l l')
      (settled : l.eval b = .ok (.bool true)) :
      AlikeUpToSkipped b (.binary .or l r) (.binary .or l' r')

/-- A skipped operand bears on neither the value of an expression nor its failure. -/
theorem AlikeUpToSkipped.eval_eq {b : Bindings} {e e' : Expr} (alike : AlikeUpToSkipped b e e') :
    e.eval b = e'.eval b := by
  induction alike with
  | same e => rfl
  | bracket _ ih => exact ih
  | prefixed op _ ih => rw [eval, eval, ih]
  | binary op _ _ ihl ihr => rw [eval_binary, eval_binary, ihl, ihr]
  | and r r' _ settled ih =>
    rw [eval_binary, eval_binary, ← ih, settled]
    rfl
  | or r r' _ settled ih =>
    rw [eval_binary, eval_binary, ← ih, settled]
    rfl

end Expr

end LevelCheck.Expression
