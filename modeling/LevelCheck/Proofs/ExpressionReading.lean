import LevelCheck.Proofs.ExpressionTree
set_option autoImplicit false

/-! # Reading and evaluating in one pass

Evaluation agrees with its two phases. Wherever a row of tokens groups into a tree, reading it in
front of any tokens that do not belong to it gives the value of the tree; and whatever is read groups
into a tree. In an operand that is skipped the values are stand-ins: they decide which operands are
looked at, and nothing else. -/

namespace LevelCheck.Expression

/-! ## Tokens that end an expression -/

/-- The tokens do not go on with an expression whose operators have at least the precedence. -/
def Stops (least : Nat) (rest : List Token) : Prop :=
  ∀ op more, rest = .operator op :: more → op.precedence < least

theorem Stops.mono {p q : Nat} {rest : List Token} (h : Stops p rest) (le : p ≤ q) : Stops q rest :=
  fun op more found => Nat.lt_of_lt_of_le (h op more found) le

theorem stops_nil (least : Nat) : Stops least [] := by simp [Stops]

theorem stops_rightParen (least : Nat) (rest : List Token) : Stops least (.rightParen :: rest) := by
  simp [Stops]

/-- Nothing behind the operand of a prefix operator belongs to it. -/
theorem stops_prefixed (rest : List Token) : Stops (prefixPrecedence + 1) rest :=
  fun op _ _ => Nat.lt_succ_of_lt op.precedence_lt

theorem stops_operator {least : Nat} {op : Operator} {more : List Token} :
    Stops least (.operator op :: more) ↔ op.precedence < least := by
  simp [Stops]

/-- No operator is taken that does not belong to the expression. -/
theorem operators_of_stops {nested : Reader} {live : Bool} {least : Nat} {rest : List Token}
    (stops : Stops least rest) (count : Nat) (v : Value) :
    operators nested live least count v rest = .ok (v, rest) := by
  unfold operators
  split
  · next op more => rw [if_pos (stops_operator.mp stops)]
  · rfl

/-- An operator that belongs to the expression is applied to what was read before it. -/
theorem operators_operator {nested : Reader} {live : Bool} {least : Nat} {op : Operator}
    (belongs : least ≤ op.precedence) (count : Nat) (left : Value) (rest : List Token) :
    operators nested live least (count + 1) left (.operator op :: rest) =
      nested (live && !op.isSettledBy left) (op.precedence + 1) rest >>= fun read =>
        (if live && !op.isSettledBy left then applied (op.apply left read.1) else .ok left) >>=
          fun left => operators nested live least count left read.2 := by
  rw [operators, if_neg (Nat.not_lt.mpr belongs)]
  refine congrArg _ (funext fun read => ?_)
  dsimp only
  split <;> rfl

/-! ## Prefix operators, one at a time -/

/-- The least integer: a minus and the literal one too great. -/
def IsLeastInteger (op : PrefixOp) (tokens : List Token) : Prop :=
  op = .minus ∧ ∃ rest, tokens = .int 2147483648 :: rest

/-- The tokens start with a prefix operator. -/
def StartsPrefixed (tokens : List Token) : Prop := ∃ op rest, tokens = PrefixOp.token op :: rest

theorem prefixRun_prefixed (op : PrefixOp) (tokens : List Token) :
    prefixRun (op.token :: tokens) = (op :: (prefixRun tokens).1, (prefixRun tokens).2) := by
  cases op <;> rfl

theorem prefixRun_primary {tokens : List Token} (primary : ¬ StartsPrefixed tokens) :
    prefixRun tokens = ([], tokens) := by
  unfold prefixRun
  split
  · next rest => exact absurd ⟨.minus, rest, rfl⟩ primary
  · next rest => exact absurd ⟨.not, rest, rfl⟩ primary
  · rfl

/-- Without a prefix operator an operand is a primary expression. -/
theorem unary_primary (b : Bindings) (nested : Reader) (live : Bool) {tokens : List Token}
    (primary : ¬ StartsPrefixed tokens) :
    unary b nested live tokens = Expression.primary b nested live tokens := by
  unfold unary
  rw [prefixRun_primary primary]
  simp only [operandOf, List.getLast?_nil, applyPrefixes]
  cases Expression.primary b nested live tokens with
  | error e => rfl
  | ok read => cases live <;> rfl

/-- The least integer is read as one operand. -/
theorem unary_leastInteger (b : Bindings) (nested : Reader) (live : Bool) (rest : List Token) :
    unary b nested live (PrefixOp.minus.token :: .int 2147483648 :: rest) =
      .ok (.int Int32.minValue, rest) := by
  have run : prefixRun (PrefixOp.minus.token :: .int 2147483648 :: rest) =
      ([.minus], .int 2147483648 :: rest) := rfl
  unfold unary
  rw [run]
  cases live <;> rfl

theorem operandOf_cons {b : Bindings} {nested : Reader} {live : Bool} {op : PrefixOp}
    {ops : List PrefixOp} {tokens : List Token}
    (other : ops = [] → ¬ IsLeastInteger op tokens) :
    operandOf b nested live (op :: ops) tokens =
      (operandOf b nested live ops tokens).map fun read => (op :: read.1, read.2) := by
  cases ops with
  | nil =>
    have read : operandOf b nested live [op] tokens =
        (Expression.primary b nested live tokens).map fun read => ([op], read) := by
      unfold operandOf
      split
      · next n rest minus =>
        rw [if_neg]
        rintro rfl
        exact other rfl ⟨by simpa using minus, rest, rfl⟩
      · rfl
    rw [read]
    cases h : Expression.primary b nested live tokens <;> simp [operandOf, h, Except.map]
  | cons next ops =>
    unfold operandOf
    rw [List.getLast?_cons_cons, List.dropLast_cons_cons]
    split
    · split
      · rfl
      · cases Expression.primary b nested live _ <;> rfl
    · cases Expression.primary b nested live _ <;> rfl

theorem applyPrefixes_cons (op : PrefixOp) (ops : List PrefixOp) (v : Value) :
    applyPrefixes (op :: ops) v = applyPrefixes ops v >>= fun v => applied (op.apply v) :=
  List.foldrM_cons

/-- Any other prefix operator is applied to the operand behind it. -/
theorem unary_prefixed (b : Bindings) (nested : Reader) (live : Bool) (op : PrefixOp)
    {tokens : List Token} (other : ¬ IsLeastInteger op tokens) :
    unary b nested live (op.token :: tokens) = (do
      let (v, rest) ← unary b nested live tokens
      let v ← if live then applied (op.apply v) else .ok v
      .ok (v, rest)) := by
  have first : (prefixRun tokens).1 = [] → ¬ IsLeastInteger op (prefixRun tokens).2 := by
    intro none
    by_cases more : StartsPrefixed tokens
    · obtain ⟨op', rest, rfl⟩ := more
      rw [prefixRun_prefixed] at none
      contradiction
    · rwa [prefixRun_primary more]
  unfold unary
  rw [prefixRun_prefixed]
  simp only [operandOf_cons first]
  cases operandOf b nested live (prefixRun tokens).1 (prefixRun tokens).2 with
  | error e => rfl
  | ok read =>
    cases live with
    | false => rfl
    | true =>
      change (applyPrefixes (op :: read.1) read.2.1 >>= fun v => .ok (v, read.2.2)) =
        (applyPrefixes read.1 read.2.1 >>= fun v => .ok (v, read.2.2)) >>= fun x =>
          applied (op.apply x.1) >>= fun v => .ok (v, x.2)
      rw [applyPrefixes_cons]
      cases applyPrefixes read.1 read.2.1 <;> rfl

/-! ## The value of a tree in front of other tokens -/

/-- What stands in for the value of an expression that is skipped: its first operand as it is written,
and false for a name without a value. -/
def Expr.standIn (b : Bindings) : Expr → Value
  | .int n => .int (Int32.ofNat n)
  | .double x => .double x
  | .string s => .string s
  | .bool v => .bool v
  | .name s => (b.get? s).getD (.bool false)
  | .bracket e => e.standIn b
  | .prefixed _ e => e.standIn b
  | .binary _ l _ => l.standIn b

/-- What reading an expression gives. -/
def Expr.read (b : Bindings) (live : Bool) (e : Expr) : Except Failure Value :=
  if live then e.eval b else .ok (e.standIn b)

theorem Expr.read_prefixed (b : Bindings) (live : Bool) (op : PrefixOp) (e : Expr) :
    (Expr.prefixed op e).read b live = (do
      let v ← e.read b live
      if live then applied (op.apply v) else .ok v) := by
  cases live <;> rfl

theorem Expr.read_binary (b : Bindings) (live : Bool) (op : Operator) (l r : Expr) :
    (Expr.binary op l r).read b live = (do
      let left ← l.read b live
      let live' := live && !op.isSettledBy left
      let right ← r.read b live'
      if live' then applied (op.apply left right) else .ok left) := by
  cases live with
  | false => rfl
  | true =>
    simp only [Expr.read, if_true, Expr.eval_binary, Bool.true_and]
    congr 1
    funext left
    cases op.isSettledBy left <;> rfl

/-- The number of operators that are applied one after another on the level of the expression. -/
def Expr.chain : Expr → Nat
  | .binary _ l _ => l.chain + 1
  | _ => 0

theorem Parses.chain_le {p : Nat} {tokens : List Token} {e : Expr} (h : Parses p tokens e) :
    e.chain ≤ tokens.length := by
  induction h with
  | binary op binds left right ihl ihr =>
    rw [Expr.chain, List.length_append, List.length_cons]
    omega
  | _ => exact Nat.zero_le _

theorem Parses.chain_prefixPrecedence {tokens : List Token} {e : Expr}
    (h : Parses prefixPrecedence tokens e) : e.chain = 0 := by
  cases h with
  | binary op binds left right => exact absurd op.precedence_lt (Nat.not_lt.mpr binds)
  | _ => rfl

/-- What stands behind a prefix operator has no operators outside brackets, so it may stand anywhere. -/
theorem Parses.tighten {tokens : List Token} {e : Expr} (h : Parses prefixPrecedence tokens e)
    (q : Nat) : Parses q tokens e :=
  h.relevel fun op binds => absurd op.precedence_lt (Nat.not_lt.mpr binds)

/-- Reading the tokens, in front of any that do not belong to them, comes to reading the operand they
start with and applying the operators of their chain, and then goes on with the value of the tree. -/
def ReadsAs (b : Bindings) (size p : Nat) (tokens : List Token) (e : Expr) : Prop :=
  ∀ (levels : Nat) (live : Bool) (least count : Nat) (rest : List Token),
    e.nesting ≤ levels + 1 → least ≤ p → Stops (p + 1) rest →
      (do
        let (v, rest) ← unary b (evaluate b size levels) live (tokens ++ rest)
        operators (evaluate b size levels) live least (count + e.chain) v rest) = (do
        let v ← e.read b live
        operators (evaluate b size levels) live least count v rest)

/-- An expression that is complete is evaluated to the value of its tree. -/
theorem ReadsAs.evaluate_eq {b : Bindings} {size p levels : Nat} {tokens rest : List Token} {e : Expr}
    (reads : ReadsAs b size p tokens e) (deep : e.nesting ≤ levels) (short : e.chain ≤ size)
    (stops : Stops p rest) (live : Bool) :
    evaluate b size levels live p (tokens ++ rest) = (e.read b live).map fun v => (v, rest) := by
  obtain _ | levels := levels
  · exact absurd e.nesting_pos (by omega)
  have steps := reads levels live p (size - e.chain) rest deep (Nat.le_refl p)
    (stops.mono (Nat.le_succ p))
  rw [Nat.sub_add_cancel short] at steps
  simp only [operators_of_stops stops] at steps
  rw [evaluate]
  exact steps.trans (by cases e.read b live <;> rfl)

/-- An operand without operators is read on its own. -/
theorem ReadsAs.unary_eq {b : Bindings} {size p levels : Nat} {tokens rest : List Token} {e : Expr}
    (reads : ReadsAs b size p tokens e) (single : e.chain = 0) (deep : e.nesting ≤ levels + 1)
    (stops : Stops (p + 1) rest) (live : Bool) :
    unary b (evaluate b size levels) live (tokens ++ rest) =
      (e.read b live).map fun v => (v, rest) := by
  have steps := reads levels live 0 0 rest deep (Nat.zero_le p) stops
  rw [single] at steps
  simp only [operators] at steps
  calc unary b (evaluate b size levels) live (tokens ++ rest)
      = unary b (evaluate b size levels) live (tokens ++ rest) >>= fun read => .ok read := by
        cases unary b (evaluate b size levels) live (tokens ++ rest) <;> rfl
    _ = (e.read b live).map fun v => (v, rest) := steps.trans (by cases e.read b live <;> rfl)

/-- It suffices to look at an operand without operators on its own. -/
theorem ReadsAs.of_unary {b : Bindings} {size p : Nat} {tokens : List Token} {e : Expr}
    (single : e.chain = 0)
    (reads : ∀ (levels : Nat) (live : Bool) (rest : List Token), e.nesting ≤ levels + 1 →
      Stops (p + 1) rest → unary b (evaluate b size levels) live (tokens ++ rest) =
        (e.read b live).map fun v => (v, rest)) : ReadsAs b size p tokens e := by
  intro levels live least count rest deep _ stops
  rw [reads levels live rest deep stops, single]
  cases e.read b live <;> rfl

theorem not_startsPrefixed {token : Token} {tokens : List Token} (minus : token ≠ .operator .sub)
    (bang : token ≠ .bang) : ¬ StartsPrefixed (token :: tokens) := by
  rintro ⟨op, rest, eq⟩
  obtain ⟨rfl, -⟩ := List.cons.inj eq
  cases op
  · exact minus rfl
  · exact bang rfl

/-- The same for an operand that does not start with a prefix operator. -/
theorem ReadsAs.of_primary {b : Bindings} {size p : Nat} {token : Token} {tokens : List Token}
    {e : Expr} (single : e.chain = 0) (minus : token ≠ .operator .sub) (bang : token ≠ .bang)
    (reads : ∀ (levels : Nat) (live : Bool) (rest : List Token), e.nesting ≤ levels + 1 →
      primary b (evaluate b size levels) live (token :: tokens ++ rest) =
        (e.read b live).map fun v => (v, rest)) : ReadsAs b size p (token :: tokens) e :=
  .of_unary single fun levels live rest deep _ => by
    rw [← reads levels live rest deep]
    exact unary_primary b _ live (not_startsPrefixed minus bang)

/-- An operand behind a prefix operator is in range, or is the literal of the least integer. -/
theorem Expr.InRange.operand {op : PrefixOp} {e : Expr} (range : (Expr.prefixed op e).InRange) :
    e.InRange ∨ (op = .minus ∧ e = .int 2147483648) := by
  cases op with
  | not => exact .inl range
  | minus =>
    cases e with
    | int n =>
      have bound : n ≤ 2147483648 := range
      rcases Nat.lt_or_eq_of_le bound with lt | rfl
      · exact .inl (Nat.le_of_lt_succ lt)
      · exact .inr ⟨rfl, rfl⟩
    | _ => exact .inl range

/-- A minus in front of an expression is the least integer only as its literal. -/
theorem Parses.leastInteger {op : PrefixOp} {tokens rest : List Token} {e : Expr}
    (operand : Parses prefixPrecedence tokens e) (least : IsLeastInteger op (tokens ++ rest)) :
    e = .int 2147483648 := by
  obtain ⟨rfl, more, eq⟩ := least
  cases operand with
  | int _ n => simp_all
  | prefixed _ op operand => cases op <;> simp_all [PrefixOp.token]
  | binary op binds => exact absurd op.precedence_lt (Nat.not_lt.mpr binds)
  | _ => simp_all

/-- Every row of tokens that groups into a tree in range is read as that tree. -/
theorem Parses.readsAs {b : Bindings} {size p : Nat} {tokens : List Token} {e : Expr}
    (parses : Parses p tokens e) (range : e.InRange) (short : tokens.length ≤ size) :
    ReadsAs b size p tokens e := by
  induction parses with
  | int p n =>
    refine .of_primary rfl (by simp) (by simp) fun levels live rest _ => ?_
    have fits : n ≤ 2147483647 := range
    cases live <;> simp [primary, fits, Expr.read, Expr.eval, Expr.standIn, Except.map]
  | double p x =>
    refine .of_primary rfl (by simp) (by simp) fun levels live rest _ => ?_
    cases live <;> rfl
  | string p s =>
    refine .of_primary rfl (by simp) (by simp) fun levels live rest _ => ?_
    cases live <;> rfl
  | bool p v =>
    refine .of_primary rfl (by simp) (by simp) fun levels live rest _ => ?_
    cases live <;> rfl
  | name p s =>
    refine .of_primary rfl (by simp) (by simp) fun levels live rest _ => ?_
    cases known : b.get? s <;> cases live <;>
      simp [primary, Expr.read, Expr.eval, Expr.standIn, Except.map, known, refuse]
  | @bracket p tokens e inside ih =>
    have inner_short : tokens.length ≤ size := by
      simp at short
      omega
    have reads : ReadsAs b size 0 tokens e := ih range inner_short
    refine .of_primary rfl (by simp) (by simp) fun levels live rest deep => ?_
    have nested := reads.evaluate_eq (Nat.le_of_succ_le_succ deep)
      (Nat.le_trans inside.chain_le inner_short) (stops_rightParen 0 rest) live
    have shape : Token.leftParen :: (tokens ++ [.rightParen]) ++ rest =
        .leftParen :: (tokens ++ .rightParen :: rest) := by simp
    have same : (Expr.bracket e).read b live = e.read b live := by cases live <;> rfl
    rw [shape, primary, nested, same]
    cases e.read b live <;> rfl
  | @prefixed p op tokens e operand ih =>
    refine .of_unary rfl fun levels live rest deep stops => ?_
    rw [List.cons_append]
    rcases range.operand with within | ⟨rfl, rfl⟩
    · have other : ¬ IsLeastInteger op (tokens ++ rest) := by
        intro least
        obtain rfl := operand.leastInteger least
        exact absurd (show 2147483648 ≤ 2147483647 from within) (by decide)
      have reads : ReadsAs b size prefixPrecedence tokens e :=
        ih within (Nat.le_of_succ_le short)
      have inner := reads.unary_eq operand.chain_prefixPrecedence deep (stops_prefixed rest) live
      rw [unary_prefixed b _ live op other, inner, Expr.read_prefixed]
      cases e.read b live with
      | error e => rfl
      | ok v =>
        cases live with
        | false => rfl
        | true =>
          change (applied (op.apply v) >>= fun v => .ok (v, rest)) =
            (applied (op.apply v)).map fun v => (v, rest)
          cases applied (op.apply v) <;> rfl
    · cases operand
      rw [List.singleton_append, unary_leastInteger]
      cases live <;> rfl
  | @binary p op before after l r binds left right ihl ihr =>
    intro levels live least count rest deep le stops
    obtain ⟨deepl, deepr⟩ := Nat.max_le.mp deep
    rw [List.length_append, List.length_cons] at short
    have readsl := ihl range.1 (by omega)
    have readsr := ihr range.2 (by omega)
    have steps := readsl levels live least (count + 1) (.operator op :: (after ++ rest)) deepl
      (Nat.le_trans le binds) (stops_operator.mpr (Nat.lt_succ_self _))
    have shape : before ++ .operator op :: after ++ rest =
        before ++ .operator op :: (after ++ rest) := by simp
    have count_eq : count + (Expr.binary op l r).chain = count + 1 + l.chain := by
      rw [Expr.chain]
      omega
    rw [shape, count_eq, steps, Expr.read_binary]
    cases l.read b live with
    | error e => rfl
    | ok left =>
      change operators _ _ _ _ _ _ = _
      have nested := readsr.evaluate_eq (Nat.le_of_succ_le_succ deepr)
        (Nat.le_trans right.chain_le (by omega)) (stops.mono (Nat.succ_le_succ binds))
        (live && !op.isSettledBy left)
      rw [operators_operator (Nat.le_trans le binds), nested]
      change _ = (r.read b (live && !op.isSettledBy left) >>= fun right =>
        if live && !op.isSettledBy left then applied (op.apply left right) else .ok left) >>= fun v =>
          operators (evaluate b size levels) live least count v rest
      generalize (live && !op.isSettledBy left) = live'
      cases r.read b live' with
      | error e => rfl
      | ok right => cases live' <;> rfl

/-! ## Whatever is read groups into a tree -/

theorem of_bind_ok {α β : Type} {x : Except Failure α} {f : α → Except Failure β} {r : β}
    (h : (x >>= f) = .ok r) : ∃ a, x = .ok a ∧ f a = .ok r := by
  cases x with
  | error e => contradiction
  | ok a => exact ⟨a, rfl, h⟩

/-- The tokens before `rest` group into a tree in range, of at most so many levels. -/
def Groups (p levels : Nat) (tokens rest : List Token) : Prop :=
  ∃ read e, tokens = read ++ rest ∧ Parses p read e ∧ e.InRange ∧ e.nesting ≤ levels

/-- A reader takes whole expressions only, and all of what belongs to them. -/
def Reader.IsSound (nested : Reader) (size levels : Nat) : Prop :=
  ∀ {live : Bool} {p : Nat} {tokens rest : List Token} {v : Value}, tokens.length ≤ size →
    nested live p tokens = .ok (v, rest) → Groups p levels tokens rest ∧ Stops p rest

theorem primary_groups {b : Bindings} {nested : Reader} {size levels : Nat} {live : Bool}
    {tokens rest : List Token} {v : Value} (sound : nested.IsSound size levels)
    (fits : tokens.length ≤ size) (h : primary b nested live tokens = .ok (v, rest)) :
    Groups prefixPrecedence (levels + 1) tokens rest := by
  have atom {token : Token} {e : Expr} (parses : Parses prefixPrecedence [token] e) (range : e.InRange)
      (flat : e.nesting = 1) : Groups prefixPrecedence (levels + 1) (token :: rest) rest :=
    ⟨[token], e, rfl, parses, range, by omega⟩
  unfold primary at h
  split at h
  · next n more =>
    split at h
    · next small =>
      cases h
      exact atom (.int _ n) small rfl
    · contradiction
  · next x more =>
    cases h
    exact atom (.double _ x) trivial rfl
  · next s more =>
    cases h
    exact atom (.string _ s) trivial rfl
  · next w more =>
    cases h
    exact atom (.bool _ w) trivial rfl
  · next s more =>
    have rest_eq : more = rest := by
      split at h
      · cases h
        rfl
      · split at h
        · contradiction
        · cases h
          rfl
    subst rest_eq
    exact atom (.name _ s) trivial rfl
  · next more =>
    split at h
    · next inner rest' found =>
      cases h
      obtain ⟨⟨read, e, rfl, parses, range, deep⟩, -⟩ := sound (Nat.le_of_succ_le fits) found
      exact ⟨.leftParen :: (read ++ [.rightParen]), .bracket e, by simp, .bracket _ parses, range,
        Nat.succ_le_succ deep⟩
    · contradiction
    · contradiction
  · contradiction
  · contradiction

/-- Prefix operators belong to the operand behind them. -/
theorem Groups.prefixed {levels : Nat} {tokens rest : List Token} (op : PrefixOp)
    (h : Groups prefixPrecedence levels tokens rest) :
    Groups prefixPrecedence levels (op.token :: tokens) rest := by
  obtain ⟨read, e, rfl, parses, range, deep⟩ := h
  refine ⟨op.token :: read, .prefixed op e, rfl, .prefixed _ op parses, ?_, deep⟩
  cases op with
  | not => exact range
  | minus =>
    cases e with
    | int n => exact Nat.le_succ_of_le range
    | _ => exact range

theorem unary_groups {b : Bindings} {nested : Reader} {size levels : Nat} {live : Bool}
    {tokens rest : List Token} {v : Value} (sound : nested.IsSound size levels)
    (fits : tokens.length ≤ size) (h : unary b nested live tokens = .ok (v, rest)) :
    Groups prefixPrecedence (levels + 1) tokens rest := by
  induction tokens generalizing v with
  | nil =>
    rw [unary_primary b nested live (by rintro ⟨op, rest, eq⟩; contradiction)] at h
    exact primary_groups sound fits h
  | cons token tokens ih =>
    by_cases starts : StartsPrefixed (token :: tokens)
    · obtain ⟨op, tokens', eq⟩ := starts
      obtain ⟨rfl, rfl⟩ := List.cons.inj eq
      by_cases least : IsLeastInteger op tokens
      · obtain ⟨rfl, rest', rfl⟩ := least
        rw [unary_leastInteger] at h
        cases h
        exact ⟨_, .prefixed .minus (.int 2147483648), rfl, .prefixed _ .minus (.int _ _),
          Nat.le_refl _, Nat.le_add_left 1 levels⟩
      · rw [unary_prefixed b nested live op least] at h
        obtain ⟨⟨w, rest'⟩, found, h⟩ := of_bind_ok h
        have same : rest' = rest := by
          cases live with
          | false =>
            cases h
            rfl
          | true =>
            obtain ⟨w', -, h⟩ := of_bind_ok h
            cases h
            rfl
        subst same
        exact (ih (Nat.le_of_succ_le fits) found).prefixed op
    · rw [unary_primary b nested live starts] at h
      exact primary_groups sound fits h

/-- Applying operators to an operand gives an expression, as long as the operators before them bind no
less tightly. -/
theorem operators_groups {nested : Reader} {size levels : Nat} (sound : nested.IsSound size levels)
    {live : Bool} {least p count : Nat} {read tokens rest : List Token} {left v : Value} {e : Expr}
    (parses : Parses p read e) (range : e.InRange) (deep : e.nesting ≤ levels + 1) (le : least ≤ p)
    (stops : Stops (p + 1) tokens) (short : tokens.length ≤ count) (fits : tokens.length ≤ size)
    (h : operators nested live least count left tokens = .ok (v, rest)) :
    Groups least (levels + 1) (read ++ tokens) rest ∧ Stops least rest := by
  induction count generalizing p read tokens left e with
  | zero =>
    obtain rfl : tokens = [] := List.length_eq_zero_iff.mp (Nat.le_zero.mp short)
    cases h
    exact ⟨⟨read, e, rfl, parses.weaken le, range, deep⟩, stops_nil least⟩
  | succ count ih =>
    by_cases belongs : ∃ op more, tokens = .operator op :: more ∧ least ≤ op.precedence
    · obtain ⟨op, more, rfl, binds⟩ := belongs
      rw [operators_operator binds] at h
      obtain ⟨⟨right, more'⟩, found, applies⟩ := of_bind_ok h
      obtain ⟨⟨read', e', rfl, parses', range', deep'⟩, stops'⟩ := sound (Nat.le_of_succ_le fits) found
      obtain ⟨left', -, goesOn⟩ := of_bind_ok applies
      have tighter : op.precedence ≤ p := Nat.le_of_lt_succ (stops_operator.mp stops)
      have whole := ih (.binary op (Nat.le_refl _) (parses.weaken tighter) parses') ⟨range, range'⟩
        (Nat.max_le.mpr ⟨deep, Nat.succ_le_succ deep'⟩) binds stops' (by simp at short; omega)
        (by simp at fits; omega) goesOn
      rwa [List.append_assoc] at whole
    · have ends : Stops least tokens := by
        intro op more found
        exact Nat.lt_of_not_le fun binds => belongs ⟨op, more, found, binds⟩
      rw [operators_of_stops ends] at h
      cases h
      exact ⟨⟨read, e, rfl, parses.weaken le, range, deep⟩, ends⟩

/-- What evaluation takes from the tokens is an expression. -/
theorem evaluate_isSound (b : Bindings) (size levels : Nat) :
    (evaluate b size levels).IsSound size levels := by
  induction levels with
  | zero =>
    intro live p tokens rest v fits h
    contradiction
  | succ levels ih =>
    intro live p tokens rest v fits h
    rw [evaluate] at h
    obtain ⟨⟨left, more⟩, found, applies⟩ := of_bind_ok h
    obtain ⟨read, e, rfl, parses, range, deep⟩ := unary_groups ih fits found
    rw [List.length_append] at fits
    exact operators_groups ih (parses.tighten (max p prefixPrecedence)) range deep (Nat.le_max_left _ _)
      ((stops_prefixed more).mono (Nat.succ_le_succ (Nat.le_max_right _ _))) (by omega) (by omega)
      applies

/-! ## Both phases at once -/

/-- The row of tokens is one expression, in range and not too deeply nested, with the given tree. -/
structure IsExpression (tokens : List Token) (e : Expr) : Prop where
  parses : Parses 0 tokens e
  range : e.InRange
  nesting : e.nesting ≤ maxNesting

/-- A row of tokens that is one expression has the value of its tree, or fails as its tree does. -/
theorem IsExpression.evaluateAll_eq {tokens : List Token} {e : Expr} (h : IsExpression tokens e)
    (b : Bindings) : evaluateAll b tokens = e.eval b := by
  have reads : ReadsAs b tokens.length 0 tokens e := h.parses.readsAs h.range (Nat.le_refl _)
  have whole := reads.evaluate_eq h.nesting h.parses.chain_le (stops_nil 0) true
  rw [List.append_nil] at whole
  rw [evaluateAll, whole, Expr.read, if_pos rfl]
  cases e.eval b <;> rfl

/-- A row of tokens that has a value is one expression. -/
theorem isExpression_of_evaluateAll {b : Bindings} {tokens : List Token} {v : Value}
    (h : evaluateAll b tokens = .ok v) : ∃ e, IsExpression tokens e := by
  unfold evaluateAll at h
  split at h
  · next w found =>
    obtain ⟨⟨read, e, eq, parses, range, deep⟩, -⟩ :=
      evaluate_isSound b tokens.length maxNesting (Nat.le_refl _) found
    rw [List.append_nil] at eq
    exact ⟨e, eq ▸ parses, range, deep⟩
  · contradiction
  · contradiction

/-- Evaluation has the results of its two phases. A row of tokens has a value just if it is one
expression whose tree has that value, and where it is an expression it also fails as its tree does. So
operands that are skipped have to be expressions, and beyond that they do not matter: rows whose trees
differ in them alone have the same value or the same failure. -/
theorem evaluateAll_two_phases (b : Bindings) (tokens : List Token) :
    (∀ v, evaluateAll b tokens = .ok v ↔ ∃ e, IsExpression tokens e ∧ e.eval b = .ok v) ∧
      (∀ e, IsExpression tokens e → evaluateAll b tokens = e.eval b) ∧
      ∀ e e' tokens', IsExpression tokens e → IsExpression tokens' e' → e.AlikeUpToSkipped b e' →
        evaluateAll b tokens = evaluateAll b tokens' := by
  refine ⟨fun v => ⟨fun h => ?_, ?_⟩, fun e h => h.evaluateAll_eq b, ?_⟩
  · obtain ⟨e, expression⟩ := isExpression_of_evaluateAll h
    exact ⟨e, expression, (expression.evaluateAll_eq b).symm.trans h⟩
  · rintro ⟨e, expression, value⟩
    exact (expression.evaluateAll_eq b).trans value
  · intro e e' tokens' expression expression' alike
    rw [expression.evaluateAll_eq, expression'.evaluateAll_eq, alike.eval_eq]

example : evaluateAll .empty
    [.bool false, .operator .and, .name "x", .operator .div, .int 0, .operator .or, .bool true] =
      .ok (.bool true) := by rfl

end LevelCheck.Expression
