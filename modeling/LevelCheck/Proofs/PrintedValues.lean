import LevelCheck.Proofs.IntegerArithmetic
import LevelCheck.Proofs.Scanning
set_option autoImplicit false

/-! # Printed values

A value that is shown, a double apart, is a line with this value, in every session. Only a string with
a quote in it would not be, and no session comes to one: a literal ends at its first quote, and joining
adds no quotes to those of its operands. -/

namespace LevelCheck.Expression

/-! ## Values without quotes -/

/-- There is no quote in the value. -/
def Value.IsUnquoted : Value → Prop
  | .string s => '"' ∉ s.toList
  | _ => True

/-- Digits come after the quote, and what is no character at all comes before it. -/
theorem digitChar_ne_quote (d : Nat) : Json.digitChar d ≠ '"' := by
  intro isQuote
  by_cases valid : ('0'.toNat + d).isValidChar
  · rw [Json.digitChar, Char.ofNat, dif_pos valid] at isQuote
    have point : '0'.toNat + d = '"'.toNat := congrArg Char.toNat isQuote
    have before : '"'.toNat < '0'.toNat := by decide
    omega
  · rw [Json.digitChar, Char.ofNat, dif_neg valid] at isQuote
    contradiction

theorem quote_notMem_digitsText (digits : List Nat) : '"' ∉ Json.digitsText digits := by
  intro isIn
  obtain ⟨d, -, isQuote⟩ := List.mem_map.mp isIn
  exact digitChar_ne_quote d isQuote

theorem quote_notMem_positionalText (x : Float) : '"' ∉ (Decimal.positionalText x).toList := by
  have sign (negative : Bool) : '"' ∉ (if negative then ['-'] else [] : List Char) := by
    cases negative <;> decide
  unfold Decimal.positionalText
  split
  · decide
  · dsimp only
    split
    · simp [sign]
    · split
      · simp [sign]
      · simp only [String.toList_ofList, List.mem_append, not_or]
        refine ⟨⟨sign _, quote_notMem_digitsText _⟩, ?_⟩
        split
        · simp
        · simp [quote_notMem_digitsText]

theorem quote_notMem_doubleText (x : Float) : '"' ∉ (Value.doubleText x).toList := by
  unfold Value.doubleText
  split
  · decide
  · split
    · split <;> decide
    · split
      · simp [quote_notMem_positionalText]
      · exact quote_notMem_positionalText x

theorem quote_notMem_toDigits (n : Nat) : '"' ∉ Nat.toDigits 10 n := fun isIn =>
  absurd (JsonNumber.isDigit_of_mem isIn) (by decide)

/-- The characters of an integer: its digits, and a minus in front of a negative one. -/
theorem toList_toString (i : Int) : (toString i).toList =
    (if i < 0 then ['-'] else []) ++ Nat.toDigits 10 i.natAbs := by
  cases i with
  | ofNat n =>
    have notNegative : ¬ Int.ofNat n < 0 := Int.not_lt.mpr (Int.natCast_nonneg n)
    change (Nat.repr n).toList = _
    rw [Nat.toList_repr, if_neg notNegative]
    rfl
  | negSucc n =>
    change ("-" ++ Nat.repr (n + 1)).toList = _
    rw [String.toList_append, Nat.toList_repr, if_pos (Int.negSucc_lt_zero n)]
    rfl

theorem Value.IsUnquoted.plainText {v : Value} (unquoted : v.IsUnquoted) : '"' ∉ v.plainText.toList := by
  cases v with
  | int i =>
    change '"' ∉ (toString i.toInt).toList
    rw [toList_toString, List.mem_append, not_or]
    refine ⟨?_, quote_notMem_toDigits _⟩
    split <;> simp
  | double x => exact quote_notMem_doubleText x
  | bool b => cases b <;> decide
  | string s => exact unquoted

/-! ## What operators do to quotes -/

theorem PrefixOp.apply_isUnquoted {op : PrefixOp} {v w : Value} (h : op.apply v = .ok w) :
    w.IsUnquoted := by
  unfold PrefixOp.apply at h
  split at h <;> cases h <;> trivial

theorem Operator.apply_isUnquoted {op : Operator} {l r v : Value} (left : l.IsUnquoted)
    (right : r.IsUnquoted) (h : op.apply l r = .ok v) : v.IsUnquoted := by
  have joined {s t : String} (first : '"' ∉ s.toList) (second : '"' ∉ t.toList) :
      (Value.string (s ++ t)).IsUnquoted := by
    simp [Value.IsUnquoted, first, second]
  unfold Operator.apply at h
  dsimp only at h
  split at h
  · cases op <;> simp only [onInts?, Option.getD] at h <;> (try split at h) <;> cases h <;> trivial
  · cases op <;> simp only [onBools?, Option.map, Option.getD] at h <;> cases h <;> trivial
  · cases op <;> simp only [onStrings?, Option.map, Option.getD] at h <;> cases h
    · exact joined left right
    all_goals trivial
  · split at h <;> cases h
    exact joined left right.plainText
  · split at h <;> cases h
    exact joined left.plainText right
  · split at h
    · cases op <;> simp only [onDoubles?, Option.map, Option.getD] at h <;> cases h <;> trivial
    · contradiction

/-! ## Sessions without quotes -/

/-- No name stands for a string with a quote in it. -/
def Bindings.AreUnquoted (b : Bindings) : Prop := ∀ binding ∈ b.entries, binding.2.IsUnquoted

theorem Bindings.AreUnquoted.get {b : Bindings} (unquoted : b.AreUnquoted) {name : String} {v : Value}
    (bound : b.get? name = some v) : v.IsUnquoted := by
  obtain ⟨binding, found, rfl⟩ := Option.map_eq_some_iff.mp bound
  exact unquoted binding (List.mem_of_find?_eq_some found)

theorem Bindings.AreUnquoted.set {b : Bindings} (unquoted : b.AreUnquoted) {v : Value}
    (value : v.IsUnquoted) (name : String) : (b.set name v).AreUnquoted := by
  intro binding isIn
  rcases List.mem_cons.mp isIn with rfl | kept
  · exact value
  · exact unquoted binding (List.mem_of_mem_filter kept)

/-- The value of an expression has no quotes that its tokens and names do not have. -/
theorem Parses.eval_isUnquoted {b : Bindings} (unquoted : b.AreUnquoted) {p : Nat} {tokens : List Token}
    {e : Expr} (parses : Parses p tokens e) (cut : ∀ token ∈ tokens, token.IsCut) {v : Value}
    (value : e.eval b = .ok v) : v.IsUnquoted := by
  induction parses generalizing v with
  | int p n =>
    cases value
    trivial
  | double p x =>
    cases value
    trivial
  | string p s =>
    cases value
    exact cut (.string s) List.mem_cons_self
  | bool p w =>
    cases value
    trivial
  | name p s =>
    rw [Expr.eval] at value
    split at value
    · next w bound =>
      cases value
      exact unquoted.get bound
    · contradiction
  | bracket p inside ih =>
    exact ih (fun token isIn => cut token (by simp [isIn])) value
  | prefixed p op operand ih =>
    obtain ⟨w, -, applies⟩ := of_bind_ok value
    cases result : op.apply w with
    | error e => simp [result, applied, Except.mapError] at applies
    | ok u =>
      rw [result] at applies
      cases applies
      exact PrefixOp.apply_isUnquoted result
  | binary op binds left right ihl ihr =>
    rw [Expr.eval_binary] at value
    obtain ⟨x, first, rest⟩ := of_bind_ok value
    have leftUnquoted := ihl (fun token isIn => cut token (by simp [isIn])) first
    split at rest
    · cases rest
      exact leftUnquoted
    · obtain ⟨y, second, applies⟩ := of_bind_ok rest
      have rightUnquoted := ihr (fun token isIn => cut token (by simp [isIn])) second
      cases result : op.apply x y with
      | error e => simp [result, applied, Except.mapError] at applies
      | ok u =>
        rw [result] at applies
        cases applies
        exact Operator.apply_isUnquoted leftUnquoted rightUnquoted result

theorem evaluateAll_isUnquoted {b : Bindings} (unquoted : b.AreUnquoted) {tokens : List Token}
    (cut : ∀ token ∈ tokens, token.IsCut) {v : Value} (value : evaluateAll b tokens = .ok v) :
    v.IsUnquoted := by
  obtain ⟨e, expression⟩ := isExpression_of_evaluateAll value
  rw [expression.evaluateAll_eq] at value
  exact expression.parses.eval_isUnquoted unquoted cut value

/-- The tokens that a command evaluates. -/
def Command.tokens : Command → List Token
  | .nothing => []
  | .bind _ value | .rebind _ value | .compute value => value

theorem Command.tokens_subset {tokens : List Token} {command : Command}
    (h : Command.ofTokens tokens = .ok command) : command.tokens ⊆ tokens := by
  unfold Command.ofTokens at h
  split at h <;> cases h <;> intro token isIn <;> simp_all [Command.tokens]

namespace Session

theorem perform_isUnquoted {b b' : Bindings} (unquoted : b.AreUnquoted) {command : Command}
    (cut : ∀ token ∈ command.tokens, token.IsCut) {value : Option Value}
    (h : perform b command = .ok (value, b')) : (∀ v ∈ value, v.IsUnquoted) ∧ b'.AreUnquoted := by
  cases command with
  | nothing =>
    cases h
    exact ⟨by simp, unquoted⟩
  | bind name tokens =>
    obtain ⟨v, found, rest⟩ := of_bind_ok h
    cases rest
    exact ⟨by simp, unquoted.set (evaluateAll_isUnquoted unquoted cut found) name⟩
  | rebind name tokens =>
    rw [perform] at h
    split at h
    · contradiction
    · obtain ⟨v, found, rest⟩ := of_bind_ok h
      cases rest
      have isUnquoted := evaluateAll_isUnquoted unquoted cut found
      exact ⟨by simpa using isUnquoted, unquoted.set isUnquoted name⟩
  | compute tokens =>
    obtain ⟨v, found, rest⟩ := of_bind_ok h
    cases rest
    exact ⟨by simpa using evaluateAll_isUnquoted unquoted cut found, unquoted⟩

theorem of_mapError_ok {ε ε' α : Type} {x : Except ε α} {f : ε → ε'} {a : α}
    (h : x.mapError f = .ok a) : x = .ok a := by
  cases x <;> cases h
  rfl

theorem evaluateLine_isUnquoted {b b' : Bindings} (unquoted : b.AreUnquoted) {line : String}
    {value : Option Value} (h : evaluateLine b line = .ok (value, b')) :
    (∀ v ∈ value, v.IsUnquoted) ∧ b'.AreUnquoted := by
  unfold evaluateLine at h
  generalize statementOf line = split at h
  obtain ⟨statement, silent⟩ := split
  dsimp only at h
  obtain ⟨tokens, scanned, h⟩ := of_bind_ok h
  obtain ⟨command, asked, h⟩ := of_bind_ok h
  obtain ⟨⟨result, b''⟩, performed, h⟩ := of_bind_ok h
  have cut := (Token.scan_eq_ok_iff.mp (of_mapError_ok scanned)).isCut
  have subset := Command.tokens_subset (of_mapError_ok asked)
  have kept := perform_isUnquoted unquoted (fun token isIn => cut token (subset isIn)) performed
  cases h
  refine ⟨?_, kept.2⟩
  cases silent
  · exact kept.1
  · simp

/-- What evaluating lines one after the other comes to, and the session afterwards. -/
def run (s : Session) : List String → List (Except Failure (Option Value)) × Session
  | [] => ([], s)
  | line :: lines =>
    let first := s.evaluate line
    let others := first.2.run lines
    (first.1 :: others.1, others.2)

theorem run_cons (s : Session) (line : String) (lines : List String) :
    s.run (line :: lines) = ((s.evaluate line).1 :: ((s.evaluate line).2.run lines).1,
      ((s.evaluate line).2.run lines).2) :=
  rfl

/-- One of the lines has the value, or a name stands for it at their end. -/
def Yields (s : Session) (lines : List String) (v : Value) : Prop :=
  .ok (some v) ∈ (s.run lines).1 ∨ ∃ name, (s.run lines).2.bindings.get? name = some v

theorem evaluate_isUnquoted {s : Session} (unquoted : s.bindings.AreUnquoted) (line : String) :
    (∀ v, (s.evaluate line).1 = .ok (some v) → v.IsUnquoted) ∧
      (s.evaluate line).2.bindings.AreUnquoted := by
  unfold evaluate
  split
  · next value b found =>
    have kept := evaluateLine_isUnquoted unquoted found
    exact ⟨fun v is => kept.1 v (Except.ok.inj is), kept.2⟩
  · exact ⟨by simp, unquoted⟩

theorem run_isUnquoted {s : Session} (unquoted : s.bindings.AreUnquoted) (lines : List String) :
    (∀ v, .ok (some v) ∈ (s.run lines).1 → v.IsUnquoted) ∧
      (s.run lines).2.bindings.AreUnquoted := by
  induction lines generalizing s with
  | nil => exact ⟨by simp [run], unquoted⟩
  | cons line lines ih =>
    have first := evaluate_isUnquoted unquoted line
    have later := ih first.2
    rw [run_cons]
    refine ⟨fun v isIn => ?_, later.2⟩
    rcases List.mem_cons.mp isIn with is | isIn
    · exact first.1 v is.symm
    · exact later.1 v isIn

theorem Yields.isUnquoted {lines : List String} {v : Value} (yields : start.Yields lines v) :
    v.IsUnquoted := by
  have kept := run_isUnquoted (s := start) (fun binding isIn => nomatch isIn) lines
  rcases yields with shown | ⟨name, bound⟩
  · exact kept.1 v shown
  · exact kept.2.get bound

end Session

/-! ## Reading a printed value -/

theorem dropWhile_head {p : Char → Bool} {cs : List Char} (stop : ∀ c ∈ cs.head?, p c = false) :
    cs.dropWhile p = cs := by
  cases cs with
  | nil => rfl
  | cons c rest => rw [List.dropWhile_cons, stop c rfl, if_neg Bool.false_ne_true]

/-- A line that neither starts nor ends with a blank, and does not end with a semicolon, is the
statement that it makes. -/
theorem statementOf_eq {line : String} (start : ∀ c ∈ line.toList.head?, Text.isBlank c = false)
    (ending : ∀ c ∈ line.toList.getLast?, Text.isBlank c = false ∧ c ≠ ';') :
    statementOf line = (line, false) := by
  have trimmed : Text.trim line = line := by
    have kept : line.toList.reverse.dropWhile Text.isBlank = line.toList.reverse :=
      dropWhile_head fun c isIn => (ending c (by rwa [List.head?_reverse] at isIn)).1
    rw [Text.trim, dropWhile_head start, Text.dropEndWhile, kept, List.reverse_reverse,
      String.ofList_toList]
  have noSemicolon : Text.withoutEnding? ";" line = none := by
    unfold Text.withoutEnding?
    rw [if_neg]
    intro isSuffix
    obtain ⟨before, is⟩ := List.isSuffixOf_iff_suffix.mp isSuffix
    have last : line.toList.getLast? = some ';' := by
      rw [← is]
      simp
    exact (ending ';' last).2 rfl
  unfold statementOf
  rw [trimmed]
  dsimp only
  rw [noSemicolon]

theorem asks_of_scans {line : String} {tokens : List Token}
    (start : ∀ c ∈ line.toList.head?, Text.isBlank c = false)
    (ending : ∀ c ∈ line.toList.getLast?, Text.isBlank c = false ∧ c ≠ ';')
    (scans : Scans line.toList tokens) : Asks line tokens :=
  ⟨line, statementOf_eq start ending, Token.scan_eq_ok_iff.mpr scans⟩

/-- The value is printed as an expression for it, whatever names stand for. -/
def Value.IsWritten (v : Value) : Prop :=
  ∃ tokens e, Asks v.text tokens ∧ IsExpression tokens e ∧ ∀ b, e.eval b = .ok v

theorem isWritten_bool (v : Bool) : (Value.bool v).IsWritten := by
  have scans : Scans (Value.bool v).text.toList [.bool v] := by
    have cut : (Token.bool v).IsCut := trivial
    have word := cut.scans_text (by simp)
    cases v <;> exact word
  have shape : (Value.bool v).text.toList = if v then "true".toList else "false".toList := by
    cases v <;> rfl
  refine ⟨[.bool v], .bool v, asks_of_scans ?_ ?_ scans, ⟨.bool _ v, trivial, (by decide : 1 ≤ 256)⟩,
    fun b => rfl⟩
  all_goals
    rw [shape]
    cases v <;> simp <;> decide

theorem isWritten_string {s : String} (noQuote : '"' ∉ s.toList) : (Value.string s).IsWritten := by
  have cut : (Token.string s).IsCut := noQuote
  have scans : Scans (Token.string s).text.toList [.string s] := cut.scans_text (by simp)
  have shape : (Value.string s).text.toList = '"' :: (s.toList ++ ['"']) := by simp [Value.text]
  refine ⟨[.string s], .string s, asks_of_scans ?_ ?_ scans,
    ⟨.string _ s, trivial, (by decide : 1 ≤ 256)⟩, fun b => rfl⟩
  · rw [shape]
    rintro c ⟨⟩
    decide
  · rw [shape, ← List.cons_append, List.getLast?_append]
    rintro c ⟨⟩
    decide

theorem isWritten_int (i : Int32) : (Value.int i).IsWritten := by
  have shape : (Value.int i).text.toList =
      (if i.toInt < 0 then ['-'] else []) ++ Nat.toDigits 10 i.toInt.natAbs := toList_toString i.toInt
  have inside : ∀ c ∈ (Value.int i).text.toList, Text.isBlank c = false ∧ c ≠ ';' := by
    rw [shape]
    intro c isIn
    rcases List.mem_append.mp isIn with sign | digit
    · split at sign
      · obtain rfl := List.mem_singleton.mp sign
        decide
      · contradiction
    · have isDigit := JsonNumber.isDigit_of_mem digit
      refine ⟨Token.not_isBlank_of_isDigit isDigit, ?_⟩
      rintro rfl
      contradiction
  have asks {tokens : List Token} (scans : Scans (Value.int i).text.toList tokens) :
      Asks (Value.int i).text tokens :=
    asks_of_scans (fun c isIn => (inside c (List.mem_of_head? isIn)).1)
      (fun c isIn => inside c (List.mem_of_getLast? isIn)) scans
  have digits {n : Nat} (small : n ≤ 2147483648) : Scans (Nat.toDigits 10 n) [.int n] := by
    have cut : (Token.int n).IsCut := Nat.lt_of_le_of_lt small (by decide)
    have scans := cut.scans_text (by simp)
    rwa [show (Token.int n).text.toList = Nat.toDigits 10 n from Nat.toList_repr] at scans
  have lower := i.le_toInt
  have upper := i.toInt_lt
  by_cases negative : i.toInt < 0
  · refine ⟨[.operator .sub, .int i.toInt.natAbs], .prefixed .minus (.int i.toInt.natAbs), asks ?_,
      ⟨.prefixed _ .minus (.int _ _), ?_, (by decide : 1 ≤ 256)⟩, fun b => ?_⟩
    · rw [shape, if_pos negative]
      refine .token (by decide) (Token.scanNext_mark (by decide) _) (digits (by omega))
    · change i.toInt.natAbs ≤ 2147483648
      omega
    · have value : (Expr.prefixed .minus (.int i.toInt.natAbs)).exactValue? b = some i.toInt := by
        simp only [Expr.exactValue?, Option.map_some, Option.some.injEq]
        omega
      rw [Expr.eval_of_exact value, Int32.ofInt_toInt]
  · refine ⟨[.int i.toInt.natAbs], .int i.toInt.natAbs, asks ?_,
      ⟨.int _ _, ?_, (by decide : 1 ≤ 256)⟩, fun b => ?_⟩
    · rw [shape, if_neg negative]
      exact digits (by omega)
    · change i.toInt.natAbs ≤ 2147483647
      omega
    · have value : (Expr.int i.toInt.natAbs).exactValue? b = some i.toInt := by
        simp only [Expr.exactValue?, Option.some.injEq]
        omega
      rw [Expr.eval_of_exact value, Int32.ofInt_toInt]

theorem Value.IsUnquoted.isWritten {v : Value} (unquoted : v.IsUnquoted)
    (notDouble : ∀ x, v ≠ .double x) : v.IsWritten := by
  cases v with
  | int i => exact isWritten_int i
  | double x => exact absurd rfl (notDouble x)
  | bool b => exact isWritten_bool b
  | string s => exact isWritten_string unquoted

theorem Value.IsWritten.evaluate_text {v : Value} (written : v.IsWritten) (s : Session) :
    s.evaluate v.text = (.ok (some v), s) := by
  obtain ⟨tokens, e, asks, expression, value⟩ := written
  rw [s.evaluate_of_asks asks expression, value]
  rfl

/-- Printed values read back. A value that a session started afresh comes to or gives a name, a double
apart, is printed as a line that has this value in every session and changes nothing there. These values
are all integers, both truth values, and the strings without a quote. -/
theorem Session.printed_readsBack :
    (∀ (lines : List String) (v : Value), start.Yields lines v → (∀ x, v ≠ .double x) →
      ∀ s : Session, s.evaluate v.text = (.ok (some v), s)) ∧
    ∀ v : Value, (∀ x, v ≠ .double x) → ((∃ lines, start.Yields lines v) ↔ v.IsUnquoted) := by
  refine ⟨fun lines v yields notDouble s => ?_, fun v notDouble => ⟨?_, fun unquoted => ?_⟩⟩
  · exact (yields.isUnquoted.isWritten notDouble).evaluate_text s
  · rintro ⟨lines, yields⟩
    exact yields.isUnquoted
  · have shown := (unquoted.isWritten notDouble).evaluate_text start
    refine ⟨[v.text], .inl ?_⟩
    rw [run_cons, shown]
    exact List.mem_cons_self

/-- The least integer, which a difference comes to, is printed with a sign and reads back; and there are
lines that come to a string without a quote. -/
theorem Session.printed_readsBack_least :
    start.Yields ["-2147483647 - 1"] (.int Int32.minValue) ∧
      (∀ s : Session, s.evaluate "-2147483648" = (.ok (some (.int Int32.minValue)), s)) ∧
      ∃ lines, start.Yields lines (.string "a b") := by
  obtain ⟨readsBack, reached⟩ := Session.printed_readsBack
  have yields : start.Yields ["-2147483647 - 1"] (.int Int32.minValue) := .inl (by decide +kernel)
  have printed : (Value.int Int32.minValue).text = "-2147483648" := by decide +kernel
  have unquoted : (Value.string "a b").IsUnquoted := (by decide : '"' ∉ "a b".toList)
  refine ⟨yields, fun s => ?_, (reached (.string "a b") nofun).2 unquoted⟩
  rw [← printed]
  exact readsBack _ _ yields nofun s

end LevelCheck.Expression
