import LevelCheck.Expression.Token
import LevelCheck.Proofs.JsonText
import Mathlib.Data.List.TakeWhile
set_option autoImplicit false

/-! # Scanning piece by piece

A blank keeps what stands before it from what follows, so two lines that have tokens have them one
after the other when a blank is put between them. Every token that is cut from a line is also the only
token of its own text, a double apart, whose text leaves out the zeros it was written with. Tokens that
are written with blanks between them are therefore read back as they were. -/

namespace LevelCheck.Expression

/-! ## The steps of the scanner -/

/-- The characters are cut into the tokens, one after the other from the left. -/
inductive Scans : List Char → List Token → Prop where
  | nil : Scans [] []
  | blank {c : Char} {cs : List Char} {tokens : List Token} (isBlank : Text.isBlank c = true)
      (rest : Scans cs tokens) : Scans (c :: cs) tokens
  | token {c : Char} {cs more : List Char} {token : Token} {tokens : List Token}
      (visible : Text.isBlank c = false) (next : Token.scanNext c cs = .ok (token, more))
      (rest : Scans more tokens) : Scans (c :: cs) (token :: tokens)

namespace Token

theorem scan_nil : scan [] = .ok [] := by
  unfold scan
  rfl

theorem scan_blank {c : Char} (isBlank : Text.isBlank c = true) (cs : List Char) :
    scan (c :: cs) = scan cs := by
  conv_lhs => unfold scan
  exact if_pos isBlank

theorem scan_token {c : Char} {cs more : List Char} {token : Token}
    (visible : Text.isBlank c = false) (next : scanNext c cs = .ok (token, more)) :
    scan (c :: cs) = (scan more).map (token :: ·) := by
  conv_lhs => unfold scan
  simp only [visible, Bool.false_eq_true, if_false]
  split
  · next found =>
    rw [next] at found
    contradiction
  · next found =>
    rw [next] at found
    cases found
    cases scan more <;> rfl

theorem scan_eq_ok_iff {cs : List Char} {tokens : List Token} :
    scan cs = .ok tokens ↔ Scans cs tokens := by
  constructor
  · intro h
    fun_induction scan cs generalizing tokens with
    | case1 =>
      cases h
      exact .nil
    | case2 c rest isBlank ih => exact .blank isBlank (ih h)
    | case3 => contradiction
    | case4 => contradiction
    | case5 c rest visible token more next tokens' found ih =>
      cases h
      exact .token (by simpa using visible) next (ih found)
  · intro h
    induction h with
    | nil => exact scan_nil
    | blank isBlank _ ih => rw [scan_blank isBlank, ih]
    | token visible next _ ih => rw [scan_token visible next, ih]; rfl

/-! ## What a blank ends -/

/-- The code points of the blanks. -/
def blankPoints : List Nat :=
  [9, 10, 11, 12, 13, 0x20, 0x85, 0xA0, 0x1680, 0x2000, 0x2001, 0x2002, 0x2003, 0x2004, 0x2005, 0x2006,
    0x2007, 0x2008, 0x2009, 0x200A, 0x2028, 0x2029, 0x202F, 0x205F, 0x3000]

theorem toNat_mem_blankPoints {c : Char} (isBlank : Text.isBlank c = true) :
    c.toNat ∈ blankPoints := by
  simp only [Text.isBlank, Bool.or_eq_true, Bool.and_eq_true, decide_eq_true_eq, beq_iff_eq] at isBlank
  simp only [blankPoints, List.mem_cons, List.not_mem_nil, or_false]
  omega

/-- Words, numbers and marks do not go on with a blank. -/
theorem ends_at_blank {c : Char} (isBlank : Text.isBlank c = true) :
    isWordPart c = false ∧ c.isDigit = false ∧ c ≠ '=' := by
  have ends : ∀ n ∈ blankPoints, isWordPart (Char.ofNat n) = false ∧ (Char.ofNat n).isDigit = false ∧
      Char.ofNat n ≠ '=' := by
    decide +kernel
  simpa only [Char.ofNat_toNat] using ends c.toNat (toNat_mem_blankPoints isBlank)

theorem takeWhile_append_stop {p : Char → Bool} {w : Char} (stop : p w = false) (cs tail : List Char) :
    (cs ++ w :: tail).takeWhile p = cs.takeWhile p := by
  induction cs with
  | nil => simp [stop]
  | cons c cs ih => simp only [List.cons_append, List.takeWhile_cons, ih]

theorem dropWhile_append_stop {p : Char → Bool} {w : Char} (stop : p w = false) (cs tail : List Char) :
    (cs ++ w :: tail).dropWhile p = cs.dropWhile p ++ w :: tail := by
  induction cs with
  | nil => simp [stop]
  | cons c cs ih =>
    simp only [List.cons_append, List.dropWhile_cons, ih]
    split <;> rfl

theorem scanString_append {cs more : List Char} {token : Token}
    (h : scanString cs = .ok (token, more)) (tail : List Char) :
    scanString (cs ++ tail) = .ok (token, more ++ tail) := by
  unfold scanString at h
  split at h
  · contradiction
  · next quote rest found =>
    obtain ⟨rfl, rfl⟩ := Prod.mk.inj (Except.ok.inj h)
    have closed : (cs ++ tail).dropWhile (· != '"') = quote :: (rest ++ tail) := by
      rw [List.dropWhile_append, found]
      rfl
    have short : (cs.takeWhile (· != '"')).length ≠ cs.length := by
      have parts := congrArg List.length (List.takeWhile_append_dropWhile (p := (· != '"')) (l := cs))
      rw [found, List.length_append, List.length_cons] at parts
      omega
    unfold scanString
    rw [closed, List.takeWhile_append, if_neg short]

theorem map_pair_append {e : Except ScanError Token} {token : Token} {rest more : List Char}
    (h : (e.map fun token => (token, rest)) = .ok (token, more)) (tail : List Char) :
    (e.map fun token => (token, rest ++ tail)) = .ok (token, more ++ tail) := by
  obtain rfl := eq_of_map_pair h
  cases e with
  | error e => contradiction
  | ok t =>
    cases h
    rfl

theorem scanNumber_append {cs more : List Char} {token : Token} {w : Char}
    (isBlank : Text.isBlank w = true) (h : scanNumber cs = .ok (token, more)) (tail : List Char) :
    scanNumber (cs ++ w :: tail) = .ok (token, more ++ w :: tail) := by
  have notDigit := (ends_at_blank isBlank).2.1
  unfold scanNumber at h ⊢
  rw [takeWhile_append_stop notDigit, dropWhile_append_stop notDigit]
  split at h
  · next d rest found =>
    rw [found]
    simp only [List.cons_append]
    split at h
    · next isDigit =>
      cases h
      rw [if_pos isDigit, takeWhile_append_stop notDigit, dropWhile_append_stop notDigit]
    · next other =>
      rw [if_neg other]
      exact map_pair_append h (w :: tail)
  · next noFraction =>
    have same := map_pair_append h (w :: tail)
    split
    · next d rest found =>
      -- The point is the last character before the blank, so no digit follows it.
      have last : d = w := by
        rcases shape : cs.dropWhile Char.isDigit with _ | ⟨c, _ | ⟨d', rest'⟩⟩
        · rw [shape] at found
          obtain ⟨rfl, -⟩ := List.cons.inj found
          exact absurd isBlank (by decide)
        · rw [shape] at found
          exact (List.cons.inj (List.cons.inj found).2).1.symm
        · rw [shape] at found
          obtain ⟨rfl, -⟩ := List.cons.inj found
          exact absurd shape (noFraction d' rest')
      subst last
      rw [if_neg (by simp [notDigit]), ← found]
      exact same
    · exact same

theorem scanMark_append {c : Char} {cs more : List Char} {token : Token} {w : Char}
    (isBlank : Text.isBlank w = true) (h : scanMark c cs = .ok (token, more)) (tail : List Char) :
    scanMark c (cs ++ w :: tail) = .ok (token, more ++ w :: tail) := by
  have single (alone : ∀ rest, cs = '=' :: rest → False) :
      ∀ rest, cs ++ w :: tail = '=' :: rest → False := by
    intro rest found
    cases cs with
    | nil => exact (ends_at_blank isBlank).2.2 (List.cons.inj found).1
    | cons d ds => exact alone ds (by rw [(List.cons.inj found).1])
  unfold scanMark at h
  split at h <;> cases h
  case h_7 alone | h_8 alone | h_9 alone | h_10 alone =>
    rw [scanMark]
    exact single alone
  all_goals rfl

/-- A token that a line goes on after, if it does, with a blank. -/
theorem scanNext_append {c : Char} {cs more : List Char} {token : Token} {w : Char}
    (isBlank : Text.isBlank w = true) (h : scanNext c cs = .ok (token, more)) (tail : List Char) :
    scanNext c (cs ++ w :: tail) = .ok (token, more ++ w :: tail) := by
  have notPart := (ends_at_blank isBlank).1
  unfold scanNext at h ⊢
  split at h
  · next quote =>
    rw [if_pos quote]
    exact scanString_append h (w :: tail)
  · next notQuote =>
    rw [if_neg notQuote]
    split at h
    · next isDigit =>
      rw [if_pos isDigit]
      exact scanNumber_append isBlank h tail
    · next notDigit =>
      rw [if_neg notDigit]
      split at h
      · next isWord =>
        cases h
        rw [if_pos isWord, scanWord, takeWhile_append_stop notPart, dropWhile_append_stop notPart]
      · next notWord =>
        rw [if_neg notWord]
        exact scanMark_append isBlank h tail

end Token

/-- The tokens of two pieces with a blank between them. -/
theorem Scans.append {cs tail : List Char} {tokens more : List Token} {w : Char}
    (isBlank : Text.isBlank w = true) (first : Scans cs tokens) (second : Scans tail more) :
    Scans (cs ++ w :: tail) (tokens ++ more) := by
  induction first with
  | nil => exact .blank isBlank second
  | blank isBlank' _ ih => exact .blank isBlank' ih
  | token visible next _ ih => exact .token visible (Token.scanNext_append isBlank next tail) ih

/-! ## What tokens are cut -/

/-- The text is a single word. -/
def IsWord (s : String) : Prop :=
  ∃ c rest, s.toList = c :: rest ∧ Token.isWordStart c = true ∧ ∀ d ∈ rest, Token.isWordPart d = true

/-- The words that are no names. -/
def reservedWords : List String := ["let", "true", "false"]

namespace Token

/-- The token can be cut from a line: an integer is within the limit, a string has no quote in it, and
a name is one word that is not reserved. -/
def IsCut : Token → Prop
  | .int n => n < integerLimit
  | .string s => '"' ∉ s.toList
  | .name s => IsWord s ∧ s ∉ reservedWords
  | _ => True

theorem ofWord_name {s : String} (free : s ∉ reservedWords) : ofWord s = .name s := by
  simp only [reservedWords, List.mem_cons, List.not_mem_nil, or_false, not_or] at free
  rw [ofWord, if_neg free.1, if_neg free.2.1, if_neg free.2.2]

theorem isCut_of_ofDigits {digits : List Char} {token : Token} (h : ofDigits digits = .ok token) :
    token.IsCut := by
  unfold ofDigits at h
  split at h
  · next small =>
    cases h
    exact small
  · contradiction

theorem isCut_of_scanNumber {cs more : List Char} {token : Token}
    (h : scanNumber cs = .ok (token, more)) : token.IsCut := by
  have whole {rest : List Char}
      (h : ((ofDigits (cs.takeWhile Char.isDigit)).map fun token => (token, rest)) = .ok (token, more)) :
      token.IsCut := by
    cases number : ofDigits (cs.takeWhile Char.isDigit) with
    | error e => simp [number, Except.map] at h
    | ok t =>
      rw [number] at h
      cases h
      exact isCut_of_ofDigits number
  unfold scanNumber at h
  split at h
  · split at h
    · cases h
      trivial
    · exact whole h
  · exact whole h

theorem isCut_ofWord {s : String} (isWord : IsWord s) : (ofWord s).IsCut := by
  by_cases reserved : s ∈ reservedWords
  · simp only [reservedWords, List.mem_cons, List.not_mem_nil, or_false] at reserved
    rcases reserved with rfl | rfl | rfl <;> trivial
  · rw [ofWord_name reserved]
    exact ⟨isWord, reserved⟩

theorem isCut_of_scanMark {c : Char} {cs more : List Char} {token : Token}
    (h : scanMark c cs = .ok (token, more)) : token.IsCut := by
  unfold scanMark at h
  split at h <;> cases h <;> trivial

theorem isCut_of_scanNext {c : Char} {cs more : List Char} {token : Token}
    (h : scanNext c cs = .ok (token, more)) : token.IsCut := by
  unfold scanNext at h
  split at h
  · unfold scanString at h
    split at h
    · contradiction
    · cases h
      intro isIn
      rw [String.toList_ofList] at isIn
      simpa using List.mem_takeWhile_imp isIn
  · split at h
    · exact isCut_of_scanNumber h
    · split at h
      · next start =>
        obtain rfl := congrArg Prod.fst (Except.ok.inj h)
        exact isCut_ofWord ⟨c, _, String.toList_ofList, start, fun _ => List.mem_takeWhile_imp⟩
      · exact isCut_of_scanMark h

/-! ## Tokens that are the only one of their text -/

/-- What a word starts with starts nothing else. -/
theorem isWordStart_alone {c : Char} (start : isWordStart c = true) : c ≠ '"' ∧ c.isDigit = false := by
  have others : isWordStart '"' = false ∧
      ∀ n < 58, 48 ≤ n → isWordStart (Char.ofNat n) = false := by
    decide +kernel
  refine ⟨?_, eq_false_of_ne_true fun isDigit => ?_⟩
  · rintro rfl
    exact Bool.false_ne_true (others.1.symm.trans start)
  · simp only [Char.isDigit, Bool.and_eq_true, decide_eq_true_eq] at isDigit
    have bounds : 48 ≤ c.toNat ∧ c.toNat < 58 := ⟨isDigit.1, Nat.lt_succ_of_le isDigit.2⟩
    have digit := others.2 c.toNat bounds.2 bounds.1
    rw [Char.ofNat_toNat] at digit
    exact Bool.false_ne_true (digit.symm.trans start)

theorem scanNext_word {c : Char} {cs : List Char} (start : isWordStart c = true)
    (parts : ∀ d ∈ cs, isWordPart d = true) :
    scanNext c cs = .ok (ofWord (String.ofList (c :: cs)), []) := by
  obtain ⟨notQuote, notDigit⟩ := isWordStart_alone start
  rw [scanNext, if_neg (by simpa using notQuote), if_neg (by simp [notDigit]), if_pos start, scanWord,
    List.takeWhile_eq_self_iff.mpr parts, List.dropWhile_eq_nil_iff.mpr parts]

theorem scanNext_digits {c : Char} {cs : List Char} (digits : ∀ d ∈ c :: cs, d.isDigit = true) :
    scanNext c cs = (ofDigits (c :: cs)).map fun token => (token, []) := by
  have isDigit : c.isDigit = true := digits c List.mem_cons_self
  have notQuote : c ≠ '"' := by
    rintro rfl
    contradiction
  rw [scanNext, if_neg (by simpa using notQuote), if_pos isDigit, scanNumber,
    List.takeWhile_eq_self_iff.mpr digits, List.dropWhile_eq_nil_iff.mpr digits]

theorem scanNext_quote (cs : List Char) (noQuote : '"' ∉ cs) :
    scanNext '"' (cs ++ ['"']) = .ok (.string (String.ofList cs), []) := by
  have others : ∀ c ∈ cs, (c != '"') = true := fun c isIn => by
    rw [bne_iff_ne]
    rintro rfl
    exact noQuote isIn
  rw [scanNext, if_pos (by decide), scanString, List.dropWhile_append_of_pos others,
    List.takeWhile_append_of_pos others]
  simp

theorem ofDigits_toDigits {n : Nat} (small : n < integerLimit) :
    ofDigits (Nat.toDigits 10 n) = .ok (.int n) := by
  have value : digitsValue (Nat.toDigits 10 n) = n := JsonNumber.ofDigits_digitsOf n
  rw [ofDigits, value, if_pos small]

theorem not_isBlank_of_isWordPart {c : Char} (isPart : isWordPart c = true) :
    Text.isBlank c = false := by
  refine eq_false_of_ne_true fun isBlank => ?_
  rw [(ends_at_blank isBlank).1] at isPart
  contradiction

theorem not_isBlank_of_isDigit {c : Char} (isDigit : c.isDigit = true) : Text.isBlank c = false := by
  refine eq_false_of_ne_true fun isBlank => ?_
  rw [(ends_at_blank isBlank).2.1] at isDigit
  contradiction

theorem isWordPart_of_isWordStart {c : Char} (start : isWordStart c = true) : isWordPart c = true := by
  simp only [isWordStart, isWordPart, Text.isLetterOrNumber, Bool.or_eq_true] at start ⊢
  tauto

/-- The characters of operators and brackets. -/
def marks : List Char := ['+', '-', '*', '/', '%', '=', '!', '<', '>', '&', '|', '(', ')']

theorem mark_alone : ∀ c ∈ marks, Text.isBlank c = false ∧ c ≠ '"' ∧ c.isDigit = false ∧
    isWordStart c = false := by
  have alone : (marks.all fun c =>
      !Text.isBlank c && c != '"' && !c.isDigit && !isWordStart c) = true := by
    decide +kernel
  simpa [and_assoc] using alone

theorem scanNext_mark {c : Char} (isMark : c ∈ marks) (cs : List Char) :
    scanNext c cs = scanMark c cs := by
  obtain ⟨-, notQuote, notDigit, notStart⟩ := mark_alone c isMark
  rw [scanNext, if_neg (by simpa using notQuote), if_neg (by simp [notDigit]),
    if_neg (by simp [notStart])]

theorem scans_mark {c : Char} {cs : List Char} {token : Token} (isMark : c ∈ marks)
    (h : scanMark c cs = .ok (token, [])) : Scans (c :: cs) [token] :=
  .token (mark_alone c isMark).1 ((scanNext_mark isMark cs).trans h) .nil

theorem scans_operator (op : Operator) : Scans op.text.toList [.operator op] := by
  cases op <;> exact scans_mark (by decide) rfl

theorem scans_word {s : String} (isWord : IsWord s) : Scans s.toList [ofWord s] := by
  obtain ⟨c, rest, letters, start, parts⟩ := isWord
  have next := scanNext_word start parts
  rw [← letters, String.ofList_toList] at next
  rw [letters]
  exact .token (not_isBlank_of_isWordPart (isWordPart_of_isWordStart start)) next .nil

theorem isWord_of_reserved : ∀ s ∈ reservedWords, IsWord s := by
  simp only [reservedWords, List.forall_mem_cons]
  exact ⟨⟨'l', ['e', 't'], by decide, by decide +kernel, List.all_eq_true.mp (by decide +kernel)⟩,
    ⟨'t', ['r', 'u', 'e'], by decide, by decide +kernel, List.all_eq_true.mp (by decide +kernel)⟩,
    ⟨'f', ['a', 'l', 's', 'e'], by decide, by decide +kernel, List.all_eq_true.mp (by decide +kernel)⟩,
    by simp⟩

/-- Every token that can be cut from a line is the only token of its text, a double apart. -/
theorem IsCut.scans_text {token : Token} (cut : token.IsCut) (notDouble : ∀ x, token ≠ .double x) :
    Scans token.text.toList [token] := by
  cases token with
  | int n =>
    have digits : ∀ c ∈ Nat.toDigits 10 n, c.isDigit = true := fun _ => JsonNumber.isDigit_of_mem
    have number := ofDigits_toDigits cut
    change Scans (Nat.repr n).toList _
    rw [Nat.toList_repr]
    cases shape : Nat.toDigits 10 n with
    | nil => exact absurd shape Nat.toDigits_ne_nil
    | cons c rest =>
      rw [shape] at digits number
      refine .token (not_isBlank_of_isDigit (digits c List.mem_cons_self)) ?_ .nil
      rw [scanNext_digits digits, number]
      rfl
  | double x => exact absurd rfl (notDouble x)
  | string s =>
    have quoted := scanNext_quote s.toList cut
    rw [String.ofList_toList] at quoted
    have shape : (Token.string s).text.toList = '"' :: (s.toList ++ ['"']) := by
      simp [Token.text]
    rw [shape]
    exact .token (by decide) quoted .nil
  | name s =>
    have word := scans_word cut.1
    rwa [ofWord_name cut.2] at word
  | bool v => cases v <;> exact scans_word (isWord_of_reserved _ (by simp [text, reservedWords]))
  | letWord => exact scans_word (isWord_of_reserved _ (by simp [text, reservedWords]))
  | operator op => exact scans_operator op
  | bang | assign | leftParen | rightParen => exact scans_mark (by decide) rfl

/-- The texts of tokens with blanks between them have these tokens. -/
theorem scans_joined {tokens : List Token} (cut : ∀ token ∈ tokens, token.IsCut)
    (noDouble : ∀ x, .double x ∉ tokens) :
    Scans (Text.joinWith " " (tokens.map Token.text)).toList tokens := by
  induction tokens with
  | nil => exact .nil
  | cons token tokens ih =>
    have first : Scans token.text.toList [token] :=
      IsCut.scans_text (cut token List.mem_cons_self) fun x is => noDouble x (is ▸ List.mem_cons_self)
    have others := ih (fun t isIn => cut t (List.mem_cons_of_mem _ isIn)) fun x isIn =>
      noDouble x (List.mem_cons_of_mem _ isIn)
    cases tokens with
    | nil => exact first
    | cons next tokens =>
      have joined := first.append (w := ' ') (by decide) others
      have shape : (Text.joinWith " " ((token :: next :: tokens).map Token.text)).toList =
          token.text.toList ++ ' ' :: (Text.joinWith " " ((next :: tokens).map Token.text)).toList := by
        simp [Text.joinWith]
      rw [shape]
      exact joined

end Token

theorem Scans.isCut {cs : List Char} {tokens : List Token} (h : Scans cs tokens) :
    ∀ token ∈ tokens, token.IsCut := by
  induction h with
  | nil => simp
  | blank _ _ ih => exact ih
  | token _ next _ ih => exact List.forall_mem_cons.mpr ⟨Token.isCut_of_scanNext next, ih⟩

/-! ## Pieces of a line -/

/-- Scanning goes piece by piece. Two texts with a blank between them have the tokens of the first and
then those of the second. And the tokens of a text, if no double is among them, are the tokens of their
own texts with blanks between them. -/
theorem Token.scan_pieces :
    (∀ (a b : String) (s t : List Token) (w : Char), scan a.toList = .ok s → scan b.toList = .ok t →
      Text.isBlank w = true → scan (a ++ String.singleton w ++ b).toList = .ok (s ++ t)) ∧
    ∀ (a : String) (tokens : List Token), scan a.toList = .ok tokens → (∀ x, .double x ∉ tokens) →
      scan (Text.joinWith " " (tokens.map Token.text)).toList = .ok tokens := by
  refine ⟨fun a b s t w first second isBlank => ?_, fun a tokens h noDouble => ?_⟩
  · have pieces := (scan_eq_ok_iff.mp first).append isBlank (scan_eq_ok_iff.mp second)
    have shape : (a ++ String.singleton w ++ b).toList = a.toList ++ w :: b.toList := by simp
    rw [shape]
    exact scan_eq_ok_iff.mpr pieces
  · exact scan_eq_ok_iff.mpr (scans_joined (scan_eq_ok_iff.mp h).isCut noDouble)

/-- A string and a sum that goes on from it, scanned as one text, and again from the texts of the
tokens. -/
theorem Token.scan_pieces_sum :
    scan ("\"a b\"" ++ String.singleton ' ' ++ "+07").toList
        = .ok [.string "a b", .operator .add, .int 7] ∧
      scan (Text.joinWith " " ["\"a b\"", "+", "7"]).toList
        = .ok [.string "a b", .operator .add, .int 7] := by
  obtain ⟨pieces, again⟩ := Token.scan_pieces
  have whole := pieces "\"a b\"" "+07" [.string "a b"] [.operator .add, .int 7] ' ' (by decide +kernel)
    (by decide +kernel) rfl
  have texts : [.string "a b", .operator .add, .int 7].map Token.text = ["\"a b\"", "+", "7"] := by
    decide +kernel
  rw [← texts]
  exact ⟨whole, again _ _ whole (by simp)⟩

end LevelCheck.Expression
