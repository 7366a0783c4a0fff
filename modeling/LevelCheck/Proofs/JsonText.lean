import LevelCheck.Json.Print
import LevelCheck.Json.Read
import Mathlib.Tactic
set_option autoImplicit false

/-! # Reading what has been written

The text of a value reads back as the value, as long as its numbers are integers and its strings have
a text. Each reader takes what the writer has written of one part and leaves what follows, so the
statements are about a part in front of any further text. Only a number has to be told from what
follows it: in a written value that is a comma, a line break or nothing. -/

namespace LevelCheck

/-! ## Digits -/

namespace JsonNumber

theorem ofDigits_digitsOf (n : Nat) : ofDigits (digitsOf n) = n := by
  calc ofDigits (digitsOf n)
      = (Nat.toDigits 10 n).foldl (fun total c => 10 * total + (c.toNat - '0'.toNat)) 0 := by
        rw [ofDigits, digitsOf, List.foldl_map]
    _ = Nat.ofDigitChars 10 (Nat.toDigits 10 n) 0 := Nat.ofDigitChars_eq_foldl.symm
    _ = n := Nat.ofDigitChars_ten_toDigits

theorem isDigit_of_mem {n : Nat} {c : Char} (isIn : c ∈ Nat.toDigits 10 n) : c.isDigit :=
  Nat.isDigit_of_mem_toDigits (by decide) (by decide) isIn

/-- A number other than zero is written without a zero in front. -/
theorem head_toDigits {n : Nat} (pos : 0 < n) : (Nat.toDigits 10 n).head? ≠ some '0' := by
  induction n using Nat.strong_induction_on with
  | _ n ih =>
    rw [Nat.toDigits_eq_if (by decide)]
    split
    · simpa [Nat.digitChar_eq_zero] using pos.ne'
    · next large =>
      have shorter := ih (n / 10) (by omega) (by omega)
      rw [List.head?_append_of_ne_nil _ Nat.toDigits_ne_nil]
      exact shorter

theorem toInt_ofInt (i : Int) : (ofInt i).toInt? = some i := by
  have isInteger : (ofInt i).isInteger = true := rfl
  have digits : ofDigits (ofInt i).whole = i.natAbs := ofDigits_digitsOf i.natAbs
  rw [toInt?, if_pos isInteger, digits]
  by_cases negative : i < 0
  · have sign : (ofInt i).negative = true := decide_eq_true negative
    have size : i.natAbs = i.natAbs - 1 + 1 := by omega
    rw [sign, size]
    simp only [Option.some.injEq]
    omega
  · have sign : (ofInt i).negative = false := decide_eq_false negative
    rw [sign]
    simp only [Option.some.injEq]
    omega

end JsonNumber

namespace Json

theorem digitChar_digitValue {c : Char} (isDigit : c.isDigit) :
    digitChar (c.toNat - '0'.toNat) = c := by
  have least : '0'.toNat ≤ c.toNat := by
    simp only [Char.isDigit, Bool.and_eq_true, decide_eq_true_eq] at isDigit
    exact isDigit.1
  rw [digitChar, Nat.add_sub_cancel' least, Char.ofNat_toNat]

theorem digitsText_digitsOf (n : Nat) : digitsText (JsonNumber.digitsOf n) = Nat.toDigits 10 n := by
  rw [digitsText, JsonNumber.digitsOf, List.map_map]
  refine (List.map_congr_left fun c isIn => ?_).trans (List.map_id _)
  exact digitChar_digitValue (JsonNumber.isDigit_of_mem isIn)

/-! ## Numbers -/

/-- The text starts with what follows a value in a list or at its end, if it is not empty. -/
def Delimited (rest : List Char) : Prop := ∀ c ∈ rest.head?, c = ',' ∨ c = '\n'

theorem spanDigits_append (n : Nat) {rest : List Char} (delimited : Delimited rest) :
    spanDigits (Nat.toDigits 10 n ++ rest) = (JsonNumber.digitsOf n, rest) := by
  have digits : ∀ c ∈ Nat.toDigits 10 n, c.isDigit := fun _ => JsonNumber.isDigit_of_mem
  have stops : rest.takeWhile Char.isDigit = [] ∧ rest.dropWhile Char.isDigit = rest := by
    cases rest with
    | nil => exact ⟨rfl, rfl⟩
    | cons c more =>
      rcases delimited c rfl with rfl | rfl <;> exact ⟨rfl, rfl⟩
  rw [spanDigits, List.takeWhile_append_of_pos digits, List.dropWhile_append_of_pos digits, stops.1,
    stops.2, List.append_nil]
  rfl

theorem readWhole_append (n : Nat) {rest : List Char} (delimited : Delimited rest) :
    readWhole (Nat.toDigits 10 n ++ rest) = some (JsonNumber.digitsOf n, rest) := by
  rcases Nat.eq_zero_or_pos n with rfl | pos
  · rw [Nat.toDigits_zero]
    cases rest with
    | nil => rfl
    | cons c more => rcases delimited c rfl with rfl | rfl <;> rfl
  · have span := spanDigits_append n delimited
    have head := JsonNumber.head_toDigits pos
    have some : Nat.toDigits 10 n ≠ [] := Nat.toDigits_ne_nil
    rw [JsonNumber.digitsOf] at *
    generalize Nat.toDigits 10 n = digits at *
    cases digits with
    | nil => exact absurd rfl some
    | cons c more =>
      have notZero : c ≠ '0' := fun is => head (congrArg Option.some is)
      simp only [List.cons_append, List.map_cons] at span ⊢
      unfold readWhole
      split
      · next is => exact absurd (List.cons.inj is).1 notZero
      · rw [span]

theorem numberText_ofInt (i : Int) : numberText (.ofInt i)
    = (if i < 0 then ['-'] else []) ++ Nat.toDigits 10 i.natAbs := by
  simp [numberText, JsonNumber.ofInt, digitsText_digitsOf]

/-- A written integer starts with a sign or a digit. -/
theorem numberText_start (i : Int) : ∃ c more, numberText (.ofInt i) = c :: more
    ∧ (c = '-' ∧ i < 0 ∨ c.isDigit ∧ ¬ i < 0) := by
  rw [numberText_ofInt]
  by_cases negative : i < 0
  · exact ⟨'-', Nat.toDigits 10 i.natAbs, by rw [if_pos negative]; rfl, .inl ⟨rfl, negative⟩⟩
  · rw [if_neg negative, List.nil_append]
    cases digits : Nat.toDigits 10 i.natAbs with
    | nil => exact absurd digits Nat.toDigits_ne_nil
    | cons c more =>
      have isIn : c ∈ Nat.toDigits 10 i.natAbs := by rw [digits]; exact List.mem_cons_self
      exact ⟨c, more, rfl, .inr ⟨JsonNumber.isDigit_of_mem isIn, negative⟩⟩

theorem readNumber_append (i : Int) {rest : List Char} (delimited : Delimited rest) :
    readNumber (numberText (.ofInt i) ++ rest) = some (.ofInt i, rest) := by
  have whole := readWhole_append i.natAbs delimited
  -- neither a point nor an exponent follows
  have fraction : readFraction rest = some ([], rest) := by
    cases rest with
    | nil => rfl
    | cons c more => rcases delimited c rfl with rfl | rfl <;> rfl
  have exponent : readExponent rest = some (none, rest) := by
    cases rest with
    | nil => rfl
    | cons c more => rcases delimited c rfl with rfl | rfl <;> rfl
  by_cases negative : i < 0
  · rw [numberText_ofInt, if_pos negative, List.singleton_append, List.cons_append, readNumber]
    simp [negative, whole, fraction, exponent, JsonNumber.ofInt]
  · have unsigned : ∀ more, numberText (.ofInt i) ++ rest ≠ '-' :: more := by
      obtain ⟨c, others, text, ⟨-, isNegative⟩ | ⟨isDigit, -⟩⟩ := numberText_start i
      · exact absurd isNegative negative
      · rw [text]
        intro more is
        rw [(List.cons.inj is).1] at isDigit
        exact absurd isDigit (by decide)
    rw [readNumber]
    · rw [numberText_ofInt, if_neg negative, List.nil_append]
      simp [negative, whole, fraction, exponent, JsonNumber.ofInt]
    · exact unsigned

/-! ## Strings -/

/-- The piece of a string stands for the character: it is the character, or the number of a control
character. -/
def Piece.Writes (p : Piece) (c : Char) : Prop := p = .char c ∨ p = .unit c.toNat ∧ c.toNat < 0x20

theorem hexValue_hexChar : ∀ d < 16, hexValue? (hexChar d) = some d := by decide

/-- An escape of one letter is scanned as the character that it names. -/
theorem scanString_letter {e c : Char} (names : escaped? e = some c) (cs : List Char) :
    scanString ('\\' :: e :: cs)
      = (scanString cs).map fun found => (.char c :: found.1, found.2) := by
  have isLetter : e ≠ 'u' := by
    rintro rfl
    cases names
  rw [scanString, names]
  · simp only [Option.bind_eq_bind, Option.bind_some, Option.map_eq_bind, Function.comp_def]
  · intro _ _ _ _ _ is
    exact absurd is isLetter

theorem scanString_plain {c : Char} (notQuote : c ≠ '"') (notEscape : c ≠ '\\')
    (visible : ¬ c.toNat < 0x20) (cs : List Char) :
    scanString (c :: cs) = (scanString cs).map fun found => (.char c :: found.1, found.2) := by
  rw [scanString.eq_def]
  split <;> simp_all [Option.map_eq_bind]

theorem scanString_control {n : Nat} (control : n < 0x20) (cs : List Char) :
    scanString ('\\' :: 'u' :: '0' :: '0' :: hexChar (n / 16) :: hexChar (n % 16) :: cs)
      = (scanString cs).map fun found => (.unit n :: found.1, found.2) := by
  have zero : hexValue? '0' = some 0 := rfl
  have high := hexValue_hexChar (n / 16) (by omega)
  have low := hexValue_hexChar (n % 16) (by omega)
  have value : ((0 * 16 + 0) * 16 + n / 16) * 16 + n % 16 = n := by omega
  rw [scanString, zero, high, low]
  simp only [Option.bind_eq_bind, Option.bind_some, value, Option.map_eq_bind, Function.comp_def]

/-- Every character is written as one piece. -/
theorem scanString_escapeChar (c : Char) (cs : List Char) : ∃ p : Piece, p.Writes c
    ∧ scanString (escapeChar c ++ cs) = (scanString cs).map fun found => (p :: found.1, found.2) := by
  have letter {e : Char} (names : escaped? e = some c) : ∃ p : Piece, p.Writes c
      ∧ scanString (['\\', e] ++ cs) = (scanString cs).map fun found => (p :: found.1, found.2) :=
    ⟨.char c, .inl rfl, scanString_letter names cs⟩
  unfold escapeChar
  split_ifs with quote escape is is is is is control
  · exact letter (by rw [beq_iff_eq.1 quote]; rfl)
  · exact letter (by rw [beq_iff_eq.1 escape]; rfl)
  iterate 5 exact letter (by rw [beq_iff_eq.1 is]; rfl)
  · exact ⟨.unit c.toNat, .inr ⟨rfl, control⟩, scanString_control control cs⟩
  · exact ⟨.char c, .inl rfl, scanString_plain (fun is => quote (beq_iff_eq.2 is))
      (fun is => escape (beq_iff_eq.2 is)) control cs⟩

theorem scanString_append (text rest : List Char) : ∃ pieces,
    List.Forall₂ Piece.Writes pieces text
      ∧ scanString (text.flatMap escapeChar ++ '"' :: rest) = some (pieces, rest) := by
  induction text with
  | nil => exact ⟨[], .nil, rfl⟩
  | cons c text ih =>
    obtain ⟨pieces, writes, scanned⟩ := ih
    obtain ⟨p, first, scan⟩ := scanString_escapeChar c (text.flatMap escapeChar ++ '"' :: rest)
    refine ⟨p :: pieces, .cons first writes, ?_⟩
    rw [List.flatMap_cons, List.append_assoc, scan, scanned]
    rfl

/-- No control character is half of a surrogate pair. -/
theorem joinPieces_of_writes {pieces : List Piece} {text : List Char}
    (writes : List.Forall₂ Piece.Writes pieces text) : joinPieces pieces = some text := by
  induction writes with
  | nil => rfl
  | @cons p c pieces text first rest ih =>
    rcases first with rfl | ⟨rfl, control⟩
    · rw [joinPieces, ih]
      rfl
    · have notHigh : isHighUnit c.toNat = false := by
        simp [isHighUnit]
        omega
      have notLow : isLowUnit c.toNat = false := by
        simp [isLowUnit]
        omega
      -- whether another unit follows does not matter
      have alone : joinPieces (.unit c.toNat :: pieces)
          = (joinPieces pieces).map (Char.ofNat c.toNat :: ·) := by
        match pieces with
        | [] => simp [joinPieces, notHigh, notLow]
        | .char d :: more => simp [joinPieces, notHigh, notLow]
        | .unit m :: more => simp only [joinPieces, notHigh, notLow]; rfl
      rw [alone, ih, Option.map_some, Char.ofNat_toNat]

theorem readString_append (s : String) (rest : List Char) :
    readString (s.toList.flatMap escapeChar ++ '"' :: rest) = some (some s, rest) := by
  obtain ⟨pieces, writes, scanned⟩ := scanString_append s.toList rest
  rw [readString, scanned]
  simp [joinPieces_of_writes writes]

/-! ## Blanks -/

/-- A written value starts with this character: no blank, and nothing that closes a list. -/
def IsStart (c : Char) : Prop := isGap c = false ∧ c ≠ ']' ∧ c ≠ '\x7d'

instance (c : Char) : Decidable (IsStart c) := by unfold IsStart; infer_instance

theorem skipGap_start {c : Char} (isStart : isGap c = false) (cs : List Char) :
    skipGap (c :: cs) = c :: cs := by
  rw [skipGap, List.dropWhile_cons, isStart]
  rfl

theorem skipGap_newLine (depth : Nat) (cs : List Char) :
    skipGap (newLine depth ++ cs) = skipGap cs := by
  have gaps : ∀ c ∈ newLine depth, isGap c := by
    intro c isIn
    rcases List.mem_cons.1 isIn with rfl | blank
    · rfl
    · rw [List.eq_of_mem_replicate blank]
      rfl
  exact List.dropWhile_append_of_pos gaps

/-- A reader passes over the blanks in front. -/
theorem readValue_congr {cs cs' : List Char} (same : skipGap cs = skipGap cs') (fuel : Nat) :
    readValue fuel cs = readValue fuel cs' := by
  cases fuel with
  | zero => rfl
  | succ fuel => rw [readValue, readValue, same]

theorem readItems_congr {cs cs' : List Char} (same : skipGap cs = skipGap cs') (fuel : Nat) :
    readItems fuel cs = readItems fuel cs' := by
  cases fuel with
  | zero => rfl
  | succ fuel => rw [readItems, readItems, readValue_congr same]

theorem readMembers_congr {cs cs' : List Char} (same : skipGap cs = skipGap cs') (fuel : Nat) :
    readMembers fuel cs = readMembers fuel cs' := by
  cases fuel with
  | zero => rfl
  | succ fuel => rw [readMembers, readMembers, same]

/-! ## Values -/

/-- Every number of the value is an integer, and every string has a text. -/
inductive Plain : Json → Prop where
  | null : Plain .null
  | bool (b : Bool) : Plain (.bool b)
  | int (i : Int) : Plain (.ofInt i)
  | string (s : String) : Plain (.string s)
  | array {items : List Json} (arePlain : ∀ item ∈ items, Plain item) : Plain (.array items)
  | object {members : List (String × Json)} (arePlain : ∀ m ∈ members, Plain m.2) :
      Plain (.object members)

theorem isStart_of_isDigit {c : Char} (isDigit : c.isDigit) : IsStart c := by
  have other {d : Char} (notDigit : d.isDigit = false) : c ≠ d := by
    rintro rfl
    rw [notDigit] at isDigit
    cases isDigit
  refine ⟨?_, other rfl, other rfl⟩
  simp [isGap, other (d := ' ') rfl, other (d := '\n') rfl, other (d := '\t') rfl,
    other (d := '\r') rfl]

theorem Plain.starts {j : Json} (plain : Plain j) (depth : Nat) :
    ∃ c more, indentedText depth j = c :: more ∧ IsStart c := by
  cases plain with
  | null => exact ⟨'n', "ull".toList, by rw [indentedText]; rfl, by decide⟩
  | bool b =>
    cases b
    · exact ⟨'f', "alse".toList, by rw [indentedText]; rfl, by decide⟩
    · exact ⟨'t', "rue".toList, by rw [indentedText]; rfl, by decide⟩
  | int i =>
    obtain ⟨c, more, text, ⟨rfl, -⟩ | ⟨isDigit, -⟩⟩ := numberText_start i
    · exact ⟨'-', more, by rw [ofInt, indentedText, text], by decide⟩
    · exact ⟨c, more, by rw [ofInt, indentedText, text], isStart_of_isDigit isDigit⟩
  | string s => exact ⟨'"', _, by rw [indentedText, stringText], by decide⟩
  | @array items =>
    cases items with
    | nil => exact ⟨'[', _, by rw [indentedText], by decide⟩
    | cons item rest => exact ⟨'[', _, by rw [indentedText], by decide⟩
  | @object members =>
    cases members with
    | nil => exact ⟨'\x7b', _, by rw [indentedText], by decide⟩
    | cons m rest => exact ⟨'\x7b', _, by rw [indentedText], by decide⟩

/-- Written at a depth in front of what ends a value, the value reads back, given two steps of fuel
for each of its characters. -/
def ReadsBack (j : Json) : Prop := ∀ depth fuel rest, Delimited rest →
  2 * (indentedText depth j).length ≤ fuel →
  readValue fuel (indentedText depth j ++ rest) = some (j, rest)

theorem delimited_newLine (depth : Nat) (cs : List Char) : Delimited (newLine depth ++ cs) :=
  fun _ is => .inr (Option.some.inj is).symm

theorem delimited_comma (cs : List Char) : Delimited (',' :: cs) :=
  fun _ is => .inl (Option.some.inj is).symm

theorem readValue_int (i : Int) (fuel : Nat) {rest : List Char} (delimited : Delimited rest) :
    readValue (fuel + 1) (numberText (.ofInt i) ++ rest) = some (.ofInt i, rest) := by
  have read := readNumber_append i delimited
  obtain ⟨c, more, text, start⟩ := numberText_start i
  have other {d : Char} (notDigit : d.isDigit = false) (unsigned : d ≠ '-') : c ≠ d := by
    rintro rfl
    rcases start with ⟨rfl, -⟩ | ⟨isDigit, -⟩
    · exact unsigned rfl
    · rw [notDigit] at isDigit
      cases isDigit
  have isStart : isGap c = false := by
    rcases start with ⟨rfl, -⟩ | ⟨isDigit, -⟩
    · rfl
    · exact (isStart_of_isDigit isDigit).1
  rw [text, List.cons_append] at read ⊢
  rw [readValue, skipGap_start isStart]
  -- no other value starts with a sign or a digit
  split
  iterate 6
    · next is => exact absurd (List.cons.inj is).1 (other rfl (by decide))
  · rw [read]
    rfl

theorem readItems_append {depth : Nat} (outer : Nat) {item : Json} {items : List Json}
    (first : ReadsBack item) (others : ∀ other ∈ items, ReadsBack other) {fuel : Nat}
    (enough : 2 * (indentedText depth item ++ indentedItems depth items).length < fuel)
    (rest : List Char) :
    readItems fuel (indentedText depth item
        ++ (indentedItems depth items ++ (newLine outer ++ ']' :: rest)))
      = some (item :: items, rest) := by
  induction items generalizing item fuel with
  | nil =>
    obtain ⟨fuel, rfl⟩ := Nat.exists_eq_succ_of_ne_zero (Nat.ne_zero_of_lt enough)
    rw [indentedItems, List.append_nil] at enough
    have read := first depth fuel _ (delimited_newLine outer (']' :: rest)) (by omega)
    have closes : skipGap (newLine outer ++ ']' :: rest) = ']' :: rest :=
      (skipGap_newLine _ _).trans (skipGap_start rfl _)
    rw [readItems, indentedItems, List.nil_append, read]
    simp only [Option.bind_eq_bind, Option.bind_some, closes]
  | cons next items ih =>
    obtain ⟨fuel, rfl⟩ := Nat.exists_eq_succ_of_ne_zero (Nat.ne_zero_of_lt enough)
    rw [indentedItems] at enough ⊢
    simp only [List.length_append, List.length_cons] at enough
    simp only [List.cons_append, List.append_assoc]
    have read := first depth fuel _ (delimited_comma (newLine depth ++ (indentedText depth next
      ++ (indentedItems depth items ++ (newLine outer ++ ']' :: rest))))) (by omega)
    have enoughLeft :
        2 * (indentedText depth next ++ indentedItems depth items).length < fuel := by
      rw [List.length_append]
      omega
    have continues := ih (others next List.mem_cons_self)
      (fun other isIn => others other (List.mem_cons_of_mem _ isIn)) enoughLeft
    rw [readItems, read]
    simp only [Option.bind_eq_bind, Option.bind_some, skipGap_start (c := ',') rfl]
    rw [readItems_congr (skipGap_newLine depth _), continues]
    rfl

/-- A member as it is written, in front of what follows its value. -/
theorem readMember_append (depth : Nat) (name : String) {fuel : Nat} {value : Json}
    (reads : ReadsBack value) (enough : 2 * (indentedText depth value).length ≤ fuel)
    {rest : List Char} (delimited : Delimited rest) :
    readMembers (fuel + 1) (stringText name ++ ([':', ' '] ++ (indentedText depth value ++ rest)))
      = match skipGap rest with
        | ',' :: more => (readMembers fuel more).map fun found =>
            ((some name, value) :: found.1, found.2)
        | '\x7d' :: more => some ([(some name, value)], more)
        | _ => none := by
  have spaced : skipGap (' ' :: (indentedText depth value ++ rest))
      = skipGap (indentedText depth value ++ rest) := rfl
  have read := (readValue_congr spaced fuel).trans (reads depth fuel rest delimited enough)
  have string := readString_append name (':' :: ' ' :: (indentedText depth value ++ rest))
  have text : stringText name ++ ([':', ' '] ++ (indentedText depth value ++ rest))
      = '"' :: (name.toList.flatMap escapeChar ++ '"' :: ':' :: ' '
        :: (indentedText depth value ++ rest)) := by
    simp [stringText]
  rw [text, readMembers, skipGap_start (c := '"') rfl]
  simp only [string, Option.bind_eq_bind, Option.bind_some, skipGap_start (c := ':') rfl, read]
  split <;> simp_all [Option.map_eq_bind]

theorem readMembers_append {depth : Nat} (outer : Nat) {name : String} {value : Json}
    {members : List (String × Json)} (first : ReadsBack value)
    (others : ∀ m ∈ members, ReadsBack m.2) {fuel : Nat}
    (enough : 2 * (stringText name ++ [':', ' '] ++ indentedText depth value
      ++ indentedMembers depth members).length < fuel)
    (rest : List Char) :
    readMembers fuel (stringText name ++ ([':', ' '] ++ (indentedText depth value
        ++ (indentedMembers depth members ++ (newLine outer ++ '\x7d' :: rest)))))
      = some (((name, value) :: members).map fun m => (some m.1, m.2), rest) := by
  induction members generalizing name value fuel with
  | nil =>
    obtain ⟨fuel, rfl⟩ := Nat.exists_eq_succ_of_ne_zero (Nat.ne_zero_of_lt enough)
    simp only [List.length_append] at enough
    have closes : skipGap (newLine outer ++ '\x7d' :: rest) = '\x7d' :: rest :=
      (skipGap_newLine _ _).trans (skipGap_start rfl _)
    rw [indentedMembers, List.nil_append,
      readMember_append depth name first (by omega) (delimited_newLine outer ('\x7d' :: rest)),
      closes]
    rfl
  | cons m members ih =>
    obtain ⟨fuel, rfl⟩ := Nat.exists_eq_succ_of_ne_zero (Nat.ne_zero_of_lt enough)
    obtain ⟨nextName, next⟩ := m
    rw [indentedMembers] at enough ⊢
    simp only [List.length_append, List.length_cons] at enough
    have enoughLeft : 2 * (stringText nextName ++ [':', ' '] ++ indentedText depth next
        ++ indentedMembers depth members).length < fuel := by
      simp only [List.length_append, List.length_cons]
      omega
    have continues := ih (others _ List.mem_cons_self)
      (fun other isIn => others other (List.mem_cons_of_mem _ isIn)) enoughLeft
    have comma : ',' :: (newLine depth ++ stringText nextName ++ [':', ' ']
          ++ indentedText depth next ++ indentedMembers depth members)
          ++ (newLine outer ++ '\x7d' :: rest)
        = ',' :: (newLine depth ++ (stringText nextName ++ ([':', ' '] ++ (indentedText depth next
          ++ (indentedMembers depth members ++ (newLine outer ++ '\x7d' :: rest)))))) := by
      simp only [List.cons_append, List.append_assoc]
    rw [comma, readMember_append depth name first (by omega) (delimited_comma _),
      skipGap_start (c := ',') rfl]
    simp only [readMembers_congr (skipGap_newLine depth _), continues]
    rfl

/-- What an opening bracket is followed by, when something stands in the list. -/
theorem skipGap_opened {j : Json} (plain : Plain j) (depth : Nat) (rest : List Char) :
    ∃ c more, skipGap (newLine depth ++ (indentedText depth j ++ rest)) = c :: more
      ∧ indentedText depth j ++ rest = c :: more ∧ c ≠ ']' := by
  obtain ⟨c, more, text, isStart, notClosing, -⟩ := plain.starts depth
  refine ⟨c, more ++ rest, ?_, by rw [text, List.cons_append], notClosing⟩
  rw [skipGap_newLine, text, List.cons_append, skipGap_start isStart]

theorem readsBack_array {items : List Json} (plain : ∀ item ∈ items, Plain item)
    (read : ∀ item ∈ items, ReadsBack item) : ReadsBack (.array items) := by
  intro depth fuel rest delimited enough
  cases items with
  | nil =>
    rw [indentedText] at enough ⊢
    obtain ⟨fuel, rfl⟩ := Nat.exists_eq_add_of_le' (Nat.le_trans (by decide : 1 ≤ 2 * 2) enough)
    rfl
  | cons item items =>
    rw [indentedText] at enough ⊢
    simp only [List.length_cons, List.length_append] at enough
    obtain ⟨fuel, rfl⟩ := Nat.exists_eq_succ_of_ne_zero (show fuel ≠ 0 by omega)
    have enoughInside : 2 * (indentedText (depth + 1) item
        ++ indentedItems (depth + 1) items).length < fuel := by
      rw [List.length_append]
      omega
    have inside := readItems_append depth (read item List.mem_cons_self)
      (fun other isIn => read other (List.mem_cons_of_mem _ isIn)) enoughInside rest
    obtain ⟨c, more, opened, text, notClosing⟩ := skipGap_opened (plain item List.mem_cons_self)
      (depth + 1) (indentedItems (depth + 1) items ++ (newLine depth ++ ']' :: rest))
    rw [text] at inside
    have layout : '[' :: (newLine (depth + 1) ++ indentedText (depth + 1) item
          ++ indentedItems (depth + 1) items ++ newLine depth ++ [']']) ++ rest
        = '[' :: (newLine (depth + 1) ++ (indentedText (depth + 1) item
          ++ (indentedItems (depth + 1) items ++ (newLine depth ++ ']' :: rest)))) := by
      simp
    rw [layout, readValue, skipGap_start (c := '[') rfl]
    simp only [opened]
    split
    · next is => exact absurd (List.cons.inj is).1 notClosing
    · rw [inside]
      rfl

theorem ofMembers_named (members : List (String × Json)) :
    ofMembers (members.map fun m => (some m.1, m.2)) = .object members := by
  simp [ofMembers, Function.comp_def]

theorem readsBack_object {members : List (String × Json)} (read : ∀ m ∈ members, ReadsBack m.2) :
    ReadsBack (.object members) := by
  intro depth fuel rest delimited enough
  cases members with
  | nil =>
    rw [indentedText] at enough ⊢
    obtain ⟨fuel, rfl⟩ := Nat.exists_eq_add_of_le' (Nat.le_trans (by decide : 1 ≤ 2 * 2) enough)
    rfl
  | cons m members =>
    obtain ⟨name, value⟩ := m
    rw [indentedText] at enough ⊢
    simp only [List.length_cons, List.length_append] at enough
    obtain ⟨fuel, rfl⟩ := Nat.exists_eq_succ_of_ne_zero (show fuel ≠ 0 by omega)
    have enoughInside : 2 * (stringText name ++ [':', ' '] ++ indentedText (depth + 1) value
        ++ indentedMembers (depth + 1) members).length < fuel := by
      simp only [List.length_append, List.length_cons]
      omega
    have inside := readMembers_append depth (read _ List.mem_cons_self)
      (fun other isIn => read other (List.mem_cons_of_mem _ isIn)) enoughInside rest
    have layout : '\x7b' :: (newLine (depth + 1) ++ stringText name ++ [':', ' ']
          ++ indentedText (depth + 1) value ++ indentedMembers (depth + 1) members
          ++ newLine depth ++ ['\x7d']) ++ rest
        = '\x7b' :: (newLine (depth + 1) ++ (stringText name ++ ([':', ' ']
          ++ (indentedText (depth + 1) value ++ (indentedMembers (depth + 1) members
          ++ (newLine depth ++ '\x7d' :: rest)))))) := by
      simp
    have opened (cs : List Char) :
        skipGap (newLine (depth + 1) ++ (stringText name ++ cs)) = stringText name ++ cs := by
      rw [skipGap_newLine, stringText, List.cons_append, skipGap_start rfl]
    rw [layout, readValue, skipGap_start (c := '\x7b') rfl]
    simp only [opened]
    split
    · next is => exact absurd (List.cons.inj is).1 (by decide)
    · rw [inside, ← ofMembers_named]
      rfl

theorem readsBack_word {j : Json} (c : Char) (word : String)
    (text : ∀ depth, indentedText depth j = c :: word.toList)
    (reads : ∀ fuel rest, readValue (fuel + 1) (c :: (word.toList ++ rest)) = some (j, rest)) :
    ReadsBack j := by
  intro depth fuel rest _ enough
  rw [text, List.length_cons] at enough
  obtain ⟨fuel, rfl⟩ := Nat.exists_eq_succ_of_ne_zero (show fuel ≠ 0 by omega)
  rw [text, List.cons_append, reads]

/-- Every value whose numbers are integers and whose strings have a text reads back. -/
theorem Plain.readsBack {j : Json} (plain : Plain j) : ReadsBack j := by
  induction plain with
  | null => exact readsBack_word 'n' "ull" (fun _ => by rw [indentedText]; rfl) fun _ _ => rfl
  | bool b =>
    cases b with
    | false => exact readsBack_word 'f' "alse" (fun _ => by rw [indentedText]; rfl) fun _ _ => rfl
    | true => exact readsBack_word 't' "rue" (fun _ => by rw [indentedText]; rfl) fun _ _ => rfl
  | int i =>
    intro depth fuel rest delimited enough
    rw [ofInt, indentedText] at enough ⊢
    obtain ⟨c, more, text, -⟩ := numberText_start i
    rw [text, List.length_cons] at enough
    obtain ⟨fuel, rfl⟩ := Nat.exists_eq_succ_of_ne_zero (show fuel ≠ 0 by omega)
    exact readValue_int i fuel delimited
  | string s =>
    intro depth fuel rest _ enough
    rw [indentedText, stringText] at enough ⊢
    rw [List.length_cons] at enough
    obtain ⟨fuel, rfl⟩ := Nat.exists_eq_succ_of_ne_zero (show fuel ≠ 0 by omega)
    rw [List.cons_append, List.append_assoc, readValue, skipGap_start (c := '"') rfl]
    simp only [List.singleton_append, readString_append, Option.bind_eq_bind, Option.bind_some]
  | array plain read => exact readsBack_array plain read
  | object plain read => exact readsBack_object read

/-- What is written at the top level reads back. -/
theorem read_pretty {j : Json} (plain : Plain j) : read? j.pretty = some j := by
  have reads := plain.readsBack 0 (2 * (indentedText 0 j).length + 2) []
    (fun _ is => nomatch is) (Nat.le_add_right _ _)
  rw [List.append_nil] at reads
  rw [read?, pretty, String.toList_ofList]
  simp only [reads, Option.bind_eq_bind, Option.bind_some]
  rfl

end Json

end LevelCheck
