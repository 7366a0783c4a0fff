import LevelCheck.Diagnostic
import Mathlib
set_option autoImplicit false

/-! # What a message says

The placeholders of a template are filled in one argument after the other, so an argument is searched
for the placeholders of those after it. Where that finds nothing the message is the template with all
placeholders filled in at once. In the templates of the checker each placeholder stands apart from
other braces, and there the message is the template filled in at once with arguments in which later
placeholders have been filled in themselves. -/

namespace LevelCheck

/-! ## Placeholders -/

/-- The characters of a placeholder. -/
def hole (i : Nat) : List Char := '\x7b' :: ((toString i).toList ++ ['\x7d'])

theorem placeholder_toList (i : Nat) : ("\x7b" ++ toString i ++ "\x7d").toList = hole i := by
  simp [hole]

theorem hole_append (i : Nat) (rest : List Char) :
    hole i ++ rest = '\x7b' :: (((toString i).toList ++ ['\x7d']) ++ rest) := rfl

theorem length_hole (i : Nat) :
    (hole i).length - 1 = ((toString i).toList ++ ['\x7d']).length := rfl

theorem isDigit_of_mem_toString {i : Nat} {c : Char} (isIn : c ∈ (toString i).toList) :
    c.isDigit = true := by
  have digits : (toString i).toList = Nat.toDigits 10 i := by
    rw [show toString i = i.repr from rfl, Nat.repr_eq_ofList_toDigits, String.toList_ofList]
  exact Nat.isDigit_of_mem_toDigits (by decide) (by decide) (digits ▸ isIn)

/-- The number of a placeholder is read back, whatever follows it. -/
theorem placeholder?_hole (i : Nat) (rest : List Char) :
    placeholder? (hole i ++ rest) = some (i, (hole i).length) := by
  have digits : ∀ c ∈ (toString i).toList, c.isDigit = true := fun c => isDigit_of_mem_toString
  have closes : ('\x7d' : Char).isDigit = false := by decide
  have split : hole i ++ rest = '\x7b' :: ((toString i).toList ++ '\x7d' :: rest) := by simp [hole]
  have number : (String.ofList (toString i).toList).toNat? = some i := by
    rw [String.ofList_toList]
    exact Nat.toNat?_repr i
  rw [split, placeholder?]
  simp only [List.takeWhile_append_of_pos digits, List.dropWhile_append_of_pos digits, List.takeWhile_cons,
    List.dropWhile_cons, closes, Bool.false_eq_true, if_false, List.append_nil, number, if_true]
  simp [hole]

theorem placeholder?_of_ne {c : Char} (rest : List Char) (other : c ≠ '\x7b') :
    placeholder? (c :: rest) = none := by
  rw [placeholder?]
  simpa using other

/-- What is read as a placeholder is one. -/
theorem placeholder?_some {text : List Char} {i width : Nat}
    (read : placeholder? text = some (i, width)) :
    ∃ rest, text = hole i ++ rest ∧ width = (hole i).length := by
  cases text with
  | nil => cases read
  | cons c rest =>
    by_cases opens : c = '\x7b'
    · subst opens
      have whole := List.takeWhile_append_dropWhile (p := Char.isDigit) (l := rest)
      rw [placeholder?] at read
      split at read
      · next more closes =>
        split at read
        · split at read
          · next same =>
            cases read
            refine ⟨more, ?_, by rw [hole, ← same]; simp⟩
            rw [← whole, closes, ← same, hole]
            simp
          · cases read
        · cases read
      · cases read
    · rw [placeholder?_of_ne rest opens] at read
      cases read

theorem hole_prefix_iff {i : Nat} {text : List Char} :
    hole i <+: text ↔ placeholder? text = some (i, (hole i).length) := by
  constructor
  · rintro ⟨rest, rfl⟩
    exact placeholder?_hole i rest
  · intro read
    obtain ⟨rest, rfl, -⟩ := placeholder?_some read
    exact List.prefix_append _ _

/-- Induction on a text that is read as placeholders and the characters between them. -/
theorem text_induction {P : List Char → Prop} (nil : P [])
    (placeholder : ∀ i rest, P rest → P (hole i ++ rest))
    (plain : ∀ c rest, placeholder? (c :: rest) = none → P rest → P (c :: rest)) (text : List Char) :
    P text := by
  induction length : text.length using Nat.strongRecOn generalizing text with
  | ind size ih =>
    subst length
    cases text with
    | nil => exact nil
    | cons c rest =>
      cases read : placeholder? (c :: rest) with
      | none => exact plain c rest read (ih _ (by simp) rest rfl)
      | some found =>
        obtain ⟨more, is, -⟩ := placeholder?_some read
        rw [is] at ih ⊢
        exact placeholder found.1 more (ih _ (by simp [hole]; omega) more rfl)

/-- Whether a placeholder starts at a brace depends on the digits after it and on what follows them. -/
theorem placeholder?_congr {rest rest' : List Char}
    (digits : rest.takeWhile Char.isDigit = rest'.takeWhile Char.isDigit)
    (next : (rest.dropWhile Char.isDigit).head? = (rest'.dropWhile Char.isDigit).head?) :
    placeholder? ('\x7b' :: rest) = placeholder? ('\x7b' :: rest') := by
  rw [placeholder?, placeholder?, digits]
  cases after : rest.dropWhile Char.isDigit with
  | nil =>
    rw [after, List.head?_nil] at next
    rw [List.head?_eq_none_iff.1 next.symm]
  | cons c more =>
    rw [after, List.head?_cons] at next
    obtain ⟨more', after'⟩ := List.head?_eq_some_iff.1 next.symm
    rw [after']
    by_cases closes : c = '\x7d'
    · subst closes
      rfl
    · simp [closes]

/-! ## Filling in at once -/

/-- What stands for a placeholder in a message: its argument, or the placeholder if it has none. -/
def filling (args : List String) (i : Nat) : List Char := (args[i]?.map String.toList).getD (hole i)

section

variable (args : List String)

theorem fillAtOnce_skip (skip : Nat) (text : List Char) :
    fillAtOnce args skip text = fillAtOnce args 0 (text.drop skip) := by
  induction text generalizing skip with
  | nil => cases skip <;> rfl
  | cons c rest ih =>
    cases skip with
    | zero => rfl
    | succ skip => exact ih skip

variable {args}

theorem fillAtOnce_cons {c : Char} {rest : List Char} (none : placeholder? (c :: rest) = none) :
    fillAtOnce args 0 (c :: rest) = c :: fillAtOnce args 0 rest := by
  rw [fillAtOnce, none]

theorem fillAtOnce_append {text : List Char} (noBrace : '\x7b' ∉ text) (rest : List Char) :
    fillAtOnce args 0 (text ++ rest) = text ++ fillAtOnce args 0 rest := by
  induction text with
  | nil => rfl
  | cons c text ih =>
    obtain ⟨other, noBrace⟩ := not_or.1 (List.mem_cons.not.1 noBrace)
    rw [List.cons_append, fillAtOnce_cons (placeholder?_of_ne _ (Ne.symm other)), ih noBrace,
      List.cons_append]

theorem noBrace_tail_hole {i : Nat} : '\x7b' ∉ (toString i).toList ++ ['\x7d'] := by
  intro isIn
  rcases List.mem_append.1 isIn with digit | closes
  · exact absurd (isDigit_of_mem_toString digit) (by decide)
  · exact absurd (List.mem_singleton.1 closes) (by decide)

theorem fillAtOnce_hole (i : Nat) (rest : List Char) :
    fillAtOnce args 0 (hole i ++ rest) = filling args i ++ fillAtOnce args 0 rest := by
  have read := placeholder?_hole i rest
  rw [hole_append] at read ⊢
  rw [fillAtOnce, read, filling]
  simp only [length_hole, fillAtOnce_skip args (List.length _), List.drop_left]
  cases args[i]? with
  | some arg => rfl
  | none => rw [fillAtOnce_append noBrace_tail_hole]; rfl

end

/-! ## Replacing one placeholder -/

section

variable {n : Nat} {arg : List Char}

theorem replaceFrom_skip (pattern replacement : List Char) (skip : Nat) (text : List Char) :
    Text.replaceFrom pattern replacement skip text
      = Text.replaceFrom pattern replacement 0 (text.drop skip) := by
  induction text generalizing skip with
  | nil => cases skip <;> rfl
  | cons c rest ih =>
    cases skip with
    | zero => rfl
    | succ skip => exact ih skip

theorem replaceFrom_none {pattern : List Char} {c : Char} {rest : List Char}
    (starts : ¬ pattern <+: c :: rest) :
    Text.replaceFrom pattern arg 0 (c :: rest) = c :: Text.replaceFrom pattern arg 0 rest := by
  rw [Text.replaceFrom, if_neg (List.isPrefixOf_iff_prefix.not.2 starts)]

theorem replaceFrom_some {pattern : List Char} {c : Char} {rest : List Char}
    (starts : pattern <+: c :: rest) :
    Text.replaceFrom pattern arg 0 (c :: rest)
      = arg ++ Text.replaceFrom pattern arg (pattern.length - 1) rest := by
  rw [Text.replaceFrom, if_pos (List.isPrefixOf_iff_prefix.2 starts)]

theorem replaceFrom_cons {c : Char} {rest : List Char}
    (other : placeholder? (c :: rest) ≠ some (n, (hole n).length)) :
    Text.replaceFrom (hole n) arg 0 (c :: rest) = c :: Text.replaceFrom (hole n) arg 0 rest :=
  replaceFrom_none (hole_prefix_iff.not.2 other)

theorem replaceFrom_append {text : List Char} (noBrace : '\x7b' ∉ text) (rest : List Char) :
    Text.replaceFrom (hole n) arg 0 (text ++ rest) = text ++ Text.replaceFrom (hole n) arg 0 rest := by
  induction text with
  | nil => rfl
  | cons c text ih =>
    obtain ⟨other, noBrace⟩ := not_or.1 (List.mem_cons.not.1 noBrace)
    have none := placeholder?_of_ne (text ++ rest) (Ne.symm other)
    rw [List.cons_append, replaceFrom_cons (by rw [none]; exact nofun), ih noBrace, List.cons_append]

theorem replaceFrom_hole (rest : List Char) :
    Text.replaceFrom (hole n) arg 0 (hole n ++ rest)
      = arg ++ Text.replaceFrom (hole n) arg 0 rest := by
  have starts : hole n <+: '\x7b' :: (((toString n).toList ++ ['\x7d']) ++ rest) :=
    List.prefix_append (hole n) rest
  rw [hole_append, replaceFrom_some starts, replaceFrom_skip, length_hole, List.drop_left]

theorem replaceFrom_other_hole {i : Nat} (other : i ≠ n) (rest : List Char) :
    Text.replaceFrom (hole n) arg 0 (hole i ++ rest)
      = hole i ++ Text.replaceFrom (hole n) arg 0 rest := by
  have read := placeholder?_hole i rest
  rw [hole_append] at read ⊢
  rw [replaceFrom_cons (by rw [read]; simp [other]), replaceFrom_append noBrace_tail_hole]
  rfl

/-- A pattern that starts before a character it does not hold ends before it. -/
theorem prefix_before {pattern text after : List Char} {s : Char} (apart : s ∉ pattern) :
    pattern <+: text ++ s :: after ↔ pattern <+: text := by
  refine ⟨fun starts => ?_, fun starts => starts.trans (List.prefix_append _ _)⟩
  have upTo : text ++ [s] <+: text ++ s :: after := ⟨after, by simp⟩
  have isLast : s ∈ text ++ [s] := List.mem_append_right _ List.mem_cons_self
  rcases List.prefix_or_prefix_of_prefix starts upTo with within | beyond
  · rcases List.prefix_concat_iff.1 within with whole | within
    · exact absurd (whole ▸ isLast) apart
    · exact within
  · exact absurd (beyond.subset isLast) apart

/-- A character that is not in the pattern keeps what is before it apart from what is after it. -/
theorem replaceFrom_apart {pattern : List Char} {s : Char} (nonempty : pattern ≠ [])
    (apart : s ∉ pattern) (after : List Char) {skip : Nat} {text : List Char}
    (within : skip ≤ text.length) :
    Text.replaceFrom pattern arg skip (text ++ s :: after)
      = Text.replaceFrom pattern arg skip text ++ s :: Text.replaceFrom pattern arg 0 after := by
  induction text generalizing skip with
  | nil =>
    obtain rfl : skip = 0 := Nat.le_zero.1 within
    have starts : ¬ pattern <+: [] ++ s :: after := by
      rwa [prefix_before apart, List.prefix_nil]
    exact replaceFrom_none starts
  | cons c text ih =>
    cases skip with
    | succ skip => exact ih (Nat.le_of_succ_le_succ within)
    | zero =>
      have same : pattern <+: c :: (text ++ s :: after) ↔ pattern <+: c :: text := by
        rw [← List.cons_append, prefix_before apart]
      by_cases starts : pattern <+: c :: text
      · have width : pattern.length - 1 ≤ text.length := by
          have := starts.length_le
          rw [List.length_cons] at this
          omega
        rw [List.cons_append, replaceFrom_some (same.2 starts), replaceFrom_some starts, ih width,
          List.append_assoc]
      · rw [List.cons_append, replaceFrom_none (same.not.2 starts), replaceFrom_none starts,
          ih (Nat.zero_le _), List.cons_append]

end

/-! ## One argument after the other -/

theorem formatFrom_concat (text : String) (i : Nat) (args : List String) (arg : String) :
    formatFrom text i (args ++ [arg])
      = Text.replace ("\x7b" ++ toString (i + args.length) ++ "\x7d") arg (formatFrom text i args) := by
  induction args generalizing text i with
  | nil => rfl
  | cons first rest ih =>
    rw [List.cons_append, formatFrom, ih, List.length_cons, Nat.succ_add_eq_add_succ, formatFrom]

/-- What filling in the last argument makes of the text before. -/
theorem formatMessage_concat (template : String) (args : List String) (arg : String) :
    (formatMessage template (args ++ [arg])).toList
      = Text.replaceFrom (hole args.length) arg.toList 0 (formatMessage template args).toList := by
  rw [formatMessage, formatFrom_concat, Nat.zero_add, Text.replace, String.toList_ofList,
    placeholder_toList]
  rfl

theorem filling_known {args : List String} {i : Nat} (known : i < args.length) (more : List String) :
    filling (args ++ more) i = filling args i := by
  rw [filling, filling, List.getElem?_append_left known]

theorem filling_unknown {args : List String} {i : Nat} (unknown : args.length ≤ i) :
    filling args i = hole i := by
  rw [filling, List.getElem?_eq_none unknown]
  rfl

/-! ### Arguments without braces -/

/-- Another brace opens before the first one has closed or has been followed by something else than
digits. -/
def reopens : List Char → Bool
  | [] => false
  | c :: rest => (c == '\x7b' && (rest.dropWhile Char.isDigit).head? == some '\x7b') || reopens rest

theorem reopens_append {text rest : List Char} (once : reopens (text ++ rest) = false) :
    reopens rest = false := by
  induction text with
  | nil => exact once
  | cons c text ih =>
    rw [List.cons_append, reopens, Bool.or_eq_false_iff] at once
    exact ih once.2

/-- Filling in makes no placeholder of a brace that begins none, if no other brace opens in it. -/
theorem placeholder?_fillAtOnce {args : List String} {c : Char} {rest : List Char}
    (none : placeholder? (c :: rest) = none) (once : reopens (c :: rest) = false) :
    placeholder? (c :: fillAtOnce args 0 rest) = Option.none := by
  by_cases opens : c = '\x7b'
  · subst opens
    have digits : ∀ d ∈ rest.takeWhile Char.isDigit, d.isDigit = true :=
      fun d isIn => List.mem_takeWhile_imp isIn
    have noBrace : '\x7b' ∉ rest.takeWhile Char.isDigit :=
      fun isIn => absurd (digits _ isIn) (by decide)
    have filled : fillAtOnce args 0 rest
        = rest.takeWhile Char.isDigit ++ fillAtOnce args 0 (rest.dropWhile Char.isDigit) := by
      rw [← fillAtOnce_append noBrace, List.takeWhile_append_dropWhile]
    have next : (fillAtOnce args 0 (rest.dropWhile Char.isDigit)).head?
        = (rest.dropWhile Char.isDigit).head? := by
      cases after : rest.dropWhile Char.isDigit with
      | nil => rfl
      | cons d more =>
        have other : d ≠ '\x7b' := by
          rintro rfl
          simp [reopens, after] at once
        rw [fillAtOnce_cons (placeholder?_of_ne more other)]
        rfl
    have stops : ∀ d ∈ (fillAtOnce args 0 (rest.dropWhile Char.isDigit)).head?, ¬ d.isDigit = true := by
      rw [next]
      intro d isHead
      have ends := List.head?_dropWhile_not Char.isDigit rest
      rw [Option.mem_def.1 isHead] at ends
      exact ne_true_of_eq_false ends
    generalize fillAtOnce args 0 (rest.dropWhile Char.isDigit) = after at filled next stops
    have noDigits : after.takeWhile Char.isDigit = [] ∧ after.dropWhile Char.isDigit = after := by
      cases after with
      | nil => exact ⟨rfl, rfl⟩
      | cons d more => simp [stops d rfl]
    rw [← none, filled]
    refine placeholder?_congr ?_ ?_
    · rw [List.takeWhile_append_of_pos digits, noDigits.1, List.append_nil]
    · rw [List.dropWhile_append_of_pos digits, noDigits.2, next]
  · exact placeholder?_of_ne _ opens

/-- Filling in one more argument, after those that hold no brace have been filled in. -/
theorem replaceFrom_fillAtOnce {args : List String} (arg : String)
    (noBraces : ∀ a ∈ args, '\x7b' ∉ a.toList) {template : List Char} (once : reopens template = false) :
    Text.replaceFrom (hole args.length) arg.toList 0 (fillAtOnce args 0 template)
      = fillAtOnce (args ++ [arg]) 0 template := by
  induction template using text_induction with
  | nil => rfl
  | plain c rest none ih =>
    have still : placeholder? (c :: fillAtOnce args 0 rest) = Option.none :=
      placeholder?_fillAtOnce none once
    rw [reopens, Bool.or_eq_false_iff] at once
    rw [fillAtOnce_cons none, fillAtOnce_cons none, replaceFrom_cons (by rw [still]; exact nofun),
      ih once.2]
  | placeholder i rest ih =>
    rw [fillAtOnce_hole, fillAtOnce_hole, ← ih (reopens_append once)]
    rcases Nat.lt_trichotomy i args.length with known | rfl | unknown
    · have noBrace : '\x7b' ∉ filling args i := by
        rw [filling, List.getElem?_eq_getElem known]
        exact noBraces _ (List.getElem_mem known)
      rw [replaceFrom_append noBrace, filling_known known]
    · rw [filling_unknown le_rfl, replaceFrom_hole, filling, List.getElem?_concat_length]
      rfl
    · rw [filling_unknown unknown.le, replaceFrom_other_hole unknown.ne', filling_unknown]
      simpa using unknown

/-- With no argument, nothing is filled in. -/
theorem fillAtOnce_none (template : List Char) : fillAtOnce [] 0 template = template := by
  induction template using text_induction with
  | nil => rfl
  | plain c rest none ih => rw [fillAtOnce_cons none, ih]
  | placeholder i rest ih => rw [fillAtOnce_hole, ih, filling_unknown (Nat.zero_le i)]

theorem formatMessage_noBraces {template : String} (once : reopens template.toList = false)
    {args : List String} (noBraces : ∀ a ∈ args.dropLast, '\x7b' ∉ a.toList) :
    (formatMessage template args).toList = fillAtOnce args 0 template.toList := by
  induction args using List.reverseRecOn with
  | nil => exact (fillAtOnce_none _).symm
  | append_singleton args arg ih =>
    rw [List.dropLast_concat] at noBraces
    rw [formatMessage_concat, ih fun a isIn => noBraces a (List.dropLast_subset _ isIn),
      replaceFrom_fillAtOnce arg noBraces once]

/-! ### Templates with room -/

/-- No placeholder holds the character. -/
def separates (c : Char) : Bool := c != '\x7b' && c != '\x7d' && !c.isDigit

/-- What follows a brace makes it a placeholder, after which stands a character that none holds, or
the end. -/
def opensHole (rest : List Char) : Bool :=
  let i := Nat.ofDigitChars 10 (rest.takeWhile Char.isDigit) 0
  (hole i).isPrefixOf ('\x7b' :: rest) && (rest.drop ((hole i).length - 1)).head?.all separates

/-- Every brace that opens begins a placeholder, and all placeholders are kept apart from what follows
them. -/
def isSpaced : List Char → Bool
  | [] => true
  | c :: rest => (c != '\x7b' || opensHole rest) && isSpaced rest

theorem isSpaced_append {text rest : List Char} (spaced : isSpaced (text ++ rest) = true) :
    isSpaced rest = true := by
  induction text with
  | nil => exact spaced
  | cons c text ih =>
    rw [List.cons_append, isSpaced, Bool.and_eq_true] at spaced
    exact ih spaced.2

theorem isSpaced_cons {c : Char} {rest : List Char} (spaced : isSpaced (c :: rest) = true)
    (none : placeholder? (c :: rest) = none) : c ≠ '\x7b' ∧ isSpaced rest = true := by
  rw [isSpaced, Bool.and_eq_true, Bool.or_eq_true, bne_iff_ne] at spaced
  refine ⟨fun brace => ?_, spaced.2⟩
  subst brace
  have opens := spaced.1.resolve_left fun other => other rfl
  rw [opensHole, Bool.and_eq_true, List.isPrefixOf_iff_prefix, hole_prefix_iff, none] at opens
  cases opens.1

theorem isSpaced_hole {i : Nat} {rest : List Char} (spaced : isSpaced (hole i ++ rest) = true) :
    rest = [] ∨ ∃ c more, rest = c :: more ∧ separates c = true := by
  rw [hole_append, isSpaced, bne_self_eq_false, Bool.false_or, Bool.and_eq_true, opensHole,
    Bool.and_eq_true, List.isPrefixOf_iff_prefix, hole_prefix_iff, ← hole_append, placeholder?_hole] at spaced
  obtain ⟨⟨number, separate⟩, -⟩ := spaced
  rw [← (Prod.mk.inj (Option.some.inj number)).1, length_hole, List.drop_left] at separate
  cases rest with
  | nil => exact .inl rfl
  | cons c more => exact .inr ⟨c, more, rfl, separate⟩

theorem not_mem_hole_of_separates {c : Char} (separate : separates c = true) (i : Nat) :
    c ∉ hole i := by
  simp only [separates, Bool.and_eq_true, bne_iff_ne, Bool.not_eq_true'] at separate
  obtain ⟨⟨notOpen, notClose⟩, notDigit⟩ := separate
  rw [hole, List.mem_cons, List.mem_append, List.mem_singleton]
  rintro (is | digit | is)
  · exact notOpen is
  · rw [isDigit_of_mem_toString digit] at notDigit
    cases notDigit
  · exact notClose is

/-- The arguments, in each of which the placeholders of later ones have been filled in. -/
def filledIn : Nat → List String → List String
  | _, [] => []
  | i, arg :: rest => formatFrom arg (i + 1) rest :: filledIn (i + 1) rest

theorem filledIn_concat (i : Nat) (args : List String) (arg : String) :
    filledIn i (args ++ [arg])
      = (filledIn i args).map (Text.replace ("\x7b" ++ toString (i + args.length) ++ "\x7d") arg)
        ++ [arg] := by
  induction args generalizing i with
  | nil => rfl
  | cons first rest ih =>
    rw [List.cons_append, filledIn, filledIn, ih, formatFrom_concat, List.length_cons,
      Nat.succ_add_eq_add_succ]
    rfl

theorem length_filledIn (i : Nat) (args : List String) : (filledIn i args).length = args.length := by
  induction args generalizing i with
  | nil => rfl
  | cons arg rest ih => rw [filledIn, List.length_cons, ih, List.length_cons]

/-- What stands for a placeholder is replaced in apart from what follows it. -/
theorem replaceFrom_filling {args : List String} (n : Nat) (arg : List Char) {i : Nat} {rest : List Char}
    (spaced : isSpaced (hole i ++ rest) = true) :
    Text.replaceFrom (hole n) arg 0 (filling args i ++ fillAtOnce args 0 rest)
      = Text.replaceFrom (hole n) arg 0 (filling args i)
        ++ Text.replaceFrom (hole n) arg 0 (fillAtOnce args 0 rest) := by
  rcases isSpaced_hole spaced with rfl | ⟨c, more, rfl, separate⟩
  · rw [fillAtOnce, Text.replaceFrom, List.append_nil, List.append_nil]
  · have apart := not_mem_hole_of_separates separate n
    have other : c ≠ '\x7b' := by
      rintro rfl
      exact apart List.mem_cons_self
    have none := placeholder?_of_ne (fillAtOnce args 0 more) other
    rw [fillAtOnce_cons (placeholder?_of_ne more other), replaceFrom_cons (by rw [none]; exact nofun)]
    exact replaceFrom_apart (List.cons_ne_nil _ _) apart _ (Nat.zero_le _)

/-- Filling in one more argument fills it into the arguments that are there as well. -/
theorem replaceFrom_fillAtOnce_spaced (args : List String) (arg : String) {template : List Char}
    (spaced : isSpaced template = true) :
    Text.replaceFrom (hole args.length) arg.toList 0 (fillAtOnce args 0 template)
      = fillAtOnce (args.map (Text.replace ("\x7b" ++ toString args.length ++ "\x7d") arg) ++ [arg]) 0
          template := by
  induction template using text_induction with
  | nil => rfl
  | plain c rest none ih =>
    obtain ⟨other, spaced⟩ := isSpaced_cons spaced none
    rw [fillAtOnce_cons none, fillAtOnce_cons none, ← ih spaced,
      replaceFrom_cons (by rw [placeholder?_of_ne _ other]; exact nofun)]
  | placeholder i rest ih =>
    rw [fillAtOnce_hole, fillAtOnce_hole, ← ih (isSpaced_append spaced), replaceFrom_filling _ _ spaced]
    congr 1
    rcases Nat.lt_trichotomy i args.length with known | rfl | unknown
    · rw [filling, filling, List.getElem?_append_left (by simpa using known), List.getElem?_map,
        List.getElem?_eq_getElem known]
      simp only [Option.map_some, Option.getD_some, Text.replace, String.toList_ofList,
        placeholder_toList]
    · have alone : Text.replaceFrom (hole args.length) arg.toList 0 (hole args.length ++ []) = _ :=
        replaceFrom_hole []
      rw [List.append_nil, Text.replaceFrom, List.append_nil] at alone
      rw [filling_unknown le_rfl, alone]
      simp [filling]
    · have alone : Text.replaceFrom (hole args.length) arg.toList 0 (hole i ++ []) = _ :=
        replaceFrom_other_hole unknown.ne' []
      rw [List.append_nil, Text.replaceFrom, List.append_nil] at alone
      rw [filling_unknown unknown.le, alone, filling_unknown]
      simpa using unknown

theorem formatMessage_spaced {template : String} (spaced : isSpaced template.toList = true)
    (args : List String) :
    (formatMessage template args).toList = fillAtOnce (filledIn 0 args) 0 template.toList := by
  induction args using List.reverseRecOn with
  | nil => exact (fillAtOnce_none _).symm
  | append_singleton args arg ih =>
    have step := replaceFrom_fillAtOnce_spaced (filledIn 0 args) arg spaced
    rw [length_filledIn] at step
    rw [formatMessage_concat, ih, filledIn_concat, Nat.zero_add, step]

theorem isSpaced_ofList {text : List Char} (spaced : isSpaced text = true) :
    isSpaced (String.ofList text).toList = true := by
  rwa [String.toList_ofList]

theorem isSpaced_ofList_append {text rest : List Char} (spaced : isSpaced (text ++ rest) = true) :
    isSpaced ((String.ofList text).toList ++ (String.ofList rest).toList) = true := by
  rwa [String.toList_ofList, String.toList_ofList]

/-- The templates of the checker leave room around their placeholders. Some are written in two
parts. -/
theorem template?_isSpaced {code : UInt32} {template : String} (is : template? code = some template) :
    isSpaced template.toList = true := by
  rw [template?] at is
  split at is <;> cases is
  all_goals first
    | rw [String.toList_append]
      exact isSpaced_ofList_append (by decide +kernel)
    | exact isSpaced_ofList (by decide +kernel)

/-! ## Messages -/

/-- Unless an argument but the last holds a brace, or a brace of the template opens in another,
the placeholders of a template are filled in at once. The message of a problem is its template filled
in at once with its details, the second of which stands for its placeholder in the first as well. -/
theorem formatMessage_fills (template : String) (args : List String) :
    (reopens template.toList = false → (∀ a ∈ args.dropLast, '\x7b' ∉ a.toList) →
      formatMessage template args = String.ofList (fillAtOnce args 0 template.toList))
    ∧ ∀ p : Problem, ∃ template, template? p.code = some template
      ∧ p.message = String.ofList (fillAtOnce (filledIn 0 p.arguments) 0 template.toList) := by
  refine ⟨fun once noBraces => ?_, fun p => ?_⟩
  · rw [← formatMessage_noBraces once noBraces, String.ofList_toList]
  · obtain ⟨template, is⟩ : ∃ template, template? p.code = some template := by
      cases p <;> exact ⟨_, rfl⟩
    refine ⟨template, is, ?_⟩
    rw [← formatMessage_spaced (template?_isSpaced is), String.ofList_toList, Problem.message, is]
    rfl

/-- A last argument may hold a placeholder. -/
theorem formatMessage_fills_last :
    formatMessage "\x7b0\x7d and \x7b1\x7d" ["x", "\x7b0\x7d"]
      = String.ofList (fillAtOnce ["x", "\x7b0\x7d"] 0 "\x7b0\x7d and \x7b1\x7d".toList) :=
  (formatMessage_fills "\x7b0\x7d and \x7b1\x7d" ["x", "\x7b0\x7d"]).1 (by decide +kernel)
    (by decide +kernel)

/-- An argument that holds the placeholder of a later one is not left as it is. -/
theorem formatMessage_fillsArgument :
    formatMessage "\x7b0\x7d \x7b1\x7d" ["\x7b1\x7d", "x"]
      ≠ String.ofList (fillAtOnce ["\x7b1\x7d", "x"] 0 "\x7b0\x7d \x7b1\x7d".toList) := by
  have template : "\x7b0\x7d \x7b1\x7d".toList = hole 0 ++ ([' '] ++ (hole 1 ++ [])) := by
    decide +kernel
  have atOnce : fillAtOnce ["\x7b1\x7d", "x"] 0 "\x7b0\x7d \x7b1\x7d".toList
      = "\x7b1\x7d".toList ++ ([' '] ++ ("x".toList ++ [])) := by
    rw [template, fillAtOnce_hole, fillAtOnce_append (by decide), fillAtOnce_hole]
    rfl
  rw [atOnce]
  decide +kernel

end LevelCheck
