import LevelCheck.Interaction
import Mathlib.Tactic
set_option autoImplicit false

/-! # Failed lines

A session hands every line of its input to the interpreter once, in order, and writes what became of
it, whatever became of the lines before. A line that fails leaves the interpreter of expressions in the
state it was in. So a session that was never given the failed lines answers all others in the same way,
and ends with the same bindings. -/

namespace LevelCheck

/-! ## The lines of a text -/

namespace Text

/-- The lines of a row of characters, with the breaks that end them; the last line may have none. -/
def lineChars : List Char → List (List Char)
  | [] => []
  | c :: rest =>
    if c = '\n' then [c] :: lineChars rest
    else
      match lineChars rest with
      | [] => [[c]]
      | line :: lines => (c :: line) :: lines

/-- The lines of a text, with the breaks that end them; the last line may have none. -/
def linesWithBreaks (text : String) : List String := (lineChars text.toList).map String.ofList

/-- Rows that are the lines of a text: each ends with its only break, and the last one may have none
if there is something in it. -/
inductive AreLines : List (List Char) → Prop where
  | nil : AreLines []
  | unended {line : List Char} (some : line ≠ []) (noBreak : '\n' ∉ line) : AreLines [line]
  | ended {line : List Char} {lines : List (List Char)} (noBreak : '\n' ∉ line)
      (others : AreLines lines) : AreLines ((line ++ ['\n']) :: lines)

theorem areLines_lineChars (cs : List Char) : AreLines (lineChars cs) := by
  induction cs with
  | nil => exact .nil
  | cons c rest ih =>
    rw [lineChars]
    split
    · next isBreak =>
      subst isBreak
      exact AreLines.ended List.not_mem_nil ih
    · next other =>
      have notIn {line : List Char} (noBreak : '\n' ∉ line) : '\n' ∉ c :: line := by
        simp [noBreak, Ne.symm other]
      generalize lineChars rest = lines at ih
      cases ih with
      | nil => exact .unended (by simp) (notIn (by simp))
      | unended some noBreak => exact .unended (by simp) (notIn noBreak)
      | ended noBreak others => exact AreLines.ended (notIn noBreak) others

theorem lineChars_append {line : List Char} (noBreak : '\n' ∉ line) (rest : List Char) :
    lineChars (line ++ '\n' :: rest) = (line ++ ['\n']) :: lineChars rest := by
  induction line with
  | nil => simp [lineChars]
  | cons c line ih =>
    simp only [List.mem_cons, not_or] at noBreak
    rw [List.cons_append, lineChars, if_neg (Ne.symm noBreak.1), ih noBreak.2]
    rfl

theorem lineChars_unended {line : List Char} (some : line ≠ []) (noBreak : '\n' ∉ line) :
    lineChars line = [line] := by
  induction line with
  | nil => contradiction
  | cons c line ih =>
    simp only [List.mem_cons, not_or] at noBreak
    rw [lineChars, if_neg (Ne.symm noBreak.1)]
    cases line with
    | nil => rfl
    | cons d line => rw [ih (by simp) noBreak.2]

/-- Lines that are put together again are cut in the same way. -/
theorem AreLines.lineChars_flatten {lines : List (List Char)} (areLines : AreLines lines) :
    lineChars lines.flatten = lines := by
  induction areLines with
  | nil => rfl
  | unended some noBreak => simpa using lineChars_unended some noBreak
  | ended noBreak _ ih =>
    rw [List.flatten_cons, List.append_assoc, List.singleton_append, lineChars_append noBreak, ih]

/-- Lines stay lines when others are left out. -/
theorem AreLines.sublist {lines kept : List (List Char)} (areLines : AreLines lines)
    (isPart : kept.Sublist lines) : AreLines kept := by
  induction areLines generalizing kept with
  | nil =>
    rw [List.sublist_nil.mp isPart]
    exact .nil
  | unended some noBreak =>
    rcases List.sublist_singleton.mp isPart with rfl | rfl
    · exact .nil
    · exact .unended some noBreak
  | ended noBreak _ ih =>
    cases isPart with
    | cons _ others => exact ih others
    | cons_cons _ others => exact .ended noBreak (ih others)

/-- The lines make up the text. -/
theorem flatten_lineChars (cs : List Char) : (lineChars cs).flatten = cs := by
  induction cs with
  | nil => rfl
  | cons c rest ih =>
    rw [lineChars]
    split
    · rw [List.flatten_cons, ih]
      rfl
    · generalize lineChars rest = lines at ih
      subst ih
      cases lines <;> rfl

theorem join_linesWithBreaks (text : String) : String.join (linesWithBreaks text) = text := by
  apply String.toList_inj.mp
  rw [String.toList_join, linesWithBreaks, List.flatMap_map]
  simp only [String.toList_ofList]
  rw [List.flatMap_id', flatten_lineChars]

/-- Some lines of a text, put together, are cut into the same lines. -/
theorem linesWithBreaks_join {text : String} {kept : List String}
    (isPart : kept.Sublist (linesWithBreaks text)) : linesWithBreaks (String.join kept) = kept := by
  have rows : (linesWithBreaks text).map String.toList = lineChars text.toList := by
    simp [linesWithBreaks, Function.comp_def]
  have areLines : AreLines (kept.map String.toList) :=
    (areLines_lineChars text.toList).sublist (rows ▸ isPart.map String.toList)
  rw [linesWithBreaks, String.toList_join, List.flatMap_def, areLines.lineChars_flatten]
  simp [Function.comp_def]

end Text

namespace Interaction

/-! ## Lines as bytes -/

/-- The bytes of a row of characters. -/
def encoded (cs : List Char) : List UInt8 := cs.flatMap String.utf8EncodeChar

/-- The bytes of a text. -/
def bytesOf (text : String) : List UInt8 := text.toUTF8.data.toList

theorem bytesOf_eq (text : String) : bytesOf text = encoded text.toList := by
  have bytes : text.toByteArray = text.toList.utf8Encode := by
    rw [← String.toByteArray_ofList, String.ofList_toList]
  rw [bytesOf, String.toUTF8_eq_toByteArray, bytes, List.utf8Encode, List.data_toByteArray]
  rfl

theorem encodeChar_break : String.utf8EncodeChar '\n' = [10] := rfl

/-- Only a line feed is written with the byte that ends a line: of several bytes for a character, each
is at least 128. -/
theorem encodeChar_other {c : Char} (other : c ≠ '\n') :
    ∃ b bs, String.utf8EncodeChar c = b :: bs ∧ ∀ x ∈ b :: bs, x ≠ 10 := by
  have notBreak : c.val.toNat ≠ 10 := fun is => other (Char.toNat_inj.mp is)
  have apart {n : Nat} (notTen : n ≠ 10) (isByte : n < 256) : UInt8.ofNat n ≠ 10 := by
    intro is
    have value := congrArg UInt8.toNat is
    rw [UInt8.toNat_ofNat', Nat.mod_eq_of_lt isByte] at value
    exact notTen value
  unfold String.utf8EncodeChar
  dsimp only
  split_ifs <;> refine ⟨_, _, rfl, ?_⟩ <;> simp only [List.forall_mem_cons, List.not_mem_nil,
    false_implies, implies_true, and_true]
  · exact apart notBreak (by omega)
  · exact ⟨apart (by omega) (by omega), apart (by omega) (by omega)⟩
  · exact ⟨apart (by omega) (by omega), apart (by omega) (by omega), apart (by omega) (by omega)⟩
  · exact ⟨apart (by omega) (by omega), apart (by omega) (by omega), apart (by omega) (by omega),
      apart (by omega) (by omega)⟩

theorem splitLines_append {b : UInt8} {bs : List UInt8} (inside : ∀ x ∈ b :: bs, x ≠ 10)
    (rest : List UInt8) : splitLines (b :: bs ++ rest) =
      match splitLines rest with
      | [] => [b :: bs]
      | line :: lines => (b :: bs ++ line) :: lines := by
  induction bs generalizing b with
  | nil =>
    rw [List.singleton_append, splitLines, if_neg (inside b List.mem_cons_self)]
    rfl
  | cons b' bs ih =>
    have others := ih fun x isIn => inside x (List.mem_cons_of_mem _ isIn)
    rw [List.cons_append, splitLines, if_neg (inside b List.mem_cons_self), others]
    cases splitLines rest <;> rfl

/-- Cutting the bytes of a text gives the bytes of its lines. -/
theorem splitLines_encoded (cs : List Char) :
    splitLines (encoded cs) = (Text.lineChars cs).map encoded := by
  induction cs with
  | nil => rfl
  | cons c rest ih =>
    change splitLines (String.utf8EncodeChar c ++ encoded rest) = _
    rw [Text.lineChars]
    split
    · next isBreak =>
      subst isBreak
      rw [encodeChar_break, List.singleton_append, splitLines, if_pos rfl, ih]
      rfl
    · next other =>
      obtain ⟨b, bs, bytes, inside⟩ := encodeChar_other other
      rw [bytes, splitLines_append inside, ih]
      cases Text.lineChars rest with
      | nil => simp [encoded, bytes]
      | cons line lines => simp [encoded, bytes]

theorem lineText?_bytesOf (line : String) : lineText? (bytesOf line) = some (withoutBreak line) := by
  have text : String.fromUTF8? ⟨(bytesOf line).toArray⟩ = some line := by
    have bytes : (⟨(bytesOf line).toArray⟩ : ByteArray) = line.toByteArray := by
      rw [bytesOf, Array.toArray_toList]
      rfl
    rw [bytes, String.fromUTF8?, dif_pos line.isValidUTF8]
    rfl
  rw [lineText?, text]
  rfl

theorem splitLines_bytesOf (text : String) :
    splitLines (bytesOf text) = (Text.linesWithBreaks text).map bytesOf := by
  rw [bytesOf_eq, splitLines_encoded, Text.linesWithBreaks, List.map_map]
  exact List.map_congr_left fun line _ => by
    rw [Function.comp_apply, bytesOf_eq, String.toList_ofList]

end Interaction

/-! ## What becomes of each line -/

/-- The line was wrong, or the interpreter was. -/
def Reply.isFailure : Reply → Bool
  | .value _ | .nothing => false
  | .refused _ | .fault _ | .crash _ => true

/-- The lines with the replies to them, and the state after the last. -/
def Interpreter.answers {σ : Type} (i : Interpreter σ) : List String → σ → List (String × Reply) × σ
  | [], s => ([], s)
  | line :: lines, s =>
    let first := i.interpret (Interaction.withoutBreak line) s
    let others := i.answers lines first.2
    ((line, first.1) :: others.1, others.2)

/-- The interpreter, with a list of all lines that it was given. -/
def Interpreter.recording {σ : Type} (i : Interpreter σ) : Interpreter (σ × List String) where
  interpret line s :=
    let answer := i.interpret line s.1
    (answer.1, answer.2, s.2 ++ [line])

/-- A line that fails leaves the interpreter in the state it was in. -/
def Interpreter.FailsCleanly {σ : Type} (i : Interpreter σ) : Prop :=
  ∀ line s, (i.interpret line s).1.isFailure → (i.interpret line s).2 = s

section

variable {σ : Type} {i : Interpreter σ}

theorem Interpreter.answers_cons (line : String) (lines : List String) (s : σ) :
    i.answers (line :: lines) s =
      ((line, (i.interpret (Interaction.withoutBreak line) s).1) ::
          (i.answers lines (i.interpret (Interaction.withoutBreak line) s).2).1,
        (i.answers lines (i.interpret (Interaction.withoutBreak line) s).2).2) :=
  rfl

theorem Interpreter.map_fst_answers (lines : List String) (s : σ) :
    (i.answers lines s).1.map Prod.fst = lines := by
  induction lines generalizing s with
  | nil => rfl
  | cons line lines ih => rw [answers_cons, List.map_cons, ih]

theorem Interpreter.recording_interpret (line : String) (s : σ) (given : List String) :
    i.recording.interpret line (s, given) =
      ((i.interpret line s).1, (i.interpret line s).2, given ++ [line]) :=
  rfl

/-- The list of the lines has no influence on the replies, and no line is missing from it. -/
theorem Interpreter.answers_recording (lines : List String) (s : σ) (given : List String) :
    i.recording.answers lines (s, given) = ((i.answers lines s).1, (i.answers lines s).2,
      given ++ lines.map Interaction.withoutBreak) := by
  induction lines generalizing s given with
  | nil => simp [answers]
  | cons line lines ih =>
    rw [answers_cons, recording_interpret, ih, List.append_assoc]
    rfl

/-- The lines that did not fail have the same replies without the ones that did. -/
theorem Interpreter.FailsCleanly.answers_kept (clean : i.FailsCleanly) (lines : List String) (s : σ) :
    i.answers (((i.answers lines s).1.filter (!·.2.isFailure)).map Prod.fst) s =
      ((i.answers lines s).1.filter (!·.2.isFailure), (i.answers lines s).2) := by
  induction lines generalizing s with
  | nil => rfl
  | cons line lines ih =>
    rw [answers_cons]
    cases failed : (i.interpret (Interaction.withoutBreak line) s).1.isFailure with
    | true =>
      rw [clean _ s failed, List.filter_cons_of_neg (by simp [failed])]
      exact ih s
    | false =>
      rw [List.filter_cons_of_pos (by simp [failed]), List.map_cons, answers_cons, ih]

end

/-! ## What is written -/

namespace Interaction

variable {σ : Type} (options : Options)

/-- What is written from the first of the lines on, if these are the replies to them. -/
def dialogue : List (String × Reply) → String
  | [] => opening options
  | (line, reply) :: rest =>
    opening options ++ (echo options (withoutBreak line) ++ reply.text) ++ dialogue rest

/-- A session that got to the end of its input, with these replies to the lines. -/
def transcriptOf (replies : List (String × Reply)) (s : σ) : Transcript σ :=
  { output := banner options ++ "\n" ++ dialogue options replies, error := none, state := s }

theorem runLines_bytesOf (i : Interpreter σ) (lines : List String) (s : σ) :
    runLines i options (lines.map bytesOf) s =
      { output := dialogue options (i.answers lines s).1, error := none
        state := (i.answers lines s).2 } := by
  induction lines generalizing s with
  | nil => rfl
  | cons line lines ih =>
    rw [List.map_cons, runLines, lineText?_bytesOf]
    dsimp only [answer]
    rw [ih]
    rfl

/-- A session is its lines, each with the reply of the interpreter. -/
theorem run_bytesOf (i : Interpreter σ) (text : String) (s : σ) :
    run i options (bytesOf text) s = transcriptOf options
      (i.answers (Text.linesWithBreaks text) s).1 (i.answers (Text.linesWithBreaks text) s).2 := by
  rw [run, splitLines_bytesOf, runLines_bytesOf]
  rfl

end Interaction

/-! ## Sessions of expressions -/

namespace Expression

theorem interpreter_interpret (line : String) (s : Session) :
    interpreter.interpret line s = (replyOf (s.evaluate line).1, (s.evaluate line).2) := by
  simp only [interpreter]

theorem failsCleanly : interpreter.FailsCleanly := by
  intro line s failed
  rw [interpreter_interpret] at failed ⊢
  unfold Session.evaluate at failed ⊢
  cases result : Session.evaluateLine s.bindings line with
  | ok shown =>
    obtain ⟨value, bindings⟩ := shown
    rw [result] at failed
    cases value <;> exact absurd failed Bool.false_ne_true
  | error e => rfl

end Expression

/-- Failed lines leave no trace. Every line of the input is given to the interpreter once, in order,
whatever became of the lines before, and answered where it stands; and without the lines that fail, the
session writes the same for all others, and ends with the same bindings. -/
theorem Interaction.run_withoutFailedLines (options : Options) (text : String)
    (s : Expression.Session) :
    let i := Expression.interpreter
    let record := i.answers (Text.linesWithBreaks text) s
    let kept := record.1.filter (!·.2.isFailure)
    String.join (record.1.map Prod.fst) = text ∧
    run i options (bytesOf text) s = transcriptOf options record.1 record.2 ∧
    run i.recording options (bytesOf text) (s, []) = transcriptOf options record.1
      (record.2, (Text.linesWithBreaks text).map withoutBreak) ∧
    run i options (bytesOf (String.join (kept.map Prod.fst))) s
      = transcriptOf options kept record.2 := by
  intro i record kept
  have isPart : (kept.map Prod.fst).Sublist (Text.linesWithBreaks text) := by
    have some : (kept.map Prod.fst).Sublist (record.1.map Prod.fst) := List.filter_sublist.map _
    rwa [Interpreter.map_fst_answers] at some
  refine ⟨?_, run_bytesOf options i text s, ?_, ?_⟩
  · rw [Interpreter.map_fst_answers, Text.join_linesWithBreaks]
  · rw [run_bytesOf, Interpreter.answers_recording]
    rfl
  · rw [run_bytesOf, Text.linesWithBreaks_join isPart, Expression.failsCleanly.answers_kept]

/-- A division by zero between two lines is answered where it stands, and without it the session writes
the same for the two. -/
theorem Interaction.run_withoutFailedLines_division :
    let i := Expression.interpreter
    let options := Options.inDirectory "/"
    let last : Expression.Session := { bindings := ⟨[("x", .int 1)]⟩ }
    run i.recording options (bytesOf "let x = 1\nx / 0\nx") (.start, [])
        = transcriptOf options [("let x = 1\n", .nothing),
          ("x / 0\n", .refused "java.lang.ArithmeticException: / by zero"), ("x", .value "1")]
          (last, ["let x = 1", "x / 0", "x"]) ∧
      run i options (bytesOf "let x = 1\nx") .start
        = transcriptOf options [("let x = 1\n", .nothing), ("x", .value "1")] last := by
  intro i options last
  obtain ⟨-, -, recorded, kept⟩ :=
    Interaction.run_withoutFailedLines options "let x = 1\nx / 0\nx" .start
  have answered : i.answers (Text.linesWithBreaks "let x = 1\nx / 0\nx") .start
      = ([("let x = 1\n", .nothing), ("x / 0\n", .refused "java.lang.ArithmeticException: / by zero"),
        ("x", .value "1")], last) := by
    decide +kernel
  have lines : (Text.linesWithBreaks "let x = 1\nx / 0\nx").map withoutBreak
      = ["let x = 1", "x / 0", "x"] := by
    decide +kernel
  rw [answered] at recorded kept
  rw [lines] at recorded
  exact ⟨recorded, kept⟩

end LevelCheck
