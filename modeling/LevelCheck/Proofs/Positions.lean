import LevelCheck.Report
import LevelCheck.ToolReport
import Mathlib.Tactic
set_option autoImplicit false

/-! # Positions in records

A position is a pair of words, a record holds signed ones, and the line -1 says that there is none. The
record of a problem takes the words over as they are, so that those of the upper half become negative
and the greatest line is lost. The record of a report of another compiler stops at the greatest signed
word, and loses no line. -/

namespace LevelCheck

/-! ## Words as signed words -/

/-- The words of the upper half become negative. -/
theorem toInt_toInt32 (w : UInt32) :
    w.toInt32.toInt = if w.toNat < 2147483648 then (w.toNat : Int) else w.toNat - 4294967296 := by
  rw [Int32.toInt, UInt32.toBitVec_toInt32, BitVec.toInt_eq_toNat_cond, UInt32.toNat_toBitVec]
  split_ifs <;> omega

/-- Only the greatest word becomes the line of records without a position. -/
theorem toInt32_eq_neg_one_iff {w : UInt32} : w.toInt32 = -1 ↔ w = 4294967295 := by
  rw [← Int32.toInt_inj, toInt_toInt32, ← UInt32.toNat_inj]
  have small := w.toNat_lt
  have negative : (-1 : Int32).toInt = -1 := by decide
  have greatest : (4294967295 : UInt32).toNat = 4294967295 := rfl
  rw [negative, greatest]
  split <;> omega

theorem ToolReport.toInt_clamped (w : UInt32) :
    (clamped w).toInt = min (w.toNat : Int) 2147483647 := by
  rw [clamped]
  split_ifs with small
  · rw [toInt_toInt32, if_pos (Nat.lt_succ_of_le small)]
    exact (min_eq_left (by exact_mod_cast small)).symm
  · have greatest : Int32.maxValue.toInt = 2147483647 := by decide
    rw [greatest]
    exact (min_eq_right (by omega)).symm

/-! ## Records -/

namespace Diagnostic

variable {file message : String} {pos : Position} {code : UInt32}

theorem hasPosition_iff {d : Diagnostic} : d.hasPosition = true ↔ d.line ≠ -1 := by
  rw [hasPosition, bne_iff_ne]

/-- The record shows where it belongs: it has a position, with a line from one on and a column that is
not negative, and a report of it starts with both, after the file. -/
structure IsPlaced (d : Diagnostic) (file : String) : Prop where
  hasPosition : d.hasPosition = true
  line : 1 ≤ d.line.toInt
  column : 0 ≤ d.column.toInt
  shown : ∀ (color : Bool) (source : String → Option String), ∃ rest, Report.entry color source d
    = file ++ ":" ++ toString d.line.toInt ++ ":" ++ toString d.column.toInt ++ " - " ++ rest

/-- A report of a record in a file starts with its line and column, if it has a position. -/
theorem entry_of_hasPosition {d : Diagnostic} (inFile : d.file = some file) (placed : d.hasPosition = true)
    (color : Bool) (source : String → Option String) : ∃ rest, Report.entry color source d
      = file ++ ":" ++ toString d.line.toInt ++ ":" ++ toString d.column.toInt ++ " - " ++ rest := by
  have place : Report.placeText d
      = file ++ ":" ++ toString d.line.toInt ++ ":" ++ toString d.column.toInt := by
    simp only [Report.placeText, inFile, placed, if_true]
  rw [← place]
  simp only [Report.entry, Report.headline, String.append_assoc]
  exact ⟨_, rfl⟩

/-- A record in a file from line one on shows where it belongs if its column is not negative. -/
theorem isPlaced_of_line {d : Diagnostic} (inFile : d.file = some file) (line : 1 ≤ d.line.toInt)
    (column : 0 ≤ d.column.toInt) : d.IsPlaced file := by
  have placed : d.hasPosition = true := by
    rw [hasPosition_iff]
    intro none
    rw [none] at line
    exact absurd line (by decide)
  exact ⟨placed, line, column, entry_of_hasPosition inFile placed⟩

section

variable (placed : 1 ≤ pos.line)
include placed

theorem isNowhere_eq_false : pos.isNowhere = false := by
  rw [Position.isNowhere, beq_eq_false_iff_ne]
  rintro none
  rw [none] at placed
  exact absurd placed (by decide)

theorem line_error : (error file pos message code).line = pos.line.toInt32 := by
  rw [error, isNowhere_eq_false placed]
  rfl

theorem column_error : (error file pos message code).column = pos.column.toInt32 := by
  rw [error, isNowhere_eq_false placed]
  rfl

/-- The record of a problem shows where it belongs if its line and its column are signed words. -/
theorem error_isPlaced_iff : (error file pos message code).IsPlaced file
    ↔ pos.line.toNat < 2147483648 ∧ pos.column.toNat < 2147483648 := by
  have first : 1 ≤ pos.line.toNat := UInt32.le_iff_toNat_le.1 placed
  have line := toInt_toInt32 pos.line
  have column := toInt_toInt32 pos.column
  have lines := pos.line.toNat_lt
  have columns := pos.column.toNat_lt
  constructor
  · intro isPlaced
    have isLine := isPlaced.line
    have isColumn := isPlaced.column
    rw [line_error placed, line] at isLine
    rw [column_error placed, column] at isColumn
    split_ifs at isLine isColumn <;> omega
  · rintro ⟨smallLine, smallColumn⟩
    rw [if_pos smallLine] at line
    rw [if_pos smallColumn] at column
    refine isPlaced_of_line rfl ?_ ?_
    · rw [line_error placed, line]
      omega
    · rw [column_error placed, column]
      omega

/-- A problem on the greatest line loses its position. -/
theorem hasPosition_error_iff :
    (error file pos message code).hasPosition = true ↔ pos.line ≠ 4294967295 := by
  rw [hasPosition_iff, line_error placed, Ne, toInt32_eq_neg_one_iff]

/-- In a report of a problem the position of its node reads as it stands in the tree. -/
theorem entry_error (smallLine : pos.line.toNat < 2147483648) (smallColumn : pos.column.toNat < 2147483648)
    (color : Bool) (source : String → Option String) : ∃ rest,
      Report.entry color source (error file pos message code) = file ++ ":" ++ pos.text ++ " - " ++ rest := by
  have isPlaced : (error file pos message code).IsPlaced file :=
    (error_isPlaced_iff placed).2 ⟨smallLine, smallColumn⟩
  obtain ⟨rest, starts⟩ := isPlaced.shown color source
  rw [line_error placed, column_error placed, toInt_toInt32, toInt_toInt32, if_pos smallLine,
    if_pos smallColumn] at starts
  have text : file ++ ":" ++ pos.text
      = file ++ ":" ++ toString (pos.line.toNat : Int) ++ ":" ++ toString (pos.column.toNat : Int) := by
    simp only [Position.text, String.append_assoc]
    rfl
  exact ⟨rest, text ▸ starts⟩

end

theorem line_error_eq_neg_one_iff : (error file pos message code).line = -1
    ↔ pos.isNowhere = true ∨ pos.line = 4294967295 := by
  by_cases none : pos.isNowhere = true
  · simp [error, none]
  · rw [error, if_neg none, toInt32_eq_neg_one_iff, or_iff_right none]

end Diagnostic

namespace ToolReport

variable {r : ToolReport} {file : String} {line column : UInt32}

theorem isPlaced (place : r.place = .source file line column) (placed : 1 ≤ line) :
    r.diagnostic.IsPlaced file ∧ r.diagnostic.line.toInt = min (line.toNat : Int) 2147483647
      ∧ r.diagnostic.column.toInt = min (column.toNat : Int) 2147483647 := by
  have first : 1 ≤ line.toNat := UInt32.le_iff_toNat_le.1 placed
  have isLine : r.diagnostic.line.toInt = min (line.toNat : Int) 2147483647 := by
    rw [diagnostic, place, toInt_clamped]
  have isColumn : r.diagnostic.column.toInt = min (column.toNat : Int) 2147483647 := by
    rw [diagnostic, place, toInt_clamped]
  refine ⟨Diagnostic.isPlaced_of_line ?_ ?_ ?_, isLine, isColumn⟩
  · rw [diagnostic, place]
  · rw [isLine]
    exact le_min (by omega) (by omega)
  · rw [isColumn]
    exact le_min (by omega) (by omega)

theorem line_eq_neg_one_iff :
    r.diagnostic.line = -1 ↔ ∀ file line column, r.place ≠ .source file line column := by
  cases place : r.place with
  | source file line column =>
    have isLine : r.diagnostic.line.toInt = min (line.toNat : Int) 2147483647 := by
      rw [diagnostic, place, toInt_clamped]
    have notNegative : (0 : Int) ≤ min (line.toNat : Int) 2147483647 := le_min (by omega) (by omega)
    refine iff_of_false (fun none => ?_) fun other => other file line column rfl
    rw [none] at isLine
    rw [← isLine] at notNegative
    exact absurd notNegative (by decide)
  | synthetic origin => simp [diagnostic, place, Diagnostic.unpositioned]
  | nowhere => simp [diagnostic, place, Diagnostic.unpositioned]

end ToolReport

namespace Diagnostic

/-- The record of a problem at a node of line one or later shows where it belongs exactly if line and
column are signed words, and then as they stand in the tree; only with the greatest line it has no
position. The record of a report at line one or later always shows where it belongs, and stops at the
greatest signed word. The line of records without a position is also that of a problem on the greatest
line, but of no report at a place in a source. -/
theorem keepsPositions (file message : String) (pos : Position) (code : UInt32) (r : ToolReport) :
    (1 ≤ pos.line →
      ((error file pos message code).IsPlaced file
          ↔ pos.line.toNat < 2147483648 ∧ pos.column.toNat < 2147483648)
        ∧ (pos.line.toNat < 2147483648 → pos.column.toNat < 2147483648 → ∀ color source, ∃ rest,
          Report.entry color source (error file pos message code)
            = file ++ ":" ++ pos.text ++ " - " ++ rest)
        ∧ ((error file pos message code).hasPosition = true ↔ pos.line ≠ 4294967295))
    ∧ (∀ (source : String) (line column : UInt32),
      r.place = .source source line column → 1 ≤ line → r.diagnostic.IsPlaced source
        ∧ r.diagnostic.line.toInt = min (line.toNat : Int) 2147483647
        ∧ r.diagnostic.column.toInt = min (column.toNat : Int) 2147483647)
    ∧ ((error file pos message code).line = -1 ↔ pos.isNowhere = true ∨ pos.line = 4294967295)
    ∧ (r.diagnostic.line = -1 ↔ ∀ source line column, r.place ≠ .source source line column) := by
  refine ⟨fun placed => ?_, ?_, line_error_eq_neg_one_iff, r.line_eq_neg_one_iff⟩
  · exact ⟨error_isPlaced_iff placed, entry_error placed, hasPosition_error_iff placed⟩
  · exact fun source line column place placed => r.isPlaced place placed

/-- The last line and column of a problem that are signed words, and the last ones of a report. -/
theorem keepsPositions_last :
    let last : Position := { line := 2147483647, column := 2147483647 }
    let r : ToolReport :=
      { place := .source "A.java" 4294967295 4294967295, message := "unexpected end", severity := .error }
    let d := error "A.java" last "You cannot have two variables with the same name." 1003
    d.IsPlaced "A.java"
      ∧ (∃ rest, Report.entry false (fun _ => none) d = "A.java" ++ ":" ++ last.text ++ " - " ++ rest)
      ∧ r.diagnostic.IsPlaced "A.java" ∧ r.diagnostic.line.toInt = 2147483647 := by
  intro last r d
  have kept := keepsPositions "A.java" "You cannot have two variables with the same name." last 1003 r
  have problem := kept.1 (by decide)
  have report := kept.2.1 "A.java" 4294967295 4294967295 rfl (by decide)
  refine ⟨problem.1.2 (by decide), problem.2.1 (by decide) (by decide) false _, report.1, ?_⟩
  rw [report.2.1]
  rfl

/-- A problem on the greatest line has a record without a position, and from the middle of the words on
a line and a column are negative. -/
theorem error_upperHalf :
    let lost := error "A.java" { line := 4294967295, column := 1 } "" 1003
    let negative := error "A.java" { line := 2147483648, column := 2147483648 } "" 1003
    lost.hasPosition = false ∧ lost.line = -1 ∧ Report.placeText lost = "A.java"
      ∧ negative.line.toInt = -2147483648 ∧ negative.column.toInt = -2147483648 := by
  decide

end Diagnostic

end LevelCheck
