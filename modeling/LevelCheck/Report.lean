import LevelCheck.Diagnostic
import LevelCheck.Text
set_option autoImplicit false

/-! # Reporting diagnostics

A report shows each record with its place, category, code and message, and below it the line of the
source file that it is about, with a caret under the column. The line is left out when the file or
the line cannot be had. A summary counts the errors and the files that records name. -/

namespace LevelCheck.Report

/-! ## Colors -/

/-- A terminal style. -/
inductive Style where
  | boldRed
  | boldYellow
  | brightBlue
  | red
  deriving DecidableEq, Repr

/-- The parameters of the escape sequence that selects the style. -/
def Style.parameters : Style → String
  | .boldRed => "1;31"
  | .boldYellow => "1;33"
  | .brightBlue => "94"
  | .red => "31"

/-- A text in a style, if colors are used. -/
def painted (color : Bool) (style : Style) (s : String) : String :=
  if color then "\x1b[" ++ style.parameters ++ "m" ++ s ++ "\x1b[0m" else s

/-! ## One record -/

/-- The style of a category. -/
def styleOf : Category → Style
  | .error => .boldRed
  | .warning => .boldYellow

/-- Where the record belongs, as far as that is known. -/
def placeText (d : Diagnostic) : String :=
  match d.file with
  | none => "<unknown>"
  | some file =>
    if d.hasPosition then
      file ++ ":" ++ toString d.line.toInt ++ ":" ++ toString d.column.toInt
    else file

/-- The code with a space in front; a record with code zero shows none. -/
def codeText (color : Bool) (code : UInt32) : String :=
  if code = 0 then "" else " " ++ painted color .brightBlue ("LLV" ++ toString code.toNat)

/-- The record without its source line. -/
def headline (color : Bool) (d : Diagnostic) : String :=
  placeText d ++ " - " ++ painted color (styleOf d.category) d.category.word ++
    codeText color d.code ++ ": " ++ d.message

/-- The line of a text with a number, counted from one. -/
def sourceLine? (source : String) (line : Int32) : Option String :=
  if 0 < line.toInt then (Text.lines source)[line.toInt.toNat - 1]? else none

/-- A caret under a column, counted from one; column zero counts as the first. -/
def caret? (column : Int32) : Option String :=
  if 0 ≤ column.toInt then
    some (String.ofList (List.replicate (column.toInt.toNat - 1) ' ') ++ "^")
  else none

/-- The source line of a record with a caret under its column. -/
def snippet? (color : Bool) (source : String) (d : Diagnostic) : Option String := do
  let line ← sourceLine? source d.line
  let caret ← caret? d.column
  pure ("\n  " ++ Text.padStart 3 (toString d.line.toInt) ++ "   " ++ line ++ "\n        " ++
    painted color .red caret)

/-- A record, followed by its source line if that can be had. `source` gives the text of a file. -/
def entry (color : Bool) (source : String → Option String) (d : Diagnostic) : String :=
  let below := do
    let file ← if d.hasPosition then d.file else none
    snippet? color (← source file) d
  headline color d ++ below.getD ""

/-! ## All records -/

/-- The records one below the other. -/
def render (color : Bool) (source : String → Option String) (ds : List Diagnostic) : String :=
  Text.joinWith "\n" (ds.map (entry color source))

/-- The number of files that records name. -/
def fileCount (ds : List Diagnostic) : Nat := (ds.filterMap (·.file)).eraseDups.length

/-- The number of errors, and of files when it is more than one; empty when there is no error. -/
def summary (ds : List Diagnostic) : String :=
  let errors := errorCount ds
  let files := fileCount ds
  if errors = 0 then ""
  else if errors = 1 then "Found 1 error."
  else if files ≤ 1 then "Found " ++ toString errors ++ " errors."
  else "Found " ++ toString errors ++ " errors in " ++ toString files ++ " files."

end LevelCheck.Report
