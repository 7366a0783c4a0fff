import LevelCheck.Diagnostic
set_option autoImplicit false

/-! # Reports of other compilers

A compiler that reports problems of its own has each of them recorded as a diagnostic, and passed on
to the console in the compiler's words. -/

namespace LevelCheck

/-- How serious a compiler says a problem is. -/
inductive Severity where
  | info
  | warning
  | error
  deriving DecidableEq, Repr, Inhabited

namespace Severity

/-- The word for the severity. -/
def word : Severity → String
  | .info => "info"
  | .warning => "warning"
  | .error => "error"

/-- The category of the record: all that is not an error is a warning. -/
def category : Severity → Category
  | .error => .error
  | _ => .warning

end Severity

/-- Where a compiler says a problem is. -/
inductive ReportedPlace where
  | source (file : String) (line column : UInt32)
  /-- A made-up place, such as that of an option. -/
  | synthetic (origin : String)
  | nowhere
  deriving DecidableEq, Repr, Inhabited

/-- What a compiler reports. -/
structure ToolReport where
  place : ReportedPlace
  message : String
  severity : Severity
  deriving DecidableEq, Repr

namespace ToolReport

/-- The code of all records made from reports. -/
def code : UInt32 := 9001

/-- A word as a signed one; words beyond its range become the greatest. -/
def clamped (w : UInt32) : Int32 :=
  if w.toNat ≤ 2147483647 then w.toInt32 else Int32.maxValue

/-- The record of a report. -/
def diagnostic (r : ToolReport) : Diagnostic :=
  match r.place with
  | .source file line column =>
    { file := some file, line := clamped line, column := clamped column, message := r.message
      category := r.severity.category, code, prunes := false }
  | _ => .unpositioned r.message r.severity.category code

/-- The report on a line of the console. -/
def consoleLine (r : ToolReport) : String :=
  let place := match r.place with
    | .source file line column =>
      file ++ ":" ++ toString line.toNat ++ ":" ++ toString column.toNat ++ ": "
    | .synthetic origin => origin ++ ": "
    | .nowhere => ""
  place ++ r.severity.word ++ ": " ++ r.message ++ "\n"

end ToolReport

/-- What has been recorded, and what the console shows. -/
structure ToolRecorder where
  records : List Diagnostic
  console : String
  deriving DecidableEq, Repr

namespace ToolRecorder

/-- Nothing has been reported. -/
def empty : ToolRecorder := { records := [], console := "" }

/-- Record a report and pass it on. -/
def report (r : ToolRecorder) (entry : ToolReport) : ToolRecorder :=
  { records := r.records ++ [entry.diagnostic], console := r.console ++ entry.consoleLine }

end ToolRecorder

end LevelCheck
