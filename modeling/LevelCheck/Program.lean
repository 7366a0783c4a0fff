import LevelCheck.Help
import LevelCheck.Interaction
import LevelCheck.Report
import LevelCheck.TreeFiles
set_option autoImplicit false

/-! # The program

What the program writes and the code it ends with, for each command. Reading files and input is left
to the caller, so that the same definitions serve for a real directory and for one that is given. -/

namespace LevelCheck

/-- A diagnostic as a JSON object. -/
def Diagnostic.encode (d : Diagnostic) : Json :=
  .object ([("file", .ofText? d.file), ("line", .ofInt d.line.toInt), ("column", .ofInt d.column.toInt),
    ("message_text", .string d.message),
    ("category", .string (match d.category with
      | .error => "Error"
      | .warning => "Warning")),
    ("code", .ofNat d.code.toNat)] ++
    (if d.prunes then [("prunes_subtree", .bool true)] else []))

/-- What a run of the program wrote, and its exit code. -/
structure RunResult where
  exitCode : UInt32
  output : String
  deriving DecidableEq, Repr

namespace RunResult

/-- A run that failed. -/
def failure (output : String) : RunResult := { exitCode := 1, output }

/-- A run whose command line was refused, or which was asked for help or the version. -/
def ofUsageError : UsageError → RunResult
  | .help topic => { exitCode := 0, output := topic.text }
  | .version => { exitCode := 0, output := versionText }
  | _ => { exitCode := 2, output := "" }

/-! ## Checking -/

/-- The diagnostics as they are written: none at all as text when there are none, otherwise followed
by a summary. -/
def diagnosticsText (format : OutputFormat) (color : Bool) (source : String → Option String)
    (ds : List Diagnostic) : String :=
  match format with
  | .json => (Json.array (ds.map Diagnostic.encode)).pretty ++ "\n"
  | .text =>
    if ds.isEmpty then ""
    else Report.render color source ds ++ "\n\n" ++ Report.summary ds ++ "\n"

/-- A run that checked files; errors make it fail. -/
def ofChecked (s : CheckSettings) (terminal : Bool) (source : String → Option String)
    (checked : CheckedFiles) : RunResult :=
  { exitCode := if checked.analysis.hasErrors then 1 else 0
    output := diagnosticsText s.format (terminal && !s.noColor) source checked.analysis.diagnostics }

end RunResult

/-- Check the files that the inputs of a command stand for. -/
def CheckSettings.run (s : CheckSettings) (input : String → Input) :
    Except CheckError CheckedFiles :=
  CheckedFiles.ofFiles s.level s.options
    (TreeFile.discover (s.inputs.map fun path => (path, input path)))

/-! ## Interactive sessions -/

/-- The options of a session in a directory. -/
def ReplSettings.options (s : ReplSettings) (directory : String) : Interaction.Options :=
  let usual := Interaction.Options.inDirectory directory
  { usual with
    classPath := if s.entries.isEmpty then usual.classPath else s.entries
    batch := s.batch }

/-! ## A whole run -/

/-- What a run finds around it. -/
structure Surroundings where
  directory : String
  files : FileTree
  input : List UInt8

/-- Run the program where nothing is a terminal. -/
def Surroundings.run (around : Surroundings) (words : List String) : RunResult :=
  match CommandLine.read words with
  | .error e => .ofUsageError e
  | .ok (.check s) =>
    match s.run around.files.input with
    | .error _ => .failure ""
    | .ok checked => .ofChecked s false (fun path => (around.files.readText path).toOption) checked
  | .ok (.repl s) =>
    let transcript :=
      Interaction.run Expression.interpreter (s.options around.directory) around.input .start
    { exitCode := if transcript.error.isSome then 1 else 0, output := transcript.output }

end LevelCheck
