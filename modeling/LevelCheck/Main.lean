import LevelCheck.Program
set_option autoImplicit false

/-! # Running the program

Reads the files, the input and the directory that a run needs, and writes what it comes to. -/

open LevelCheck

namespace LevelCheck.Main

/-- Why a file could not be read. -/
def fileError : IO.Error → FileError
  | .noFileOrDirectory .. => .notFound
  | .inappropriateType .. => .notDirectory
  | e => .other (toString e)

/-- The text of a file. -/
def readText (path : String) : IO (Except FileError String) := do
  try
    return FileTree.textOf (← IO.FS.readBinFile path)
  catch e =>
    return .error (fileError e)

/-- The text of a file, if it can be read. -/
def readSource (path : String) : IO (Option String) := return (← readText path).toOption

/-- The tree files below a directory. What cannot be read is left out. -/
partial def readTree (path : String) : IO FileTree := do
  let mut entries : List (String × FileTree) := []
  for entry in ← (System.mkFilePath [path]).readDir do
    let inner := entry.path.toString
    try
      if ← entry.path.isDir then entries := (entry.fileName, ← readTree inner) :: entries
      else if Path.extension? inner == some TreeFile.extension then
        entries := (entry.fileName, .file (← IO.FS.readBinFile inner)) :: entries
    catch _ => pure ()
  return .directory entries

/-- What an input path leads to. -/
def readInput (path : String) : IO Input := do
  let dir := System.mkFilePath [path]
  if ← dir.isDir then return .directory (← readTree path)
  else return .file (← readText path)

/-- The source files that diagnostics name. -/
def readSources (ds : List Diagnostic) : IO (String → Option String) := do
  let names := (ds.filterMap (·.file)).eraseDups
  let texts ← names.mapM fun name => return (name, ← readSource name)
  return fun name => (texts.lookup name).join

/-- Check files. -/
def check (s : CheckSettings) : IO RunResult := do
  let inputs ← s.inputs.mapM fun path => return (path, ← readInput path)
  match CheckedFiles.ofFiles s.level s.options (TreeFile.discover inputs) with
  | .error e =>
    IO.eprintln ("Error: " ++ e.message)
    return .failure ""
  | .ok checked =>
    let source ← readSources checked.analysis.diagnostics
    return .ofChecked s (← (← IO.getStdout).isTty) source checked

/-- The bytes up to the next line feed, which is the last of them, or to the end of the input. -/
def readLine (input : IO.FS.Stream) : IO (List UInt8) := do
  return (← input.getLine).toUTF8.toList

/-- Answer lines until the input ends. -/
partial def serve (options : Interaction.Options) (input output : IO.FS.Stream)
    (s : Expression.Session) : IO UInt32 := do
  output.putStr (Interaction.opening options)
  output.flush
  let bytes ← readLine input
  if bytes.isEmpty then return 0
  match Interaction.lineText? bytes with
  | none =>
    IO.eprintln ("Error: " ++ Interaction.InputError.invalidText.message)
    return 1
  | some line =>
    let (written, s) := Interaction.answer Expression.interpreter options line s
    output.putStr written
    serve options input output s

/-- Run a session. -/
def repl (s : ReplSettings) : IO UInt32 := do
  let options := s.options (← IO.currentDir).toString
  let output ← IO.getStdout
  output.putStr (Interaction.banner options ++ "\n")
  try
    serve options (← IO.getStdin) output .start
  catch e =>
    IO.eprintln ("Error: " ++ toString e)
    return 1

end LevelCheck.Main

/-- Run the program on the words of its command line. -/
def main (words : List String) : IO UInt32 := do
  let result ← match CommandLine.read words with
    | .ok (.repl s) => return ← Main.repl s
    | .ok (.check s) => Main.check s
    | .error e => pure (RunResult.ofUsageError e)
  (← IO.getStdout).putStr result.output
  return result.exitCode
