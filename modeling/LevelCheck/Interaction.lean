import LevelCheck.Expression.Session
set_option autoImplicit false

/-! # Interactive sessions

A session reads its input line by line, hands each line to an interpreter and writes what became of
it. Someone who types gets a prompt before each line; a batch of lines is echoed behind the prompt
instead. No line ends a session, whatever became of it, except one that is not text. -/

namespace LevelCheck

/-- A failure of the interpreter itself, and what caused it, from the outside in. -/
structure Fault where
  message : String
  causes : List String
  deriving DecidableEq, Repr

/-- What became of a line. -/
inductive Reply where
  | value (text : String)
  | nothing
  /-- The line is wrong. -/
  | refused (message : String)
  /-- The interpreter is. -/
  | fault (fault : Fault)
  /-- The interpreter gave up; it may have said why. -/
  | crash (message : Option String)
  deriving DecidableEq, Repr

/-- Something that answers lines, and keeps a state of its own between them. -/
structure Interpreter (σ : Type) where
  interpret : String → σ → Reply × σ

namespace Fault

/-- A text whose first line follows `opening`, and whose other lines are indented. -/
def indented (opening indent s : String) : String :=
  opening ++ Text.joinWith ("\n" ++ indent) ((Text.splitAt '\n' s.toList).map String.ofList)

/-- The causes, each on lines of its own. They are numbered from zero if there are several. -/
def causeTexts : List String → List String
  | [single] => [indented "    " "    " single]
  | causes => causes.mapIdx fun n cause =>
      indented (Text.padStart 5 (toString n) ++ ": ") "       " cause

/-- The fault with its causes. -/
def text (f : Fault) : String :=
  match f.causes with
  | [] => f.message
  | causes => f.message ++ "\n\nCaused by:\n" ++ Text.joinWith "\n" (causeTexts causes)

end Fault

namespace Interaction

/-! ## Options -/

/-- The options of a session. -/
structure Options where
  /-- Where classes are looked for. -/
  classPath : List String
  /-- Lines are echoed rather than prompted for. -/
  batch : Bool
  workingDirectory : String
  deriving DecidableEq, Repr

/-- The options of a session in a directory, which is also its class path. -/
def Options.inDirectory (directory : String) : Options :=
  { classPath := [directory], batch := false, workingDirectory := directory }

/-! ## What is written -/

/-- What stands in front of a line. -/
def prompt : String := "> "

/-- What precedes the report of a fault. -/
def faultBanner : String := "INTERNAL ERROR: Uncaught exception"

/-- What a session starts with. -/
def banner (options : Options) : String :=
  "Welcome to the llv interactions pane.\nWorking directory is " ++ options.workingDirectory

end Interaction

/-- What is written for a reply. -/
def Reply.text : Reply → String
  | .value s => s ++ "\n"
  | .nothing => ""
  | .refused message => message ++ "\n"
  | .fault f => Interaction.faultBanner ++ "\n" ++ f.text ++ "\n"
  | .crash message =>
    Interaction.faultBanner ++ "\npanicked: " ++ message.getD "unknown panic" ++ "\n"

namespace Interaction

/-- What is written before a line is read. -/
def opening (options : Options) : String := if options.batch then "" else prompt

/-- What is written once a line has been read. -/
def echo (options : Options) (line : String) : String :=
  if options.batch then prompt ++ line ++ "\n" else ""

/-! ## Lines -/

/-- The lines of an input with the breaks that end them; the last line may have none. -/
def splitLines : List UInt8 → List (List UInt8)
  | [] => []
  | b :: rest =>
    if b = 10 then [b] :: splitLines rest
    else
      match splitLines rest with
      | [] => [[b]]
      | line :: lines => (b :: line) :: lines

/-- A line without the characters that break lines at its end. -/
def withoutBreak (line : String) : String :=
  String.ofList (Text.dropEndWhile (fun c => c == '\n' || c == '\r') line.toList)

/-- The text of the bytes of a line, if they encode one. -/
def lineText? (bytes : List UInt8) : Option String :=
  (String.fromUTF8? ⟨bytes.toArray⟩).map withoutBreak

/-! ## Running -/

/-- Why a session ends before its input does. -/
inductive InputError where
  | invalidText
  deriving DecidableEq, Repr

/-- The wording of the error. -/
def InputError.message : InputError → String
  | .invalidText => "stream did not contain valid UTF-8"

/-- What a session wrote, why it ended early if it did, and the interpreter's state at its end. -/
structure Transcript (σ : Type) where
  output : String
  error : Option InputError
  state : σ

/-- Answer a line: what is written, and the interpreter's state. -/
def answer {σ : Type} (i : Interpreter σ) (options : Options) (line : String) (s : σ) : String × σ :=
  let (reply, s) := i.interpret line s
  (echo options line ++ reply.text, s)

/-- Run a session on the lines of its input. -/
def runLines {σ : Type} (i : Interpreter σ) (options : Options) : List (List UInt8) → σ → Transcript σ
  | [], s => { output := opening options, error := none, state := s }
  | bytes :: rest, s =>
    match lineText? bytes with
    | none => { output := opening options, error := some .invalidText, state := s }
    | some line =>
      let (written, s) := answer i options line s
      let later := runLines i options rest s
      { later with output := opening options ++ written ++ later.output }

/-- Run a session on its whole input. -/
def run {σ : Type} (i : Interpreter σ) (options : Options) (input : List UInt8) (s : σ) :
    Transcript σ :=
  let lines := runLines i options (splitLines input) s
  { lines with output := banner options ++ "\n" ++ lines.output }

end Interaction

namespace Expression

/-- What became of a line that was evaluated. -/
def replyOf : Except Failure (Option Value) → Reply
  | .ok (some v) => .value v.text
  | .ok none => .nothing
  | .error (.error e) => .refused e.message
  | .error .nestedTooDeeply => .fault { message := nestingMessage, causes := [] }

/-- The interpreter of expressions. -/
def interpreter : Interpreter Session where
  interpret line s :=
    let (result, s) := s.evaluate line
    (replyOf result, s)

end Expression

end LevelCheck
