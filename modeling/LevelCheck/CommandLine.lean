import LevelCheck.Context
set_option autoImplicit false

/-! # The command line

The first word names a command, and the words after it are its options and operands. An option is
written `--name`, with its value in the next word or after `=`, or as a single letter if it takes no
value; letters may be joined behind one dash. After `--` every word is an operand.

Reading goes word by word. The value of an option that comes in a word of its own, and operands, are
examined only when the next option or operand follows or the words end; an option that is not known
is refused at once, before what stands in front of it is examined. -/

namespace LevelCheck

/-- What a text of help is about. -/
inductive HelpTopic where
  | program
  | check (brief : Bool)
  | repl
  | help
  deriving DecidableEq, Repr

/-- Why a command line leads to no command. -/
inductive UsageError where
  | noCommand
  | unknownCommand
  | unknownArgument
  | missingInput
  /-- A value is missing, empty or not among those possible. -/
  | badValue
  /-- A value is not a number in range. -/
  | badNumber
  | repeatedOption
  /-- A value is given where none is taken. -/
  | unneededValue
  /-- Help is asked for. -/
  | help (topic : HelpTopic)
  /-- The version is asked for. -/
  | version
  deriving DecidableEq, Repr

namespace CommandLine

/-! ## Words -/

/-- What a word looks like. -/
inductive Word where
  | separator
  | long (name : String) (value : Option String)
  | short (letters : List Char)
  | plain
  deriving DecidableEq, Repr

/-- What a word looks like. A single dash is no option. -/
def Word.of (word : String) : Word :=
  match word.toList with
  | ['-', '-'] => .separator
  | '-' :: '-' :: body =>
    match Text.cutFirst? '=' (String.ofList body) with
    | some (name, value) => .long name (some value)
    | none => .long (String.ofList body) none
  | '-' :: c :: letters => .short (c :: letters)
  | _ => .plain

/-! ## Options and operands -/

/-- The options and operands of a command: `α` names its options, and `σ` holds what they say. -/
structure Grammar (α σ : Type) where
  long? : String → Option α
  short? : Char → Option α
  takesValue : α → Bool
  /-- Use an option without a value. -/
  flag : α → σ → Except UsageError σ
  /-- Use an option with a value. -/
  value : α → String → σ → Except UsageError σ
  /-- Use operands; none for a command that has no operands. -/
  operands : Option (List String → σ → Except UsageError σ)

/-- What has been read but not examined. -/
inductive Waiting (α : Type) where
  | nothing
  /-- An option whose value is the next word. -/
  | valueOf (option : α)
  | option (option : α) (value : String)
  | operands (words : List String)

/-- How far the words of a command have been read. -/
structure Reading (α σ : Type) where
  settings : σ
  used : List α
  waiting : Waiting α
  /-- Every further word is an operand. -/
  literal : Bool

namespace Reading

variable {α σ : Type} [DecidableEq α]

/-- Use an option with its value. An option can be used once. -/
def use (g : Grammar α σ) (option : α) (value : String) (r : Reading α σ) :
    Except UsageError (Reading α σ) :=
  if option ∈ r.used then .error .repeatedOption
  else (g.value option value r.settings).map fun settings =>
    { r with settings, used := option :: r.used }

/-- Examine what is waiting. -/
def settle (g : Grammar α σ) (r : Reading α σ) : Except UsageError (Reading α σ) :=
  let r' := { r with waiting := .nothing }
  match r.waiting with
  | .nothing => .ok r
  | .valueOf _ => .error .badValue
  | .option option value => r'.use g option value
  | .operands words =>
    match g.operands with
    | none => .error .unknownArgument
    | some accept => (accept words r.settings).map fun settings => { r' with settings }

/-- Read an option without a value. -/
def readFlag (g : Grammar α σ) (option : α) (r : Reading α σ) : Except UsageError (Reading α σ) := do
  let r ← r.settle g
  if option ∈ r.used then .error .repeatedOption
  else
    let settings ← g.flag option r.settings
    pure { r with settings, used := option :: r.used }

/-- Read an option by its full name. -/
def readLong (g : Grammar α σ) (name : String) (value : Option String) (r : Reading α σ) :
    Except UsageError (Reading α σ) :=
  match g.long? name with
  | none => .error .unknownArgument
  | some option =>
    if g.takesValue option then do
      let r ← r.settle g
      match value with
      | some value => r.use g option value
      | none => pure { r with waiting := .valueOf option }
    else if value.isSome then .error .unneededValue
    else r.readFlag g option

/-- Read options by their letters; such options take no value. -/
def readLetters (g : Grammar α σ) : List Char → Reading α σ → Except UsageError (Reading α σ)
  | [], r => .ok r
  | c :: rest, r =>
    match g.short? c with
    | none => .error .unknownArgument
    | some option => do
      let r ← r.readFlag g option
      readLetters g rest r

/-- Read an operand. -/
def readOperand (g : Grammar α σ) (word : String) (r : Reading α σ) :
    Except UsageError (Reading α σ) :=
  if g.operands.isNone then .error .unknownArgument
  else
    match r.waiting with
    | .operands words => .ok { r with waiting := .operands (words ++ [word]) }
    | _ => do
      let r ← r.settle g
      pure { r with waiting := .operands [word] }

/-- Read a word. -/
def readWord (g : Grammar α σ) (word : String) (r : Reading α σ) :
    Except UsageError (Reading α σ) :=
  if r.literal then r.readOperand g word
  else
    match Word.of word, r.waiting with
    | .separator, _ => .ok { r with literal := true }
    | .long name value, _ => r.readLong g name value
    | .short letters, _ => r.readLetters g letters
    | .plain, .valueOf option => .ok { r with waiting := .option option word }
    | .plain, _ => r.readOperand g word

end Reading

/-- What the words of a command say, starting from settings that hold if they say nothing. -/
def Grammar.read {α σ : Type} [DecidableEq α] (g : Grammar α σ) (settings : σ)
    (words : List String) : Except UsageError σ := do
  let start : Reading α σ := { settings, used := [], waiting := .nothing, literal := false }
  let r ← words.foldlM (fun r word => r.readWord g word) start
  let r ← r.settle g
  pure r.settings

/-! ## Values -/

/-- A number below `2 ^ 32`; a sign and leading zeros may be written. -/
def number? (word : String) : Option UInt32 :=
  let (negative, digits) := match word.toList with
    | '-' :: rest => (true, rest)
    | '+' :: rest => (false, rest)
    | rest => (false, rest)
  let n := digits.foldl (fun n c => 10 * n + (c.toNat - '0'.toNat)) 0
  if digits.isEmpty || !digits.all Char.isDigit then none
  else if (negative && n != 0) || UInt32.size ≤ n then none
  else some n.toUInt32

end CommandLine

/-! ## Checking -/

/-- How diagnostics are written. -/
inductive OutputFormat where
  | text
  | json
  deriving DecidableEq, Repr, Inhabited

/-- What is to be checked, and how. -/
structure CheckSettings where
  inputs : List String
  /-- The level of all files, if it is not that of their names. -/
  level : Option Level
  format : OutputFormat
  noColor : Bool
  duplicateScope : DuplicateScope
  maxDepth : Option UInt32
  deriving DecidableEq, Repr

namespace CheckSettings

/-- The settings that hold unless an option says otherwise. -/
def usual : CheckSettings :=
  { inputs := [], level := none, format := .text, noColor := false, duplicateScope := .immediate
    maxDepth := none }

/-- The options of the run. -/
def options (s : CheckSettings) : Options :=
  { duplicateScope := s.duplicateScope
    maxDepth := (s.maxDepth.map (·.toNat)).getD Options.usualDepth }

end CheckSettings

namespace CommandLine

/-- An option of the command that checks. -/
inductive CheckOption where
  | level
  | format
  | duplicateScope
  | maxDepth
  | noColor
  | briefHelp
  | fullHelp
  deriving DecidableEq, Repr

/-- Use the value of an option of the command that checks. -/
def checkValue (option : CheckOption) (value : String) (s : CheckSettings) :
    Except UsageError CheckSettings :=
  match option with
  | .level =>
    match Level.parse value with
    | .ok level => .ok { s with level := some level }
    | .error _ => .error .badValue
  | .format =>
    if value = "text" then .ok { s with format := .text }
    else if value = "json" then .ok { s with format := .json }
    else .error .badValue
  | .duplicateScope =>
    if value = "immediate" then .ok { s with duplicateScope := .immediate }
    else if value = "enclosing" then .ok { s with duplicateScope := .enclosingBodies }
    else .error .badValue
  | .maxDepth =>
    match number? value with
    | some n => .ok { s with maxDepth := some n }
    | none => .error .badNumber
  | _ => .ok s

/-- Use an option of the command that checks, without a value. -/
def checkFlag (option : CheckOption) (s : CheckSettings) : Except UsageError CheckSettings :=
  match option with
  | .noColor => .ok { s with noColor := true }
  | .briefHelp => .error (.help (.check true))
  | .fullHelp => .error (.help (.check false))
  | _ => .ok s

/-- Use the inputs of the command that checks; none may be empty. -/
def checkInputs (inputs : List String) (s : CheckSettings) : Except UsageError CheckSettings :=
  if inputs.any (·.isEmpty) then .error .badValue
  else .ok { s with inputs := s.inputs ++ inputs }

/-- The options and operands of the command that checks. -/
def checkGrammar : Grammar CheckOption CheckSettings where
  long? name :=
    [("level", .level), ("format", .format), ("duplicate-scope", .duplicateScope),
      ("max-depth", .maxDepth), ("no-color", .noColor), ("help", .fullHelp)].lookup name
  short? letter := if letter == 'h' then some .briefHelp else none
  takesValue option := [.level, .format, .duplicateScope, .maxDepth].contains option
  flag := checkFlag
  value := checkValue
  operands := some checkInputs

end CommandLine

/-! ## Interactive sessions -/

/-- How an interactive session is run. -/
structure ReplSettings where
  classPath : Option String
  batch : Bool
  deriving DecidableEq, Repr

/-- The entries of the class path, between colons and semicolons. -/
def ReplSettings.entries (s : ReplSettings) : List String :=
  match s.classPath with
  | none => []
  | some path =>
    let pieces := (Text.splitAt ':' path.toList).flatMap (Text.splitAt ';')
    (pieces.filter fun piece => !piece.isEmpty).map String.ofList

namespace CommandLine

/-- An option of the command that runs a session. -/
inductive ReplOption where
  | classPath
  | batch
  | help
  deriving DecidableEq, Repr

/-- The options of the command that runs a session; it has no operands. -/
def replGrammar : Grammar ReplOption ReplSettings where
  long? name :=
    [("classpath", .classPath), ("cp", .classPath), ("batch", .batch), ("help", .help)].lookup name
  short? letter := [('b', .batch), ('h', .help)].lookup letter
  takesValue option := option == .classPath
  flag option s :=
    match option with
    | .batch => .ok { s with batch := true }
    | .help => .error (.help .repl)
    | .classPath => .ok s
  value _ path s := .ok { s with classPath := some path }
  operands := none

end CommandLine

/-! ## Commands -/

/-- What a command line asks for. -/
inductive Command where
  | check (settings : CheckSettings)
  | repl (settings : ReplSettings)
  deriving DecidableEq, Repr

namespace CommandLine

/-- The words that name commands. -/
def commandNames : List String := ["check", "repl", "help"]

/-- The command that checks, from the words after its name. -/
def readCheck (words : List String) : Except UsageError Command := do
  let settings ← checkGrammar.read .usual words
  if settings.inputs.isEmpty then .error .missingInput else pure (.check settings)

/-- The command that runs a session, from the words after its name. -/
def readRepl (words : List String) : Except UsageError Command := do
  let settings ← replGrammar.read { classPath := none, batch := false } words
  pure (.repl settings)

/-- What help is asked for by the words after the word for it. -/
def helpFor : List String → UsageError
  | [] => .help .program
  | ["check"] => .help (.check false)
  | ["repl"] => .help .repl
  | ["help"] => .help .help
  | _ => .unknownCommand

/-- What the letters of a first word ask for. -/
def programLetters : List Char → UsageError
  | 'h' :: _ => .help .program
  | 'V' :: _ => .version
  | _ => .unknownArgument

/-- What an option in place of a command asks for. -/
def programOption (name : String) (value : Option String) : UsageError :=
  if name = "help" ∨ name = "version" then
    if value.isSome then .unneededValue
    else if name = "help" then .help .program
    else .version
  else .unknownArgument

/-- The command of a command line without the name of the program. -/
def read : List String → Except UsageError Command
  | [] => .error .noCommand
  | "check" :: words => readCheck words
  | "repl" :: words => readRepl words
  | "help" :: words => .error (helpFor words)
  | first :: rest =>
    match Word.of first with
    | .separator =>
      match rest with
      | [] => .error .noCommand
      | word :: _ => .error (if commandNames.contains word then .unknownArgument else .unknownCommand)
    | .long name value => .error (programOption name value)
    | .short letters => .error (programLetters letters)
    | .plain => .error .unknownCommand

end CommandLine

end LevelCheck
