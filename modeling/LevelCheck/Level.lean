import LevelCheck.Path
set_option autoImplicit false

/-! # Language levels

The levels form a chain from the most restricted to the full language. A level is selected by name,
by file extension or by the extension of a file name. -/

namespace LevelCheck

/-- A language level, from most to least restricted. -/
inductive Level where
  | elementary
  | intermediate
  | advanced
  | full
  deriving DecidableEq, Repr, Inhabited

namespace Level

/-- The levels in order. -/
def all : List Level := [.elementary, .intermediate, .advanced, .full]

/-- The place of a level in the order. -/
def rank : Level → Nat
  | .elementary => 0
  | .intermediate => 1
  | .advanced => 2
  | .full => 3

/-- The name used in messages. -/
def name : Level → String
  | .elementary => "Elementary"
  | .intermediate => "Intermediate"
  | .advanced => "Advanced"
  | .full => "Full Java"

/-- The file extension that selects the level. -/
def extension : Level → String
  | .elementary => "dj0"
  | .intermediate => "dj1"
  | .advanced => "dj2"
  | .full => "java"

/-- The level has rules beyond those of the full language. -/
def isRestricted (l : Level) : Bool := l != .full

/-- The next more permissive level. -/
def next? : Level → Option Level
  | .elementary => some .intermediate
  | .intermediate => some .advanced
  | .advanced => some .full
  | .full => none

/-- The level and every more permissive one, in order. -/
def andAbove (l : Level) : List Level := all.drop l.rank

/-! ## Selecting a level -/

/-- The level that a file extension selects. -/
def ofExtension? (ext : String) : Option Level := all.find? (·.extension == ext)

/-- The level that a file name selects by its extension. -/
def forFile? (path : String) : Option Level := (Path.extension? path).bind ofExtension?

/-- The words that name a level, besides its extension. -/
def word : Level → String
  | .elementary => "elementary"
  | .intermediate => "intermediate"
  | .advanced => "advanced"
  | .full => "full"

/-- A text that names no level. -/
structure UnknownLevel where
  given : String

/-- The wording of the error. -/
def UnknownLevel.message (e : UnknownLevel) : String :=
  "unknown language level '" ++ e.given ++ "' (expected elementary, intermediate, advanced or full)"

/-- The level that a word or an extension names, in any case. -/
def parse (text : String) : Except UnknownLevel Level :=
  let lowered := Text.lowerAscii text
  match all.find? fun l => l.word == lowered || l.extension == lowered with
  | some l => .ok l
  | none => .error { given := text }

end Level

end LevelCheck
