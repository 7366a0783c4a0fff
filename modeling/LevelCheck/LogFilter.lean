import LevelCheck.Text
set_option autoImplicit false

/-! # Settings of the log

What is logged is said by filter directives, and how it is laid out by the name of a format. A bare
level in place of directives applies to the components of this program alone; all others then log
warnings. -/

namespace LevelCheck

/-- How the log is laid out. -/
inductive LogFormat where
  | text
  | tree
  | json
  deriving DecidableEq, Repr, Inhabited

/-- The format of a name, in any case; an unknown name stands for text. -/
def LogFormat.ofName (name : String) : LogFormat :=
  match Text.lowerAscii (Text.trim name) with
  | "tree" => .tree
  | "json" => .json
  | _ => .text

/-- What is logged, and how. -/
structure LogFilter where
  directives : String
  format : LogFormat
  deriving DecidableEq, Repr

namespace LogFilter

/-- The components of this program. -/
def components : List String :=
  ["llv", "llv_cli", "llv_checker", "llv_binder", "llv_syntax", "llv_common"]

/-- The levels, from the most serious on. -/
def levels : List String := ["error", "warn", "info", "debug", "trace"]

/-- Directives as they are given, except that a bare level is spelled out for each component. -/
def expand (given : String) : String :=
  let given := Text.trim given
  let level := Text.lowerAscii given
  if levels.contains level then
    Text.joinWith "," ("warn" :: components.map fun c => c ++ "=" ++ level)
  else given

/-- The settings made by the program's own directives, by common ones, which are taken as they are,
and by the name of a format. There are none if no directives are given; the program's own come
first. -/
def ofSettings (own common format : Option String) : Option LogFilter := do
  let directives ← match own, common with
    | some own, _ => some (expand own)
    | none, some common => some (Text.trim common)
    | none, none => none
  some { directives, format := (format.map LogFormat.ofName).getD .text }

end LogFilter

end LevelCheck
