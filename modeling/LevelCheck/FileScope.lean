import LevelCheck.Level
import LevelCheck.Symbol.Builtin
set_option autoImplicit false

/-! # The names of a file

Each file of a run has its own names: its package, its imports and the types it declares at its top
level. -/

namespace LevelCheck

/-- The place of a file in its run. -/
structure FileId where
  val : Nat
  deriving DecidableEq, Repr, Inhabited

/-- A file of a run, with the names that are known in it. -/
structure FileScope where
  id : FileId
  name : String
  level : Level
  /-- Empty for the package without a name. -/
  package : String
  /-- The types imported one by one, by qualified name. -/
  imports : List String
  /-- The packages imported as a whole. -/
  importedPackages : List String
  /-- The types declared at the top level: their simple and qualified names. -/
  classes : List (String × String)
  deriving DecidableEq, Repr, Inhabited

namespace FileScope

/-- A file before its header has been read. -/
def start (id : FileId) (name : String) (level : Level) : FileScope :=
  { id, name, level, package := "", imports := [], importedPackages := [Builtin.package]
    classes := [] }

/-- The qualified name of a type at the top level of the file. -/
def qualify (f : FileScope) (simple : String) : String :=
  if f.package.isEmpty then simple else f.package ++ "." ++ simple

/-- Add an import; a package is imported as a whole at most once. -/
def addImport (f : FileScope) (i : ImportDecl) : FileScope :=
  if i.onDemand then
    if f.importedPackages.contains i.name then f
    else { f with importedPackages := f.importedPackages ++ [i.name] }
  else { f with imports := f.imports ++ [i.name] }

/-- Read the header of the file. -/
def recordHeader (f : FileScope) (package : Option String) (imports : List ImportDecl) :
    FileScope :=
  imports.foldl addImport { f with package := package.getD "" }

/-- Declare a type at the top level; a later declaration of a simple name replaces an earlier one. -/
def declareClass (f : FileScope) (simple : String) : FileScope :=
  { f with classes := f.classes.filter (·.1 != simple) ++ [(simple, f.qualify simple)] }

/-- The qualified name of a type declared at the top level. -/
def class? (f : FileScope) (simple : String) : Option String :=
  (f.classes.find? (·.1 == simple)).map (·.2)

end FileScope

end LevelCheck
