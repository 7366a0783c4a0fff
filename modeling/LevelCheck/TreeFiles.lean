import LevelCheck.Analysis
import LevelCheck.FileTree
import LevelCheck.Syntax.Decode
set_option autoImplicit false

/-! # Checking tree files

Syntax trees are stored in files. A file named as an input is taken as it is, and a directory stands
for the tree files below it, in the order of their paths. All of them are loaded before any of them
is checked, and the first one that cannot be loaded ends the run. -/

namespace LevelCheck

/-- What an input path leads to. -/
inductive Input where
  /-- Something that is read as a file, whether that works or not. -/
  | file (content : Except FileError String)
  | directory (tree : FileTree)

/-- A file that is to be loaded. -/
structure TreeFile where
  path : String
  content : Except FileError String

namespace TreeFile

/-! ## Discovering -/

/-- The file extension of stored trees. -/
def extension : String := "json"

/-- The tree files at or below a directory, in the order of their paths. -/
def below (path : String) (tree : FileTree) : List TreeFile :=
  let found := (tree.filesAt path).filter fun f => Path.extension? f.1 == some extension
  (found.mergeSort fun a b => Path.le a.1 b.1).map fun f =>
    { path := f.1, content := FileTree.textOf f.2 }

/-- The files that an input stands for. -/
def ofInput (path : String) : Input → List TreeFile
  | .file content => [{ path, content }]
  | .directory tree => below path tree

/-- The files that inputs stand for, input by input. -/
def discover (inputs : List (String × Input)) : List TreeFile :=
  inputs.flatMap fun i => ofInput i.1 i.2

end TreeFile

/-- What a path leads to in a file tree. -/
def FileTree.input (tree : FileTree) (path : String) : Input :=
  match tree.find path with
  | .ok (.directory entries) => .directory (.directory entries)
  | .ok (.file content) => .file (textOf content)
  | .error e => .file (.error e)

/-! ## Loading -/

/-- Why a tree file cannot be loaded. -/
inductive LoadError where
  | unreadable (path : String) (error : FileError)
  | notATree (path : String)
  deriving DecidableEq, Repr

namespace LoadError

/-- The file that cannot be loaded. -/
def path : LoadError → String
  | .unreadable path _ => path
  | .notATree path => path

/-- The wording of the error; what is wrong with the text of a tree is left open. -/
def message : LoadError → String
  | .unreadable path e => "cannot read " ++ path ++ ": " ++ e.message
  | .notATree path => path ++ " is not a valid syntax tree: "

end LoadError

/-- Load the tree of a file. -/
def TreeFile.load (f : TreeFile) : Except LoadError SyntaxTree :=
  match f.content with
  | .error e => .error (.unreadable f.path e)
  | .ok text =>
    match SyntaxTree.ofText? text with
    | some tree => .ok tree
    | none => .error (.notATree f.path)

/-! ## Checking -/

/-- Why files are not checked. -/
inductive CheckError where
  | noTrees
  | load (error : LoadError)
  deriving DecidableEq, Repr

/-- The wording of the error. -/
def CheckError.message : CheckError → String
  | .noTrees => "no syntax trees found"
  | .load e => "failed to load " ++ e.path

/-- The files that were checked, and what was found. -/
structure CheckedFiles where
  paths : List String
  analysis : Analysis

/-- Load files and check them as one batch, at one level if it is given. -/
def CheckedFiles.ofFiles (level : Option Level) (options : Options) (files : List TreeFile) :
    Except CheckError CheckedFiles := do
  if files.isEmpty then throw .noTrees
  let units ← files.mapM fun f => do
    let tree ← f.load.mapError CheckError.load
    pure <| match level with
      | some level => { tree, level }
      | none => SourceUnit.ofTree tree
  pure { paths := files.map (·.path), analysis := .ofUnits units options }

end LevelCheck
