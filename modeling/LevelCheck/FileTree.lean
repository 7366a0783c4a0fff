import LevelCheck.Path
set_option autoImplicit false

/-! # Files and directories

A file tree holds the files below a directory. A path leads through it piece by piece: every piece
but the last, and the last one too if a slash follows it, has to name a directory. -/

namespace LevelCheck

/-- Why a file cannot be read. -/
inductive FileError where
  | notFound
  | notDirectory
  | isDirectory
  | nameTooLong
  | badName
  | notText
  | other (message : String)
  deriving DecidableEq, Repr

/-- The wording of the error. -/
def FileError.message : FileError → String
  | .notFound => "No such file or directory (os error 2)"
  | .notDirectory => "Not a directory (os error 20)"
  | .isDirectory => "Is a directory (os error 21)"
  | .nameTooLong => "File name too long (os error 36)"
  | .badName => "file name contained an unexpected NUL byte"
  | .notText => "stream did not contain valid UTF-8"
  | .other message => message

/-- A file, or a directory with its entries. -/
inductive FileTree where
  | file (content : ByteArray)
  | directory (entries : List (String × FileTree))
  deriving Inhabited

namespace FileTree

/-- A directory without entries. -/
def empty : FileTree := .directory []

/-- The text of a file's content. -/
def textOf (content : ByteArray) : Except FileError String :=
  match String.fromUTF8? content with
  | some s => .ok s
  | none => .error .notText

/-! ## Following paths -/

/-- How many bytes a name may have. -/
def maxNameBytes : Nat := 255

/-- How many bytes a path may have. -/
def maxPathBytes : Nat := 4095

/-- Follow the pieces of a path from a directory inside the given ones, the innermost first. What
lies outside the outermost is not known. -/
def follow : List String → FileTree → List FileTree → Except FileError FileTree
  | [], here, _ => .ok here
  | piece :: rest, here, around =>
    match here with
    | .file _ => .error .notDirectory
    | .directory entries =>
      if piece = "" ∨ piece = "." then follow rest here around
      else if piece = ".." then
        match around with
        | [] => .error .notFound
        | outer :: around => follow rest outer around
      else if maxNameBytes < piece.utf8ByteSize then .error .nameTooLong
      else
        match entries.find? (·.1 == piece) with
        | none => .error .notFound
        | some (_, inner) => follow rest inner (here :: around)

/-- The file or directory that a path leads to. -/
def find (tree : FileTree) (path : String) : Except FileError FileTree :=
  if path.toList.contains '\x00' then .error .badName
  else if path.isEmpty ∨ path.toList.head? = some '/' then .error .notFound
  else if maxPathBytes < path.utf8ByteSize then .error .nameTooLong
  else follow ((Text.splitAt '/' path.toList).map String.ofList) tree []

/-- The text of the file that a path leads to. -/
def readText (tree : FileTree) (path : String) : Except FileError String := do
  match ← tree.find path with
  | .file content => textOf content
  | .directory _ => .error .isDirectory

/-! ## Listing -/

mutual
/-- The files at or below a path, each with its own path and content. -/
def filesAt (path : String) : FileTree → List (String × ByteArray)
  | .file content => [(path, content)]
  | .directory entries => filesIn path entries
/-- The files below the entries of a directory. -/
def filesIn (path : String) : List (String × FileTree) → List (String × ByteArray)
  | [] => []
  | (name, inner) :: rest => filesAt (Path.join path name) inner ++ filesIn path rest
end

/-! ## Building -/

/-- Put a file or directory at a path, given piece by piece, and make the directories that lead to
it. -/
def place (item : FileTree) : List String → FileTree → FileTree
  | [], _ => item
  | piece :: rest, here =>
    let entries := match here with
      | .directory entries => entries
      | .file _ => []
    let inner := match entries.find? (·.1 == piece) with
      | some (_, inner) => inner
      | none => empty
    .directory (entries.filter (·.1 != piece) ++ [(piece, place item rest inner)])

end FileTree

end LevelCheck
