import LevelCheck.Text
set_option autoImplicit false

/-! # File paths

A path is a text; what counts are its components. A repeated or final slash and a `.` that is not
the first component mean nothing, so `a//b/.` has the components of `a/b`. -/

namespace LevelCheck.Path

/-- One component of a path. -/
inductive Component where
  | root
  | current
  | parent
  | name (text : String)
  deriving DecidableEq, Repr

/-- The components of a piece between slashes; `first` tells whether the path starts with it. -/
def componentOf (first : Bool) (piece : List Char) : List Component :=
  match piece with
  | [] => []
  | ['.'] => if first then [.current] else []
  | ['.', '.'] => [.parent]
  | cs => [.name (String.ofList cs)]

/-- The components of a path. -/
def components (path : String) : List Component :=
  match Text.splitAt '/' path.toList with
  | [] => []
  | [] :: rest =>
    (if rest.isEmpty then [] else [.root]) ++ rest.flatMap (componentOf false)
  | piece :: rest => componentOf true piece ++ rest.flatMap (componentOf false)

/-- The name of the file or directory that the path leads to; none for a path that ends in `..` or
names nothing. -/
def fileName? (path : String) : Option String :=
  match (components path).getLast? with
  | some (.name text) => some text
  | _ => none

/-- What follows the last dot of the file name, unless nothing precedes that dot. -/
def extension? (path : String) : Option String := do
  let name ← fileName? path
  if !name.toList.contains '.' then none
  else if (Text.beforeLast '.' name).isEmpty then none
  else some (Text.afterLast '.' name)

/-- The path of an entry of a directory. -/
def join (directory entry : String) : String :=
  if directory.isEmpty || directory.toList.getLast? == some '/' then directory ++ entry
  else directory ++ "/" ++ entry

/-! ## Order

Paths are ordered component by component, and names by their bytes. -/

/-- The place of a component's kind in the order. -/
def Component.rank : Component → Nat
  | .root => 0
  | .current => 1
  | .parent => 2
  | .name _ => 3

/-- Order of the bytes of two texts; it agrees with the order of their code points. -/
def compareText (a b : String) : Ordering :=
  if a < b then .lt else if b < a then .gt else .eq

/-- Order of two components. -/
def Component.compare (a b : Component) : Ordering :=
  match a, b with
  | .name s, .name t => compareText s t
  | a, b => Ord.compare a.rank b.rank

/-- Order of two rows of components, a shorter row before its extensions. -/
def compareComponents : List Component → List Component → Ordering
  | [], [] => .eq
  | [], _ => .lt
  | _, [] => .gt
  | a :: as, b :: bs =>
    match a.compare b with
    | .eq => compareComponents as bs
    | order => order

/-- The first path does not come after the second. -/
def le (a b : String) : Bool := compareComponents (components a) (components b) != .gt

end LevelCheck.Path
