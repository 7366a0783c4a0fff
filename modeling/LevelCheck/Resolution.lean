import LevelCheck.FileScope
set_option autoImplicit false

/-! # Resolving type names

A written type name may denote any of several qualified names. They are tried in this order: the
classes around the reference and their members, the types of the file, the types it imports one by
one, its package, the packages it imports as a whole, and last the name itself as a qualified one. A
dotted name is a qualified name, or a member of a type of the file. -/

namespace LevelCheck

/-- A written type without type arguments and array brackets. -/
def baseTypeName (written : String) : String :=
  Text.trim (String.ofList (written.toList.takeWhile fun c => c != '<' && c != '['))

/-- What a type name resolves to. -/
inductive Resolution where
  /-- A class whose declaration has at least begun. -/
  | found (id : SymbolId)
  /-- No class yet: the name to wait for, and the other names it may turn out to be. -/
  | pending (key : String) (alternatives : List String)
  deriving DecidableEq, Repr

namespace Resolution

/-- The member class of a class by its simple name. -/
def memberName (outer simple : String) : String := outer ++ "$" ++ simple

/-- The names that a simple name may denote on account of one class around it. -/
def classCandidates (t : SymbolTable) (name : String) (id : SymbolId) : List String :=
  let s := t.symbol id
  (if s.simpleName = name then [s.name] else []) ++ [memberName s.name name]

/-- The names that a simple name may denote, in order. -/
def simpleCandidates (t : SymbolTable) (f : FileScope) (enclosing : Option SymbolId)
    (name : String) : List String :=
  let around := match enclosing with
    | some id => t.enclosingClasses id
    | none => []
  around.flatMap (classCandidates t name) ++ (f.class? name).toList ++
    f.imports.filter (fun i => Text.afterLast '.' i == name) ++ [f.qualify name] ++
    f.importedPackages.map (fun p => p ++ "." ++ name) ++ [name]

/-- The names that a dotted name may denote, in order. -/
def dottedCandidates (f : FileScope) (name : String) : List String :=
  name ::
    match Text.cutFirst? '.' name with
    | some (head, rest) =>
      match f.class? head with
      | some outer => [memberName outer (Text.replace "." "$" rest)]
      | none => []
    | none => []

/-- The name is dotted. -/
def isDotted (name : String) : Bool := name.toList.contains '.'

/-- The names that a type name may denote, in order and without repetition. -/
def candidates (t : SymbolTable) (f : FileScope) (enclosing : Option SymbolId) (name : String) :
    List String :=
  (if isDotted name then dottedCandidates f name else simpleCandidates t f enclosing name).eraseDups

/-- The names that a name without arguments and brackets is tried as, in order: the name of a
primitive type that is known is tried as that type only. -/
def names (t : SymbolTable) (f : FileScope) (enclosing : Option SymbolId) (name : String) :
    List String :=
  if Builtin.isPrimitive name && (t.lookup? name).isSome then [name]
  else candidates t f enclosing name

/-- The name to wait for when no candidate is declared yet: a dotted name itself, the type imported
by that name, or else the type of the file's package. -/
def waitingName (f : FileScope) (name : String) : String :=
  if isDotted name then name
  else
    match f.imports.find? fun i => Text.afterLast '.' i == name with
    | some i => i
    | none => f.qualify name

/-- The first candidate that is declared, or else what to wait for. -/
def ofCandidates (t : SymbolTable) (f : FileScope) (enclosing : Option SymbolId) (name : String) :
    Resolution :=
  let names := candidates t f enclosing name
  match names.findSome? t.lookupDeclared? with
  | some id => .found id
  | none =>
    let key := waitingName f name
    .pending key (names.filter (· != key))

/-- What a type name without arguments and brackets resolves to, when it is written in a file within
a class. The names of primitive types come before all others. -/
def ofName (t : SymbolTable) (f : FileScope) (enclosing : Option SymbolId) (name : String) :
    Resolution :=
  if Builtin.isPrimitive name then
    match t.lookup? name with
    | some id => .found id
    | none => ofCandidates t f enclosing name
  else ofCandidates t f enclosing name

end Resolution

end LevelCheck
