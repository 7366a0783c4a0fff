import LevelCheck.Symbol.Table
set_option autoImplicit false

/-! # Builtin types

Every run starts from a table with the primitive types, unqualified, and with the classes and
interfaces of the package that every file imports. -/

namespace LevelCheck

namespace Builtin

/-- The names of the primitive types. -/
def primitives : List String :=
  ["boolean", "byte", "char", "short", "int", "long", "float", "double", "void"]

/-- A name is that of a primitive type. -/
def isPrimitive (name : String) : Bool := primitives.contains name

/-- The package that every file imports. -/
def package : String := "java.lang"

/-- The class at the root of all classes. -/
def object : String := "java.lang.Object"

/-- The other builtin classes. -/
def classes : List String :=
  ["java.lang.String", "java.lang.Integer", "java.lang.Double", "java.lang.Boolean",
    "java.lang.Character", "java.lang.Math", "java.lang.System", "java.lang.Throwable",
    "java.lang.Exception", "java.lang.RuntimeException", "java.lang.Error"]

/-- The builtin interfaces. -/
def interfaces : List String :=
  ["java.lang.Runnable", "java.lang.Comparable", "java.lang.CharSequence", "java.lang.Cloneable"]

end Builtin

namespace SymbolTable

/-- Register a builtin class below the root class. -/
def addBuiltinClass (root : SymbolId) (t : SymbolTable) (name : String) : SymbolTable :=
  let (id, t) := t.addBuiltin name false
  t.modifySymbol id fun s => { s with superclass := some { name := Builtin.object, resolved := some root } }

/-- Register a builtin interface. -/
def addBuiltinInterface (t : SymbolTable) (name : String) : SymbolTable :=
  let (id, t) := t.addBuiltin name false
  t.modifySymbol id fun s => { s with isInterface := true }

/-- The table that a run starts from. -/
def seeded : SymbolTable :=
  let t := Builtin.primitives.foldl (fun t name => (t.addBuiltin name true).2) empty
  let (root, t) := t.addBuiltin Builtin.object false
  let t := Builtin.classes.foldl (addBuiltinClass root) t
  Builtin.interfaces.foldl addBuiltinInterface t

/-- The root class as a resolved supertype. -/
def objectRef (t : SymbolTable) : TypeRef :=
  { name := Builtin.object, resolved := t.lookup? Builtin.object }

end SymbolTable

end LevelCheck
