import LevelCheck.Text
import LevelCheck.Syntax.Node
set_option autoImplicit false

/-! # Symbols

Classes, methods, variables and blocks are records that refer to each other by id. An id is the
place of its record in the list of all records of that kind, so links in both directions are plain
numbers. -/

namespace LevelCheck

/-! ## Ids -/

/-- The id of a class or interface. -/
@[ext]
structure SymbolId where
  val : Nat
  deriving DecidableEq, Repr, Inhabited

/-- The id of a method or constructor. -/
@[ext]
structure MethodId where
  val : Nat
  deriving DecidableEq, Repr, Inhabited

/-- The id of a field, parameter or local variable. -/
@[ext]
structure VariableId where
  val : Nat
  deriving DecidableEq, Repr, Inhabited

/-- The id of a block. -/
@[ext]
structure BlockId where
  val : Nat
  deriving DecidableEq, Repr, Inhabited

/-- A scope that holds statements: the body of a method, or a block. -/
inductive BodyId where
  | method (id : MethodId)
  | block (id : BlockId)
  deriving DecidableEq, Repr, Inhabited

/-- A scope that can enclose a declaration. -/
inductive ScopeRef where
  | symbol (id : SymbolId)
  | method (id : MethodId)
  | block (id : BlockId)
  deriving DecidableEq, Repr, Inhabited

/-- The body as a scope. -/
def BodyId.scope : BodyId → ScopeRef
  | .method id => .method id
  | .block id => .block id

/-! ## Records -/

/-- A type as it is written, and the class it was found to name. -/
structure TypeRef where
  name : String
  resolved : Option SymbolId
  deriving DecidableEq, Repr, Inhabited

/-- A written type that has not been resolved. -/
def TypeRef.unresolved (name : String) : TypeRef := { name, resolved := none }

/-- How far the declaration of a class has been seen. -/
inductive SymbolState where
  /-- It is only referred to so far, and has no members. -/
  | placeholder
  /-- Its declaration is being visited. -/
  | visiting
  /-- Its declaration has been visited. -/
  | complete
  deriving DecidableEq, Repr, Inhabited

/-- A class or interface. -/
structure Symbol where
  /-- The qualified name, such as `p.Outer$1`. -/
  name : String
  modifiers : Nat
  isInterface : Bool
  isPrimitive : Bool
  state : SymbolState
  typeParams : List String
  superclass : Option TypeRef
  interfaces : List TypeRef
  methods : List MethodId
  fields : List VariableId
  /-- The blocks of the initializers written in the class body. -/
  initializers : List BlockId
  innerClasses : List SymbolId
  /-- The scope around an inner, local or anonymous class. -/
  outer : Option ScopeRef
  /-- How many local and anonymous classes have been numbered in it. -/
  localClasses : Nat
  deriving DecidableEq, Repr, Inhabited

namespace Symbol

/-- A class that is only referred to. -/
def placeholder (name : String) : Symbol :=
  { name, modifiers := 0, isInterface := false, isPrimitive := false, state := .placeholder
    typeParams := [], superclass := none, interfaces := [], methods := [], fields := []
    initializers := [], innerClasses := [], outer := none, localClasses := 0 }

/-- The package part of the qualified name. -/
def package (s : Symbol) : String := Text.beforeLast '.' s.name

/-- The name without its package. -/
def simpleName (s : Symbol) : String := Text.afterLast '.' s.name

/-- The name that its constructors carry: without package and enclosing classes. -/
def constructorName (s : Symbol) : String := Text.afterLast '$' s.simpleName

/-- The declaration has begun. -/
def isDeclared (s : Symbol) : Bool := s.state != .placeholder

/-- The declaration has been visited. -/
def isComplete (s : Symbol) : Bool := s.state == .complete

/-- The class has the modifier. -/
def hasModifier (s : Symbol) (m : Modifier) : Bool := m.isIn s.modifiers

end Symbol

/-- A method or constructor. Its variables are its parameters and then the variables declared in its
body outside any block. -/
structure Method where
  name : String
  modifiers : Nat
  typeParams : List String
  /-- The written return type; constructors have none. -/
  returnType : Option TypeRef
  params : List VariableId
  thrown : List TypeRef
  owner : SymbolId
  isConstructor : Bool
  vars : List VariableId
  blocks : List BlockId
  deriving DecidableEq, Repr, Inhabited

namespace Method

/-- A method of a class before anything is declared in it. -/
def declared (name : String) (owner : SymbolId) (modifiers : Nat) (typeParams : List String)
    (returnType : Option String) (throws : List String) (isConstructor : Bool) : Method :=
  { name, modifiers, typeParams, returnType := returnType.map .unresolved, params := []
    thrown := throws.map .unresolved, owner, isConstructor, vars := [], blocks := [] }

/-- The scope around the method. -/
def outer (m : Method) : ScopeRef := .symbol m.owner

/-- The method has the modifier. -/
def hasModifier (m : Method) (modifier : Modifier) : Bool := modifier.isIn m.modifiers

end Method

/-- A field, parameter or local variable. -/
structure Variable where
  name : String
  modifiers : Nat
  type : TypeRef
  hasInitializer : Bool
  enclosing : ScopeRef
  isFinal : Bool
  deriving DecidableEq, Repr, Inhabited

namespace Variable

/-- A variable as it is declared; it is final if a modifier says so. -/
def declared (name : String) (modifiers : Nat) (type : String) (hasInitializer : Bool)
    (enclosing : ScopeRef) : Variable :=
  { name, modifiers, type := .unresolved type, hasInitializer, enclosing
    isFinal := Modifier.final.isIn modifiers }

/-- Make the variable final; nothing takes this back. -/
def setFinal (v : Variable) : Variable := { v with isFinal := true }

end Variable

/-- A block in a method, in another block or in a class body. -/
structure Block where
  outer : ScopeRef
  vars : List VariableId
  blocks : List BlockId
  deriving DecidableEq, Repr, Inhabited

end LevelCheck
