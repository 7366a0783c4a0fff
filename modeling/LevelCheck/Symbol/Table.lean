import LevelCheck.Symbol.Basic
set_option autoImplicit false

/-! # The symbol table

The table holds the records of all classes, methods, variables and blocks. A qualified name denotes
the latest class that carries it, so the names need no index of their own: no operation renames a
class, and only registering a builtin can use a name a second time.

Ids are positions among the records, and the local and anonymous classes of a class are numbered from
one. Both are natural numbers here: all counts are taken to stay below `2 ^ 32`, so that they would fit
into 32 bits. -/

namespace LevelCheck

/-- The scopes whose variables a new local variable must not repeat. -/
inductive DuplicateScope where
  /-- The body that declares it. -/
  | immediate
  /-- That body and every body around it, up to the method's. -/
  | enclosingBodies
  deriving DecidableEq, Repr, Inhabited

/-- What a declaration of variables led to. -/
structure Declared where
  ids : List VariableId
  /-- The names that collided, each once, in the order of their first collision. -/
  duplicates : List String
  deriving DecidableEq, Repr, Inhabited

/-- The records of a run. -/
structure SymbolTable where
  symbols : Array Symbol
  methods : Array Method
  vars : Array Variable
  blocks : Array Block
  deriving DecidableEq, Repr, Inhabited

namespace SymbolTable

/-- A table without records. -/
def empty : SymbolTable := { symbols := #[], methods := #[], vars := #[], blocks := #[] }

/-- The number of classes. -/
def size (t : SymbolTable) : Nat := t.symbols.size

/-! ## Access

An id of the table has its record; any other reads as an empty record and is never written. -/

/-- The record of a class. -/
def symbol (t : SymbolTable) (id : SymbolId) : Symbol := t.symbols.getD id.val default

/-- The record of a method. -/
def method (t : SymbolTable) (id : MethodId) : Method := t.methods.getD id.val default

/-- The record of a variable. -/
def var (t : SymbolTable) (id : VariableId) : Variable := t.vars.getD id.val default

/-- The record of a block. -/
def block (t : SymbolTable) (id : BlockId) : Block := t.blocks.getD id.val default

/-- Change the record of a class. -/
def modifySymbol (t : SymbolTable) (id : SymbolId) (f : Symbol → Symbol) : SymbolTable :=
  { t with symbols := t.symbols.modify id.val f }

/-- Change the record of a method. -/
def modifyMethod (t : SymbolTable) (id : MethodId) (f : Method → Method) : SymbolTable :=
  { t with methods := t.methods.modify id.val f }

/-- Change the record of a variable. -/
def modifyVariable (t : SymbolTable) (id : VariableId) (f : Variable → Variable) : SymbolTable :=
  { t with vars := t.vars.modify id.val f }

/-- Change the record of a block. -/
def modifyBlock (t : SymbolTable) (id : BlockId) (f : Block → Block) : SymbolTable :=
  { t with blocks := t.blocks.modify id.val f }

/-! ## Names -/

/-- The latest of the first `n` classes that carries the name. -/
def lookupBelow (t : SymbolTable) (name : String) : Nat → Option SymbolId
  | 0 => none
  | n + 1 => if (t.symbol ⟨n⟩).name = name then some ⟨n⟩ else t.lookupBelow name n

/-- The class that a qualified name denotes. -/
def lookup? (t : SymbolTable) (name : String) : Option SymbolId := t.lookupBelow name t.size

/-- The class that a qualified name denotes, if its declaration has been visited. -/
def lookupComplete? (t : SymbolTable) (name : String) : Option SymbolId :=
  (t.lookup? name).filter fun id => (t.symbol id).isComplete

/-- The class that a qualified name denotes, if its declaration has at least begun. -/
def lookupDeclared? (t : SymbolTable) (name : String) : Option SymbolId :=
  (t.lookup? name).filter fun id => (t.symbol id).isDeclared

/-- The qualified names, in the order in which they were first used. -/
def names (t : SymbolTable) : List String := (t.symbols.toList.map (·.name)).eraseDups

/-- The classes that the names denote, in the order of the names. -/
def ids (t : SymbolTable) : List SymbolId := t.names.filterMap t.lookup?

/-! ## Classes -/

/-- Append a class. -/
def addSymbol (t : SymbolTable) (s : Symbol) : SymbolId × SymbolTable :=
  (⟨t.size⟩, { t with symbols := t.symbols.push s })

/-- The class that a name denotes, with a placeholder for a name not used before. -/
def getOrAddPlaceholder (t : SymbolTable) (name : String) : SymbolId × SymbolTable :=
  match t.lookup? name with
  | some id => (id, t)
  | none => t.addSymbol (.placeholder name)

/-- Begin the declaration of a name, reusing its placeholder. A name whose declaration has begun
already is refused, with the class that has it. -/
def beginDefinition (t : SymbolTable) (name : String) : Except SymbolId (SymbolId × SymbolTable) :=
  let (id, t) := t.getOrAddPlaceholder name
  if (t.symbol id).isDeclared then .error id
  else .ok (id, t.modifySymbol id fun s => { s with state := .visiting })

/-- The declaration of a class has been visited. -/
def finishDefinition (t : SymbolTable) (id : SymbolId) : SymbolTable :=
  t.modifySymbol id fun s => { s with state := .complete }

/-- Register a class that no source declares. -/
def addBuiltin (t : SymbolTable) (name : String) (isPrimitive : Bool) : SymbolId × SymbolTable :=
  t.addSymbol { Symbol.placeholder name with state := .complete, isPrimitive }

/-- Number the next local or anonymous class of a class, from one. -/
def numberLocalClass (t : SymbolTable) (id : SymbolId) : Nat × SymbolTable :=
  ((t.symbol id).localClasses + 1,
    t.modifySymbol id fun s => { s with localClasses := s.localClasses + 1 })

/-! ## Scopes

Scope chains lead outward. None meets a scope twice, so as many steps as there are records suffice
to follow one to its end. -/

/-- The scope directly around a scope. -/
def outerOf (t : SymbolTable) : ScopeRef → Option ScopeRef
  | .symbol id => (t.symbol id).outer
  | .method id => some (t.method id).outer
  | .block id => some (t.block id).outer

/-- A scope and those around it, at most the given number of them. -/
def outwardFrom (t : SymbolTable) : Nat → ScopeRef → List ScopeRef
  | 0, _ => []
  | n + 1, scope =>
    scope ::
      match t.outerOf scope with
      | some outer => t.outwardFrom n outer
      | none => []

/-- A scope and all scopes around it, from the inside out. -/
def outward (t : SymbolTable) (scope : ScopeRef) : List ScopeRef :=
  t.outwardFrom (t.symbols.size + t.methods.size + t.blocks.size + 1) scope

/-- The bodies from a scope outward up to the method's, at most the given number of them. -/
def bodiesFrom (t : SymbolTable) : Nat → ScopeRef → List BodyId
  | 0, _ => []
  | _ + 1, .symbol _ => []
  | _ + 1, .method id => [.method id]
  | n + 1, .block id => .block id :: t.bodiesFrom n (t.block id).outer

/-- The bodies from a scope outward, up to and including the method's and within its class. -/
def bodies (t : SymbolTable) (scope : ScopeRef) : List BodyId := t.bodiesFrom (t.blocks.size + 1) scope

/-- The method whose body contains a scope, within its class and at most the given number of blocks
away. -/
def enclosingMethodFrom? (t : SymbolTable) : Nat → ScopeRef → Option MethodId
  | _, .symbol _ => none
  | _, .method id => some id
  | 0, .block _ => none
  | n + 1, .block id => t.enclosingMethodFrom? n (t.block id).outer

/-- The method whose body contains a scope, within its class. -/
def enclosingMethod? (t : SymbolTable) (scope : ScopeRef) : Option MethodId :=
  t.enclosingMethodFrom? (t.blocks.size + 1) scope

/-- The innermost class that contains a scope, in at most the given number of steps. -/
def enclosingSymbolFrom (t : SymbolTable) : Nat → ScopeRef → SymbolId
  | _, .symbol id => id
  | _, .method id => (t.method id).owner
  | 0, .block _ => default
  | n + 1, .block id => t.enclosingSymbolFrom n (t.block id).outer

/-- The innermost class that contains a scope. -/
def enclosingSymbol (t : SymbolTable) (scope : ScopeRef) : SymbolId :=
  t.enclosingSymbolFrom (t.blocks.size + 1) scope

/-- List a class among the inner classes of the class around its scope. -/
def addInnerClass (t : SymbolTable) (outer : ScopeRef) (id : SymbolId) : SymbolTable :=
  t.modifySymbol (t.enclosingSymbol outer) fun s => { s with innerClasses := s.innerClasses ++ [id] }

/-- Enter a class in the scope around it, with what its declaration says about the class itself. -/
def enterClass (t : SymbolTable) (id : SymbolId) (outer : Option ScopeRef)
    (head : Symbol → Symbol) : SymbolTable :=
  let t := t.modifySymbol id fun s => { head s with outer }
  match outer with
  | some scope => t.addInnerClass scope id
  | none => t

/-- A class and those around it, at most the given number of them. -/
def classesFrom (t : SymbolTable) : Nat → SymbolId → List SymbolId
  | 0, _ => []
  | n + 1, id =>
    id ::
      match (t.symbol id).outer with
      | some outer => t.classesFrom n (t.enclosingSymbol outer)
      | none => []

/-- A class and all classes around it, from the inside out. -/
def enclosingClasses (t : SymbolTable) (id : SymbolId) : List SymbolId :=
  t.classesFrom (t.size + 1) id

/-- A body is the body of a constructor or lies in one. -/
def isConstructor (t : SymbolTable) (body : BodyId) : Bool :=
  match t.enclosingMethod? body.scope with
  | some id => (t.method id).isConstructor
  | none => false

/-! ## Variables -/

/-- The variables declared directly in a body. -/
def bodyVars (t : SymbolTable) : BodyId → List VariableId
  | .method id => (t.method id).vars
  | .block id => (t.block id).vars

/-- The variables declared directly in a scope; those of a class are its fields. -/
def varsOf (t : SymbolTable) : ScopeRef → List VariableId
  | .symbol id => (t.symbol id).fields
  | .method id => (t.method id).vars
  | .block id => (t.block id).vars

/-- The names of variables. -/
def varNames (t : SymbolTable) (vars : List VariableId) : List String :=
  vars.map fun v => (t.var v).name

/-- The variable that a name denotes in a scope: the first one of that name in the innermost scope
that declares it. -/
def lookupVar? (t : SymbolTable) (scope : ScopeRef) (name : String) : Option VariableId :=
  (t.outward scope).findSome? fun s => (t.varsOf s).find? fun v => (t.var v).name == name

/-- The type parameters that a scope declares. -/
def typeParamsOf (t : SymbolTable) : ScopeRef → List String
  | .symbol id => (t.symbol id).typeParams
  | .method id => (t.method id).typeParams
  | .block _ => []

/-- A name is a type parameter of the scope or of one around it. -/
def isTypeParam (t : SymbolTable) (scope : ScopeRef) (name : String) : Bool :=
  (t.outward scope).any fun s => (t.typeParamsOf s).contains name

/-- Append a variable. -/
def addVariable (t : SymbolTable) (v : Variable) : VariableId × SymbolTable :=
  (⟨t.vars.size⟩, { t with vars := t.vars.push v })

/-- Append variables in order. -/
def addVariables (t : SymbolTable) : List Variable → List VariableId × SymbolTable
  | [] => ([], t)
  | v :: rest =>
    let (id, t) := t.addVariable v
    let (ids, t) := t.addVariables rest
    (id :: ids, t)

/-- The names that collide with a name seen before, each once, in the order of their first
collision; `reported` are those found so far. -/
def collisions (seen reported : List String) : List String → List String
  | [] => []
  | name :: rest =>
    if seen.contains name then
      if reported.contains name then collisions seen reported rest
      else name :: collisions seen (name :: reported) rest
    else collisions (name :: seen) reported rest

/-- Append variables, and say which of their names collide with a seen name or with each other. A
colliding variable is registered like any other. -/
def declare (t : SymbolTable) (seen : List String) (vars : List Variable) : Declared × SymbolTable :=
  let (ids, t) := t.addVariables vars
  ({ ids, duplicates := collisions seen [] (vars.map (·.name)) }, t)

/-- The names that a new variable of a body must not repeat. -/
def namesInBody (t : SymbolTable) (body : BodyId) : DuplicateScope → List String
  | .immediate => t.varNames (t.bodyVars body)
  | .enclosingBodies => (t.bodies body.scope).flatMap fun b => t.varNames (t.bodyVars b)

/-- Add the variables of a declaration to a body. -/
def addVars (t : SymbolTable) (body : BodyId) (vars : List Variable) (policy : DuplicateScope) :
    Declared × SymbolTable :=
  let (declared, t) := t.declare (t.namesInBody body policy) vars
  match body with
  | .method id => (declared, t.modifyMethod id fun m => { m with vars := m.vars ++ declared.ids })
  | .block id => (declared, t.modifyBlock id fun b => { b with vars := b.vars ++ declared.ids })

/-- Add fields to a class; their names must not repeat those of its other fields. -/
def addFields (t : SymbolTable) (id : SymbolId) (vars : List Variable) : Declared × SymbolTable :=
  let (declared, t) := t.declare (t.varNames (t.symbol id).fields) vars
  (declared, t.modifySymbol id fun s => { s with fields := s.fields ++ declared.ids })

/-- Add the parameters of a method, which are also the first variables of its body. -/
def addParams (t : SymbolTable) (id : MethodId) (vars : List Variable) : Declared × SymbolTable :=
  let (declared, t) := t.declare [] vars
  (declared, t.modifyMethod id fun m =>
    { m with params := m.params ++ declared.ids, vars := m.vars ++ declared.ids })

/-! ## Methods and blocks -/

/-- Add a method to the members of its owner. -/
def addMethod (t : SymbolTable) (m : Method) : MethodId × SymbolTable :=
  let id : MethodId := ⟨t.methods.size⟩
  let t := { t with methods := t.methods.push m }
  (id, t.modifySymbol m.owner fun s => { s with methods := s.methods ++ [id] })

/-- Open a block in a scope; in a class it is the block of an initializer. -/
def addBlock (t : SymbolTable) (outer : ScopeRef) : BlockId × SymbolTable :=
  let id : BlockId := ⟨t.blocks.size⟩
  let t := { t with blocks := t.blocks.push { outer, vars := [], blocks := [] } }
  match outer with
  | .symbol parent =>
    (id, t.modifySymbol parent fun s => { s with initializers := s.initializers ++ [id] })
  | .method parent => (id, t.modifyMethod parent fun m => { m with blocks := m.blocks ++ [id] })
  | .block parent => (id, t.modifyBlock parent fun b => { b with blocks := b.blocks ++ [id] })

end SymbolTable

end LevelCheck
