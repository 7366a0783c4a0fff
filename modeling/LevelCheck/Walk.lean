import LevelCheck.Context
import LevelCheck.Syntax.Tree
set_option autoImplicit false

/-! # Walking a file

The walk offers each node of a tree to the policy of the file's level and then visits its children.
Nodes that open a scope create it in the symbol table first, and their children are visited in that
scope; a class is completed after its members, which links the references that waited for it.

A visit descends by one level of nesting at a time and only as long as levels remain, so it ends on
every arena, whether its references form a tree or not. What is done for one node is a function of
how its children are visited; `Walk.visit` ties the two together. -/

namespace LevelCheck

/-! ## Scopes and outcomes -/

/-- The scope in which a node is visited. -/
inductive WalkScope where
  | file
  | classBody (id : SymbolId)
  | body (id : BodyId)
  deriving DecidableEq, Repr, Inhabited

namespace WalkScope

/-- The kind of scope that rules distinguish. -/
def kind : WalkScope → ScopeKind
  | .file => .file
  | .classBody _ => .classBody
  | .body _ => .body

/-- The scope as the symbol table knows it; it has none for a file. -/
def ref? : WalkScope → Option ScopeRef
  | .file => none
  | .classBody id => some (.symbol id)
  | .body id => some id.scope

end WalkScope

/-- What became of a visited node. -/
inductive Outcome where
  /-- Nothing was wrong with the node itself. -/
  | clean
  /-- The node itself was reported, and its children were visited. -/
  | reported
  /-- The children were not visited. -/
  | stopped
  deriving DecidableEq, Repr, Inhabited

/-- How a block is visited: it opens a scope of its own, or its statements belong to the scope
around it, as those of a method's body do. -/
inductive BlockMode where
  | nested
  | inline
  deriving DecidableEq, Repr

/-- How a child is visited: what becomes of it, and the state of the run afterwards. -/
abbrev Visitor := BlockMode → WalkScope → NodeIndex → Context → Outcome × Context

namespace Visitor

/-- Visit nodes in order. -/
def each (visit : Visitor) (scope : WalkScope) (nodes : List NodeIndex) (cx : Context) : Context :=
  nodes.foldl (fun cx node => (visit .nested scope node cx).2) cx

end Visitor

/-- What stays the same while a file is walked. -/
structure Walk where
  arena : Arena
  /-- The level whose policy the nodes are offered to. -/
  policy : Level
  file : FileId
  deriving Repr

namespace Walk

/-! ## Admission -/

/-- A node whose children are visited: whether its local variables become final, and whether it was
reported. -/
structure Admission where
  forceFinal : Bool
  reported : Bool
  deriving DecidableEq, Repr

/-- The scope lies in the body of a constructor. -/
def inConstructor (scope : WalkScope) (cx : Context) : Bool :=
  match scope with
  | .body id => cx.table.isConstructor id
  | _ => false

/-- The level that messages name: that of the file, or that of the policy if there is no file. -/
def level (w : Walk) (cx : Context) : Level :=
  match cx.file? w.file with
  | some f => f.level
  | none => w.policy

/-- A node in a scope, as it is offered to the policy. -/
def offer (w : Walk) (scope : WalkScope) (node : Node) (cx : Context) : Offer :=
  { node, scope := scope.kind, level := w.level cx, inConstructor := inConstructor scope cx }

/-- Record problems at a position, in order. -/
def reportAll (w : Walk) (pos : Position) (problems : List Problem) (cx : Context) : Context :=
  problems.foldl (fun cx p => cx.report w.file pos p) cx

/-- Note that the walk came to a node. -/
def note (w : Walk) (idx : NodeIndex) (remaining : Nat) (offer : Option Offer) (cx : Context) :
    Context :=
  let pruned := cx.log.isPruned w.file idx
  { cx with trail := cx.trail.push { file := w.file, node := idx, remaining, offer, pruned } }

/-- Skip a node that is nested too deeply; it is reported once. -/
def refuseDepth (w : Walk) (idx : NodeIndex) (node : Node) (cx : Context) : Context :=
  let cx := w.note idx 0 none cx
  if cx.log.isPruned w.file idx then cx
  else cx.reportPruning w.file idx node.pos (.nestingTooDeep cx.options.maxDepth)

/-- Offer a node to the policy, unless it has been pruned before. A node that the policy prunes is
recorded with the first problem raised, and the other problems are recorded after it. -/
def inspect (w : Walk) (remaining : Nat) (scope : WalkScope) (idx : NodeIndex) (node : Node)
    (cx : Context) : Option Admission × Context :=
  if cx.log.isPruned w.file idx then (none, w.note idx remaining none cx)
  else
    let offer := w.offer scope node cx
    let cx := w.note idx remaining (some offer) cx
    let ruling := Policy.ruling w.policy offer
    match ruling.step with
    | .prune =>
      match ruling.raised with
      | [] => (none, cx)
      | first :: rest =>
        (none, w.reportAll node.pos rest (cx.reportPruning w.file idx node.pos first))
    | _ =>
      (some { forceFinal := ruling.forceFinal, reported := !ruling.raised.isEmpty },
        w.reportAll node.pos ruling.raised cx)

/-! ## Declared variables -/

/-- A variable as a declarator or a parameter writes it. -/
structure Declarator where
  type : String
  name : String
  pos : Position
  modifiers : Nat
  hasInitializer : Bool
  deriving Repr

/-- The flags of a parameter. -/
def paramFlags (isFinal : Bool) : Nat := if isFinal then Modifier.final.flag else 0

/-- The parameter at an index, if the node there is one. -/
def param? (w : Walk) (idx : NodeIndex) : Option Declarator := do
  let node ← w.arena.get? idx
  match node.data with
  | .formalParameter isFinal type name =>
    some { type, name, pos := node.pos, modifiers := paramFlags isFinal, hasInitializer := true }
  | _ => none

/-- The declarator at an index with its initializer, if the node there is one. -/
def declarator? (w : Walk) (flags : Nat) (idx : NodeIndex) :
    Option (Declarator × Option NodeIndex) := do
  let node ← w.arena.get? idx
  match node.data with
  | .variableDeclarator type name initializer =>
    some ({ type, name, pos := node.pos, modifiers := flags
            hasInitializer := initializer.isSome }, initializer)
  | _ => none

/-- The record of a variable in a scope. -/
def Declarator.variable (d : Declarator) (scope : ScopeRef) : Variable :=
  .declared d.name d.modifiers d.type d.hasInitializer scope

/-- The position of the last declarator of a name. -/
def lastPosition? (declarators : List Declarator) (name : String) : Option Position :=
  (declarators.reverse.find? fun d => d.name == name).map (·.pos)

/-- Record a problem for every name declared twice, at its last declaration or else at `pos`. -/
def reportDuplicates (w : Walk) (declarators : List Declarator) (pos : Position)
    (problem : String → Problem) (duplicates : List String) (cx : Context) : Context :=
  duplicates.foldl
    (fun cx name =>
      cx.report w.file ((lastPosition? declarators name).getD pos) (problem name)) cx

/-- Link the types of declared variables. -/
def linkVariables (w : Walk) (scope : ScopeRef) (declarators : List Declarator)
    (ids : List VariableId) (cx : Context) : Context :=
  (declarators.zip ids).foldl
    (fun cx entry =>
      cx.linkType w.file (some scope) entry.1.type entry.1.pos (.variableType entry.2)) cx

/-! ## Classes -/

/-- A class or interface as it is written. -/
structure TypeDecl where
  modifiers : List Modifier
  name : String
  typeParams : List String
  isInterface : Bool
  superclass : Option String
  interfaces : List String
  members : List NodeIndex
  deriving Repr

/-- The qualified name of a class declared in a scope. Classes declared in a body are numbered
within the class around it. -/
def qualifiedName (w : Walk) (scope : WalkScope) (simple : String) (cx : Context) :
    String × Context :=
  match scope with
  | .file =>
    match cx.file? w.file with
    | some f => (f.qualify simple, cx)
    | none => (simple, cx)
  | .classBody id => (Resolution.memberName (cx.table.symbol id).name simple, cx)
  | .body id =>
    let owner := cx.table.enclosingSymbol id.scope
    let (n, table) := cx.table.numberLocalClass owner
    (Resolution.memberName (table.symbol owner).name (toString n ++ simple), { cx with table })

/-- Enter what a declaration says about its class itself. -/
def TypeDecl.head (decl : TypeDecl) (s : Symbol) : Symbol :=
  { s with
    modifiers := Modifier.flags decl.modifiers
    isInterface := decl.isInterface
    typeParams := decl.typeParams }

/-- Enter and link the superclass. A class that writes none extends the root class. -/
def linkSuperclass (w : Walk) (id : SymbolId) (pos : Position) (qualified : String)
    (decl : TypeDecl) (cx : Context) : Context :=
  match decl.superclass with
  | some written =>
    let cx := cx.modifyTable fun t =>
      t.modifySymbol id fun s => { s with superclass := some (.unresolved written) }
    cx.linkType w.file (some (.symbol id)) written pos (.superclass id)
  | none =>
    if decl.isInterface || qualified == Builtin.object then cx
    else cx.modifyTable fun t =>
      t.modifySymbol id fun s => { s with superclass := some t.objectRef }

/-- Enter and link the interfaces, counting them from `index`. -/
def linkInterfaces (w : Walk) (id : SymbolId) (pos : Position) :
    Nat → List String → Context → Context
  | _, [], cx => cx
  | index, written :: rest, cx =>
    let cx := cx.modifyTable fun t =>
      t.modifySymbol id fun s => { s with interfaces := s.interfaces ++ [.unresolved written] }
    let cx := cx.linkType w.file (some (.symbol id)) written pos (.interface id index)
    w.linkInterfaces id pos (index + 1) rest cx

/-- Visit a class or interface. A qualified name can be declared once; a further declaration of it
is skipped. The result tells whether the node was reported. -/
def visitTypeDecl (w : Walk) (visit : Visitor) (scope : WalkScope) (idx : NodeIndex)
    (pos : Position) (decl : TypeDecl) (cx : Context) : Bool × Context :=
  let (qualified, cx) := w.qualifiedName scope decl.name cx
  match cx.beginClass? qualified scope.ref? decl.head with
  | none => (true, cx.reportPruning w.file idx pos (.duplicateClass qualified))
  | some (id, cx) =>
    let cx := w.linkSuperclass id pos qualified decl cx
    let cx := w.linkInterfaces id pos 0 decl.interfaces cx
    let cx := visit.each (.classBody id) decl.members cx
    (false, cx.defineComplete id)

/-- Visit the class body of an anonymous class. It has no name but the number that the class around
it gives. Outside of every class there is nothing to number it in, and it is passed over. -/
def visitAnonymous (w : Walk) (visit : Visitor) (scope : WalkScope) (idx : NodeIndex)
    (pos : Position) (base : String) (members : List NodeIndex) (cx : Context) : Bool × Context :=
  match scope.ref? with
  | none => (false, cx)
  | some ref =>
    let owner := cx.table.enclosingSymbol ref
    let (n, table) := cx.table.numberLocalClass owner
    let cx := { cx with table }
    let qualified := Resolution.memberName (cx.table.symbol owner).name (toString n)
    match cx.beginClass? qualified (some ref) id with
    | none => (true, cx.reportPruning w.file idx pos (.duplicateClass qualified))
    | some (id, cx) =>
      let cx := cx.linkType w.file (some ref) base pos (.anonymousBase id)
      let cx := visit.each (.classBody id) members cx
      (false, cx.defineComplete id)

/-! ## Methods -/

/-- A method or constructor as it is written. -/
structure MethodDecl where
  modifiers : List Modifier
  typeParams : List String
  /-- The return type; a constructor has none. -/
  returnType : Option String
  name : String
  params : List NodeIndex
  throws : List String
  body : Option NodeIndex
  isConstructor : Bool
  deriving Repr

/-- Link the types that a method may throw, counting them from `index`. -/
def linkThrown (w : Walk) (id : MethodId) (pos : Position) :
    Nat → List String → Context → Context
  | _, [], cx => cx
  | index, written :: rest, cx =>
    let cx := cx.linkType w.file (some (.method id)) written pos (.thrownType id index)
    w.linkThrown id pos (index + 1) rest cx

/-- The problem with the name of a constructor of a class, if there is one. -/
def constructorProblem? (owner : Symbol) (decl : MethodDecl) : Option Problem :=
  if decl.isConstructor && decl.name != owner.constructorName then
    some (.constructorName decl.name owner.constructorName)
  else none

/-- Visit a method or constructor of a class. Its body is visited in the scope of the method.
Outside of a class body it is passed over. -/
def visitMethod (w : Walk) (visit : Visitor) (scope : WalkScope) (pos : Position)
    (decl : MethodDecl) (cx : Context) : Bool × Context :=
  match scope with
  | .classBody owner =>
    let (id, table) := cx.table.addMethod
      (.declared decl.name owner (Modifier.flags decl.modifiers) decl.typeParams decl.returnType
        decl.throws decl.isConstructor)
    let cx := { cx with table }
    let named := (constructorProblem? (cx.table.symbol owner) decl).toList
    let cx := w.reportAll pos named cx
    let params := decl.params.filterMap w.param?
    let (declared, table) := cx.table.addParams id (params.map (·.variable (.method id)))
    let cx := { cx with table }
    let cx := w.reportDuplicates params pos (fun _ => .duplicateParameter) declared.duplicates cx
    let cx := match decl.returnType with
      | some written => cx.linkType w.file (some (.method id)) written pos (.returnType id)
      | none => cx
    let cx := w.linkThrown id pos 0 decl.throws cx
    let cx := w.linkVariables (.method id) params declared.ids cx
    let cx := match decl.body with
      | some body => (visit .inline (.body (.method id)) body cx).2
      | none => cx
    (!named.isEmpty || !declared.duplicates.isEmpty, cx)
  | _ => (false, cx)

/-! ## Variables -/

/-- Visit a declaration of fields or local variables: all of them are entered, then their types are
linked, and last their initializers are visited. At the top level of a file it is passed over. -/
def visitVariables (w : Walk) (visit : Visitor) (scope : WalkScope) (modifiers : List Modifier)
    (declarators : List NodeIndex) (forceFinal : Bool) (cx : Context) : Bool × Context :=
  match scope.ref? with
  | none => (false, cx)
  | some ref =>
    let found := declarators.filterMap (w.declarator? (Modifier.flags modifiers))
    let written := found.map (·.1)
    let vars := written.map fun d =>
      let v := d.variable ref
      if forceFinal then v.setFinal else v
    let (declared, table) := match scope with
      | .classBody id => cx.table.addFields id vars
      | .body id => cx.table.addVars id vars cx.options.duplicateScope
      | .file => ({ ids := [], duplicates := [] }, cx.table)
    let problem : String → Problem := match scope with
      | .classBody _ => .duplicateField
      | _ => fun _ => .duplicateVariable
    let cx := w.reportDuplicates written .nowhere problem declared.duplicates { cx with table }
    let cx := w.linkVariables ref written declared.ids cx
    let cx := visit.each scope (found.filterMap (·.2)) cx
    (!declared.duplicates.isEmpty, cx)

/-! ## Blocks -/

/-- Open a block in a scope; there is none at the top level of a file. -/
def openBlock? (scope : WalkScope) (cx : Context) : Option (BlockId × Context) :=
  match scope.ref? with
  | none => none
  | some ref =>
    let (id, table) := cx.table.addBlock ref
    some (id, { cx with table })

/-- Visit the statements of a block, in a scope of their own or in the one around it. -/
def visitBlock (visit : Visitor) (mode : BlockMode) (scope : WalkScope)
    (statements : List NodeIndex) (cx : Context) : Context :=
  match mode with
  | .inline => visit.each scope statements cx
  | .nested =>
    match openBlock? scope cx with
    | some (id, cx) => visit.each (.body (.block id)) statements cx
    | none => cx

/-- Visit an initializer: in a class it opens a block, in a body it is a block like any other, and
at the top level of a file it is passed over. -/
def visitInitializer (visit : Visitor) (scope : WalkScope) (body : NodeIndex) (cx : Context) :
    Context :=
  match scope with
  | .file => cx
  | .body _ => (visit .nested scope body cx).2
  | .classBody _ =>
    match openBlock? scope cx with
    | some (id, cx) => (visit .inline (.body (.block id)) body cx).2
    | none => cx

/-- Enter the exception of a handler as a variable of its block. -/
def enterException (w : Walk) (id : BlockId) (exception : NodeIndex) (cx : Context) :
    Bool × Context :=
  match w.param? exception with
  | none => (false, cx)
  | some d =>
    let (declared, table) :=
      cx.table.addVars (.block id) [d.variable (.block id)] cx.options.duplicateScope
    let cx := { cx with table }
    let cx := w.reportDuplicates [d] d.pos (fun _ => .duplicateVariable) declared.duplicates cx
    (!declared.duplicates.isEmpty, w.linkVariables (.block id) [d] declared.ids cx)

/-- Visit the handler of an exception in a block that holds the exception and the statements of the
handler. Outside of a body it is passed over. -/
def visitCatch (w : Walk) (visit : Visitor) (scope : WalkScope) (exception handler : NodeIndex)
    (cx : Context) : Bool × Context :=
  match scope with
  | .body outer =>
    let (id, table) := cx.table.addBlock outer.scope
    let (reported, cx) := w.enterException id exception { cx with table }
    (reported, (visit .inline (.body (.block id)) handler cx).2)
  | _ => (false, cx)

/-- Visit a loop in a block that holds its header and its body; at the top level of a file there is
no such block. -/
def visitFor (visit : Visitor) (scope : WalkScope) (children : List NodeIndex) (cx : Context) :
    Context :=
  match openBlock? scope cx with
  | some (id, cx) => visit.each (.body (.block id)) children cx
  | none => visit.each scope children cx

/-! ## Nodes -/

/-- The simple name of the class or interface that the node at an index declares. -/
def typeName? (w : Walk) (idx : NodeIndex) : Option String := do
  let node ← w.arena.get? idx
  match node.data with
  | .classDef _ name .. => some name
  | .interfaceDef _ name .. => some name
  | _ => none

/-- Read the header of the file, and declare its types before any of them is visited. -/
def enterFile (w : Walk) (package : Option String) (imports : List ImportDecl)
    (types : List NodeIndex) (cx : Context) : Context :=
  cx.modifyFile w.file fun f =>
    (types.filterMap w.typeName?).foldl FileScope.declareClass (f.recordHeader package imports)

/-- Do what an admitted node calls for, and visit its children. The result tells whether the node
itself was reported. -/
def visitData (w : Walk) (visit : Visitor) (mode : BlockMode) (scope : WalkScope)
    (idx : NodeIndex) (pos : Position) (forceFinal : Bool) (data : NodeData) (cx : Context) :
    Bool × Context :=
  match data with
  | .sourceFile package imports types =>
    (false, visit.each scope types (w.enterFile package imports types cx))
  | .classDef modifiers name typeParams superclass interfaces members =>
    w.visitTypeDecl visit scope idx pos
      { modifiers, name, typeParams, isInterface := false, superclass, interfaces, members } cx
  | .interfaceDef modifiers name typeParams parents members =>
    w.visitTypeDecl visit scope idx pos
      { modifiers, name, typeParams, isInterface := true, superclass := none, interfaces := parents
        members } cx
  | .methodDef modifiers typeParams returnType name params throws body =>
    w.visitMethod visit scope pos
      { modifiers, typeParams, returnType := some returnType, name, params, throws, body
        isConstructor := false } cx
  | .constructorDef modifiers name params throws body =>
    w.visitMethod visit scope pos
      { modifiers, typeParams := [], returnType := none, name, params, throws, body := some body
        isConstructor := true } cx
  | .formalParameter .. => (false, cx)
  | .variableDeclaration modifiers declarators =>
    w.visitVariables visit scope modifiers declarators forceFinal cx
  | .block statements => (false, visitBlock visit mode scope statements cx)
  | .instanceInitializer body => (false, visitInitializer visit scope body cx)
  | .catchBlock exception handler => w.visitCatch visit scope exception handler cx
  | .forStatement .. => (false, visitFor visit scope data.children cx)
  | .instantiation _ type _ =>
    (false, visit.each scope data.children (cx.linkType w.file scope.ref? type pos .existence))
  | .cast type _ =>
    (false, visit.each scope data.children (cx.linkType w.file scope.ref? type pos .existence))
  | .anonymousClass outer type arguments members =>
    w.visitAnonymous visit scope idx pos type members
      (visit.each scope (outer.toList ++ arguments) cx)
  | data => (false, visit.each scope data.children cx)

/-- Visit a node with a number of levels of nesting remaining. An index that names no node is passed
over. -/
def visit (w : Walk) : Nat → Visitor
  | remaining, mode, scope, idx, cx =>
    match w.arena.get? idx with
    | none => (.clean, cx)
    | some node =>
      match remaining with
      | 0 => (.stopped, w.refuseDepth idx node cx)
      | remaining + 1 =>
        match w.inspect (remaining + 1) scope idx node cx with
        | (none, cx) => (.stopped, cx)
        | (some admission, cx) =>
          let (reported, cx) :=
            w.visitData (w.visit remaining) mode scope idx node.pos admission.forceFinal node.data cx
          if cx.log.isPruned w.file idx then (.stopped, cx)
          else if admission.reported || reported then (.reported, cx)
          else (.clean, cx)

/-- Visit a node in a scope. -/
def visitIn (w : Walk) (scope : WalkScope) (idx : NodeIndex) (cx : Context) : Outcome × Context :=
  w.visit cx.options.maxDepth .nested scope idx cx

end Walk

end LevelCheck
