import LevelCheck.Proofs.Records
import LevelCheck.Proofs.TwoWalks
set_option autoImplicit false

/-! # The parts of a visit

A visit of a node falls into parts that other theorems are about: the node is inspected; what it calls
for on its own is done; further nodes are visited in the scope that it opens, or in that of the node;
and a class is completed after its members. `Walk.Calls` says for each kind of node what it calls for
and where the walk goes on to, `Walk.Journey` puts the parts together for a list of nodes, and every
visit is such a journey. -/

namespace LevelCheck

/-- Nodes that are visited as children usually are. -/
def nested (nodes : List NodeIndex) : List (BlockMode × NodeIndex) := nodes.map (BlockMode.nested, ·)

namespace Visitor

/-- Visit nodes in order, each in its own way. -/
def through (visit : Visitor) (scope : WalkScope) (nodes : List (BlockMode × NodeIndex))
    (cx : Context) : Context :=
  nodes.foldl (fun cx node => (visit node.1 scope node.2 cx).2) cx

theorem through_append (visit : Visitor) (scope : WalkScope)
    (nodes more : List (BlockMode × NodeIndex)) (cx : Context) :
    visit.through scope (nodes ++ more) cx
      = visit.through scope more (visit.through scope nodes cx) := List.foldl_append

theorem each_eq_through (visit : Visitor) (scope : WalkScope) (nodes : List NodeIndex)
    (cx : Context) : visit.each scope nodes cx = visit.through scope (nested nodes) cx := by
  rw [each, through, nested, List.foldl_map]

end Visitor

namespace NodeData

/-- The class or interface that a node declares. -/
def typeDecl? : NodeData → Option Walk.TypeDecl
  | .classDef modifiers name typeParams superclass interfaces members =>
    some { modifiers, name, typeParams, isInterface := false, superclass, interfaces, members }
  | .interfaceDef modifiers name typeParams parents members =>
    some { modifiers, name, typeParams, isInterface := true, superclass := none, interfaces := parents
           members }
  | _ => none

/-- The method or constructor that a node declares. -/
def methodDecl? : NodeData → Option Walk.MethodDecl
  | .methodDef modifiers typeParams returnType name params throws body =>
    some { modifiers, typeParams, returnType := some returnType, name, params, throws, body
           isConstructor := false }
  | .constructorDef modifiers name params throws body =>
    some { modifiers, typeParams := [], returnType := none, name, params, throws, body := some body
           isConstructor := true }
  | _ => none

/-- The class that a node mentions without linking anything to it. -/
def mentioned? : NodeData → Option String
  | .instantiation _ type _ => some type
  | .cast type _ => some type
  | _ => none

/-- Nothing is done for the node itself. -/
def IsPlain : NodeData → Prop
  | .variableDeclarator .. | .tryCatch .. | .expressionStatement .. | .returnStatement ..
  | .ifStatement .. | .whileStatement .. | .binary .. | .unary .. | .assignment .. | .literal ..
  | .nameReference .. | .fieldAccess .. | .methodInvocation .. | .thisReference .. => True
  | _ => False

/-- The walk passes over the node in a scope of the kind: methods count in classes only, handlers in
bodies only, and variables, initializers and blocks anywhere but at the top level of a file. What a
parameter says is read with its method. -/
def IsStray (mode : BlockMode) : ScopeKind → NodeData → Prop
  | _, .formalParameter .. => True
  | kind, .methodDef .. | kind, .constructorDef .. => kind ≠ .classBody
  | kind, .catchBlock .. => kind ≠ .body
  | kind, .variableDeclaration .. | kind, .instanceInitializer .. => kind = .file
  | kind, .block .. => kind = .file ∧ mode = .nested
  | _, _ => False

end NodeData

namespace Walk

variable (w : Walk)

/-- The declarators of a declaration with their initializers. -/
def declarators (modifiers : List Modifier) (nodes : List NodeIndex) :
    List (Declarator × Option NodeIndex) :=
  nodes.filterMap (w.declarator? (Modifier.flags modifiers))

/-- What an admitted node calls for, classes apart, and the nodes that are visited next: those in the
list, in the scope given with it. -/
inductive Calls (mode : BlockMode) (scope : WalkScope) (node : Node) (force : Bool) (a : Context) :
    WalkScope → List (BlockMode × NodeIndex) → Context → Prop where
  | header {package : Option String} {imports : List ImportDecl} {types : List NodeIndex}
      (is : node.data = .sourceFile package imports types) :
      Calls mode scope node force a scope (nested types) (w.enterFile package imports types a)
  | method {decl : MethodDecl} {owner : SymbolId} (is : node.data.methodDecl? = some decl)
      (inClass : scope = .classBody owner) :
      Calls mode scope node force a (.body (.method (w.enterMethod owner node.pos decl a).1))
        (decl.body.toList.map (BlockMode.inline, ·)) (w.enterMethod owner node.pos decl a).2
  | fields {modifiers : List Modifier} {nodes : List NodeIndex} {id : SymbolId}
      (is : node.data = .variableDeclaration modifiers nodes) (inClass : scope = .classBody id) :
      Calls mode scope node force a scope (nested ((w.declarators modifiers nodes).filterMap (·.2)))
        (w.declareFields id ((w.declarators modifiers nodes).map (·.1)) force a)
  | locals {modifiers : List Modifier} {nodes : List NodeIndex} {body : BodyId}
      (is : node.data = .variableDeclaration modifiers nodes) (inBody : scope = .body body) :
      Calls mode scope node force a scope (nested ((w.declarators modifiers nodes).filterMap (·.2)))
        (w.declareLocals body ((w.declarators modifiers nodes).map (·.1)) .nowhere force a)
  | block {statements : List NodeIndex} {ref : ScopeRef} (is : node.data = .block statements)
      (opens : mode = .nested) (inScope : scope.ref? = some ref) :
      Calls mode scope node force a (.body (.block (a.table.addBlock ref).1)) (nested statements)
        (inBlock ref a)
  | statements {statements : List NodeIndex} (is : node.data = .block statements)
      (joins : mode = .inline) : Calls mode scope node force a scope (nested statements) a
  | initializer {body : NodeIndex} {id : SymbolId} (is : node.data = .instanceInitializer body)
      (inClass : scope = .classBody id) :
      Calls mode scope node force a (.body (.block (a.table.addBlock (.symbol id)).1))
        [(.inline, body)] (inBlock (.symbol id) a)
  | innerInitializer {body : NodeIndex} {id : BodyId} (is : node.data = .instanceInitializer body)
      (inBody : scope = .body id) : Calls mode scope node force a scope (nested [body]) a
  | handler {exception handler : NodeIndex} {outer : BodyId}
      (is : node.data = .catchBlock exception handler) (inBody : scope = .body outer) :
      Calls mode scope node force a (.body (.block (a.table.addBlock outer.scope).1))
        [(.inline, handler)]
        (w.enterException (a.table.addBlock outer.scope).1 exception (inBlock outer.scope a)).2
  | loop {init : List NodeIndex} {condition : Option NodeIndex} {update : List NodeIndex}
      {body : NodeIndex} {ref : ScopeRef} (is : node.data = .forStatement init condition update body)
      (inScope : scope.ref? = some ref) :
      Calls mode scope node force a (.body (.block (a.table.addBlock ref).1))
        (nested node.data.children) (inBlock ref a)
  | fileLoop {init : List NodeIndex} {condition : Option NodeIndex} {update : List NodeIndex}
      {body : NodeIndex} (is : node.data = .forStatement init condition update body)
      (outside : scope = .file) : Calls mode scope node force a scope (nested node.data.children) a
  | mention {type : String} (is : node.data.mentioned? = some type) :
      Calls mode scope node force a scope (nested node.data.children)
        (a.linkType w.file scope.ref? type node.pos .existence)
  | anonymousAtFile {outer : Option NodeIndex} {type : String} {arguments members : List NodeIndex}
      (is : node.data = .anonymousClass outer type arguments members) (outside : scope = .file) :
      Calls mode scope node force a scope (nested (outer.toList ++ arguments)) a
  | children (is : node.data.IsPlain) :
      Calls mode scope node force a scope (nested node.data.children) a
  | stray (is : node.data.IsStray mode scope.kind) : Calls mode scope node force a scope [] a

/-- The walk leads from the first state to the second by visiting the nodes of the list in the scope.
A class is begun and completed around the visits of its members, and the arguments of an anonymous
class are visited before it is begun. -/
inductive Journey : WalkScope → List (BlockMode × NodeIndex) → Context → Context → Prop where
  | done (scope : WalkScope) (a : Context) : Journey scope [] a a
  /-- An index that names no node is passed over. -/
  | absent {scope : WalkScope} {mode : BlockMode} {idx : NodeIndex}
      {rest : List (BlockMode × NodeIndex)} {a b : Context} (missing : w.arena.get? idx = none)
      (after : Journey scope rest a b) : Journey scope ((mode, idx) :: rest) a b
  /-- A node is nested too deeply. -/
  | refused {scope : WalkScope} {mode : BlockMode} {idx : NodeIndex} {node : Node}
      {rest : List (BlockMode × NodeIndex)} {a b : Context} (isOpen : scope.IsOpenIn a.table)
      (found : w.arena.get? idx = some node)
      (after : Journey scope rest (w.refuseDepth idx node a) b) :
      Journey scope ((mode, idx) :: rest) a b
  | skipped {scope : WalkScope} {mode : BlockMode} {idx : NodeIndex} {node : Node} {remaining : Nat}
      {rest : List (BlockMode × NodeIndex)} {a b c : Context} (isOpen : scope.IsOpenIn a.table)
      (found : w.arena.get? idx = some node)
      (skips : w.inspect remaining scope idx node a = (none, b)) (after : Journey scope rest b c) :
      Journey scope ((mode, idx) :: rest) a c
  | entered {scope inner : WalkScope} {mode : BlockMode} {idx : NodeIndex} {node : Node}
      {remaining : Nat} {admission : Admission} {nodes rest : List (BlockMode × NodeIndex)}
      {a b c d e : Context} (isOpen : scope.IsOpenIn a.table) (found : w.arena.get? idx = some node)
      (admits : w.inspect remaining scope idx node a = (some admission, b))
      (calls : w.Calls mode scope node admission.forceFinal b inner nodes c)
      (inside : Journey inner nodes c d) (after : Journey scope rest d e) :
      Journey scope ((mode, idx) :: rest) a e
  /-- The name of a class has been declared before. -/
  | duplicate {scope : WalkScope} {mode : BlockMode} {idx : NodeIndex} {node : Node}
      {remaining : Nat} {admission : Admission} {decl : TypeDecl}
      {rest : List (BlockMode × NodeIndex)} {a b c : Context} (isOpen : scope.IsOpenIn a.table)
      (found : w.arena.get? idx = some node)
      (admits : w.inspect remaining scope idx node a = (some admission, b))
      (is : node.data.typeDecl? = some decl)
      (after : Journey scope rest ((w.qualifiedName scope decl.name b).2.reportPruning w.file idx
        node.pos (.duplicateClass (w.qualifiedName scope decl.name b).1)) c) :
      Journey scope ((mode, idx) :: rest) a c
  | declared {scope : WalkScope} {mode : BlockMode} {idx : NodeIndex} {node : Node}
      {remaining : Nat} {admission : Admission} {decl : TypeDecl} {id : SymbolId}
      {rest : List (BlockMode × NodeIndex)} {a b c d e : Context} (isOpen : scope.IsOpenIn a.table)
      (found : w.arena.get? idx = some node)
      (admits : w.inspect remaining scope idx node a = (some admission, b))
      (is : node.data.typeDecl? = some decl)
      (begun : (w.qualifiedName scope decl.name b).2.beginClass?
        (w.qualifiedName scope decl.name b).1 scope.ref? decl.head = some (id, c))
      (members : Journey (.classBody id) (nested decl.members)
        (w.linkParents id node.pos (w.qualifiedName scope decl.name b).1 decl c) d)
      (after : Journey scope rest (d.defineComplete id) e) : Journey scope ((mode, idx) :: rest) a e
  | anonymousDuplicate {scope : WalkScope} {ref : ScopeRef} {mode : BlockMode} {idx : NodeIndex}
      {node : Node} {remaining : Nat} {admission : Admission} {outer : Option NodeIndex}
      {type : String} {arguments members : List NodeIndex} {rest : List (BlockMode × NodeIndex)}
      {a b c d : Context} (isOpen : scope.IsOpenIn a.table) (found : w.arena.get? idx = some node)
      (admits : w.inspect remaining scope idx node a = (some admission, b))
      (is : node.data = .anonymousClass outer type arguments members)
      (inScope : scope.ref? = some ref)
      (before : Journey scope (nested (outer.toList ++ arguments)) b c)
      (after : Journey scope rest ((numbered ref c).reportPruning w.file idx node.pos
        (.duplicateClass (anonymousName ref c))) d) : Journey scope ((mode, idx) :: rest) a d
  | anonymous {scope : WalkScope} {ref : ScopeRef} {mode : BlockMode} {idx : NodeIndex} {node : Node}
      {remaining : Nat} {admission : Admission} {outer : Option NodeIndex} {type : String}
      {arguments members : List NodeIndex} {id : SymbolId} {rest : List (BlockMode × NodeIndex)}
      {a b c d e f : Context} (isOpen : scope.IsOpenIn a.table)
      (found : w.arena.get? idx = some node)
      (admits : w.inspect remaining scope idx node a = (some admission, b))
      (is : node.data = .anonymousClass outer type arguments members)
      (inScope : scope.ref? = some ref)
      (before : Journey scope (nested (outer.toList ++ arguments)) b c)
      (begun : (numbered ref c).beginClass? (anonymousName ref c) (some ref) (fun s => s)
        = some (id, d))
      (members : Journey (.classBody id) (nested members)
        (d.linkType w.file (some ref) type node.pos (.anonymousBase id)) e)
      (after : Journey scope rest (e.defineComplete id) f) : Journey scope ((mode, idx) :: rest) a f

variable {w}

theorem Journey.append {scope : WalkScope} {nodes more : List (BlockMode × NodeIndex)}
    {a b c : Context} (first : w.Journey scope nodes a b) (second : w.Journey scope more b c) :
    w.Journey scope (nodes ++ more) a c := by
  induction first with
  | done => exact second
  | absent missing _ ih => exact .absent missing (ih second)
  | refused isOpen found _ ih => exact .refused isOpen found (ih second)
  | skipped isOpen found skips _ ih => exact .skipped isOpen found skips (ih second)
  | entered isOpen found admits calls inside _ _ ih =>
    exact .entered isOpen found admits calls inside (ih second)
  | duplicate isOpen found admits is _ ih => exact .duplicate isOpen found admits is (ih second)
  | declared isOpen found admits is begun members _ _ ih =>
    exact .declared isOpen found admits is begun members (ih second)
  | anonymousDuplicate isOpen found admits is inScope before _ _ ih =>
    exact .anonymousDuplicate isOpen found admits is inScope before (ih second)
  | anonymous isOpen found admits is inScope before begun members _ _ _ ih =>
    exact .anonymous isOpen found admits is inScope before begun members (ih second)

/-! ## What is done for a node -/

section

variable {mode : BlockMode} {scope inner : WalkScope} {node : Node} {force : Bool}
  {nodes : List (BlockMode × NodeIndex)} {a b : Context} (isOpen : scope.IsOpenIn a.table)
include isOpen

/-- What a node calls for is a run, and the scope in which the walk goes on is open. -/
theorem Calls.run (calls : w.Calls mode scope node force a inner nodes b) :
    Run a b ∧ inner.IsOpenIn b.table := by
  have opens {ref : ScopeRef} (inScope : scope.ref? = some ref) : Run a (inBlock ref a)
      ∧ (WalkScope.body (.block (a.table.addBlock ref).1)).IsOpenIn (inBlock ref a).table :=
    ⟨addBlock_run (isOpen ref inScope), WalkScope.isOpenIn_body (addBlock_isOpen a.table ref)⟩
  have stays {c : Context} (run : Run a c) : Run a c ∧ scope.IsOpenIn c.table :=
    ⟨run, run.precedes.isOpenIn isOpen⟩
  cases calls with
  | header is => exact stays (w.enterFile_run _ _ _ a)
  | method is inClass =>
    subst inClass
    obtain ⟨run, inside⟩ := w.enterMethod_run (isOpen _ rfl) node.pos _
    exact ⟨run, WalkScope.isOpenIn_body inside⟩
  | fields is inClass =>
    subst inClass
    exact stays (w.declareFields_run (isOpen _ rfl) _ force)
  | @locals _ _ body is inBody =>
    subst inBody
    exact stays (w.declareLocals_run body (isOpen _ rfl) _ .nowhere force)
  | block is mode inScope => exact opens inScope
  | initializer is inClass =>
    subst inClass
    exact opens rfl
  | @handler exception _ outer is inBody =>
    subst inBody
    exact w.handler_run (isOpen _ rfl) exception
  | loop is inScope => exact opens inScope
  | mention is => exact stays (.deed (.link w.file isOpen _ node.pos trivial))
  | statements | innerInitializer | fileLoop | anonymousAtFile | children | stray =>
    exact stays (.rest a)

end

/-- What is done for an admitted node, however its children are visited: the walk does what the node
calls for, and then visits the nodes that come next. -/
def IsCalled (w : Walk) (visit : Visitor) (mode : BlockMode) (scope : WalkScope) (node : Node)
    (force : Bool) (a b : Context) : Prop :=
  ∃ inner nodes c, w.Calls mode scope node force a inner nodes c ∧ b = visit.through inner nodes c

section

variable {visit : Visitor} {mode : BlockMode} {scope : WalkScope} {node : Node} {force : Bool}
  {cx : Context}

theorem visitMethod_eq_through (owner : SymbolId) (pos : Position) (decl : MethodDecl) :
    (w.visitMethod visit (.classBody owner) pos decl cx).2
      = visit.through (.body (.method (w.enterMethod owner pos decl cx).1))
          (decl.body.toList.map (BlockMode.inline, ·)) (w.enterMethod owner pos decl cx).2 := by
  rw [visitMethod_eq]
  cases decl.body with
  | none | some => rfl

theorem visitMethod_isCalled {decl : MethodDecl} (is : node.data.methodDecl? = some decl)
    (stray : scope.kind ≠ .classBody → node.data.IsStray mode scope.kind) :
    w.IsCalled visit mode scope node force cx (w.visitMethod visit scope node.pos decl cx).2 := by
  cases scope with
  | file | body => exact ⟨_, _, _, .stray (stray (by simp [WalkScope.kind])), rfl⟩
  | classBody owner => exact ⟨_, _, _, .method is rfl, visitMethod_eq_through owner node.pos decl⟩

theorem visitVariables_isCalled {modifiers : List Modifier} {nodes : List NodeIndex}
    (is : node.data = .variableDeclaration modifiers nodes) :
    w.IsCalled visit mode scope node force cx
      (w.visitVariables visit scope modifiers nodes force cx).2 := by
  cases scope with
  | file => exact ⟨_, _, _, .stray (by rw [is]; rfl), rfl⟩
  | classBody id => exact ⟨_, _, _, .fields is rfl, visit.each_eq_through _ _ _⟩
  | body body => exact ⟨_, _, _, .locals is rfl, visit.each_eq_through _ _ _⟩

theorem visitBlock_isCalled {statements : List NodeIndex} (is : node.data = .block statements) :
    w.IsCalled visit mode scope node force cx (visitBlock visit mode scope statements cx) := by
  cases mode with
  | inline => exact ⟨_, _, _, .statements is rfl, visit.each_eq_through _ _ _⟩
  | nested =>
    cases inScope : scope.ref? with
    | none =>
      cases scope with
      | file => exact ⟨_, _, _, .stray (by rw [is]; exact ⟨rfl, rfl⟩), rfl⟩
      | classBody | body => contradiction
    | some ref =>
      refine ⟨_, _, _, .block is rfl inScope, ?_⟩
      simp only [visitBlock, openBlock?, inScope]
      exact visit.each_eq_through _ _ _

theorem visitInitializer_isCalled {body : NodeIndex} (is : node.data = .instanceInitializer body) :
    w.IsCalled visit mode scope node force cx (visitInitializer visit scope body cx) := by
  cases scope with
  | file => exact ⟨_, _, _, .stray (by rw [is]; rfl), rfl⟩
  | body id => exact ⟨_, _, _, .innerInitializer is rfl, rfl⟩
  | classBody id => exact ⟨_, _, _, .initializer is rfl, rfl⟩

theorem visitFor_isCalled {init : List NodeIndex} {condition : Option NodeIndex}
    {update : List NodeIndex} {body : NodeIndex}
    (is : node.data = .forStatement init condition update body) :
    w.IsCalled visit mode scope node force cx (visitFor visit scope node.data.children cx) := by
  cases inScope : scope.ref? with
  | none =>
    cases scope with
    | file => exact ⟨_, _, _, .fileLoop is rfl, visit.each_eq_through _ _ _⟩
    | classBody | body => contradiction
  | some ref =>
    refine ⟨_, _, _, .loop is inScope, ?_⟩
    simp only [visitFor, openBlock?, inScope]
    exact visit.each_eq_through _ _ _

theorem visitCatch_isCalled {exception handler : NodeIndex}
    (is : node.data = .catchBlock exception handler) :
    w.IsCalled visit mode scope node force cx
      (w.visitCatch visit scope exception handler cx).2 := by
  cases scope with
  | file | classBody =>
    exact ⟨_, _, _, .stray (by rw [is]; simp [NodeData.IsStray, WalkScope.kind]), rfl⟩
  | body outer => exact ⟨_, _, _, .handler is rfl, rfl⟩

/-- What is done for a node that declares no class. -/
theorem visitData_isCalled (idx : NodeIndex) (noType : node.data.typeDecl? = none)
    (noClass : ∀ outer type arguments members,
      node.data = .anonymousClass outer type arguments members → scope = .file) :
    w.IsCalled visit mode scope node force cx
      (w.visitData visit mode scope idx node.pos force node.data cx).2 := by
  have children (is : node.data.IsPlain) : w.IsCalled visit mode scope node force cx
      (visit.each scope node.data.children cx) :=
    ⟨_, _, _, .children is, visit.each_eq_through _ _ _⟩
  have mention {type : String} (is : node.data.mentioned? = some type) :
      w.IsCalled visit mode scope node force cx (visit.each scope node.data.children
        (cx.linkType w.file scope.ref? type node.pos .existence)) :=
    ⟨_, _, _, .mention is, visit.each_eq_through _ _ _⟩
  cases is : node.data with
  | sourceFile package imports types => exact ⟨_, _, _, .header is, visit.each_eq_through _ _ _⟩
  | classDef | interfaceDef => simp [is, NodeData.typeDecl?] at noType
  | methodDef | constructorDef =>
    refine visitMethod_isCalled (by rw [is]; rfl) fun outside => ?_
    rw [is]
    exact outside
  | formalParameter => exact ⟨_, _, _, .stray (by rw [is]; trivial), rfl⟩
  | variableDeclaration modifiers nodes => exact visitVariables_isCalled is
  | block statements => exact visitBlock_isCalled is
  | instanceInitializer body => exact visitInitializer_isCalled is
  | catchBlock exception handler => exact visitCatch_isCalled is
  | forStatement init condition update body =>
    have called : w.IsCalled visit mode scope node force cx
        (visitFor visit scope node.data.children cx) := visitFor_isCalled is
    rwa [is] at called
  | instantiation outer type arguments =>
    have called := @mention type (by rw [is]; rfl)
    rwa [is] at called
  | cast type operand =>
    have called := @mention type (by rw [is]; rfl)
    rwa [is] at called
  | anonymousClass outer type arguments members =>
    obtain rfl := noClass outer type arguments members is
    exact ⟨_, _, _, .anonymousAtFile is rfl, visit.each_eq_through _ _ _⟩
  | _ =>
    have called := children (by rw [is]; trivial)
    rwa [is] at called

end

/-! ### Classes -/

/-- What is done for an admitted node, however its children are visited: what the node calls for, or
the declaration of a class, or its refusal. -/
inductive IsDone (w : Walk) (visit : Visitor) (mode : BlockMode) (scope : WalkScope)
    (idx : NodeIndex) (node : Node) (force : Bool) (a : Context) : Context → Prop where
  | called {inner : WalkScope} {nodes : List (BlockMode × NodeIndex)} {b : Context}
      (calls : w.Calls mode scope node force a inner nodes b) :
      IsDone w visit mode scope idx node force a (visit.through inner nodes b)
  | duplicate {decl : TypeDecl} (is : node.data.typeDecl? = some decl)
      (refused : (w.qualifiedName scope decl.name a).2.beginClass?
        (w.qualifiedName scope decl.name a).1 scope.ref? decl.head = none) :
      IsDone w visit mode scope idx node force a ((w.qualifiedName scope decl.name a).2.reportPruning
        w.file idx node.pos (.duplicateClass (w.qualifiedName scope decl.name a).1))
  | declared {decl : TypeDecl} {id : SymbolId} {b : Context} (is : node.data.typeDecl? = some decl)
      (begun : (w.qualifiedName scope decl.name a).2.beginClass?
        (w.qualifiedName scope decl.name a).1 scope.ref? decl.head = some (id, b)) :
      IsDone w visit mode scope idx node force a ((visit.each (.classBody id) decl.members
        (w.linkParents id node.pos (w.qualifiedName scope decl.name a).1 decl b)).defineComplete id)
  | anonymousDuplicate {ref : ScopeRef} {outer : Option NodeIndex} {type : String}
      {arguments members : List NodeIndex} {b : Context}
      (is : node.data = .anonymousClass outer type arguments members)
      (inScope : scope.ref? = some ref) (built : b = visit.each scope (outer.toList ++ arguments) a)
      (refused : (numbered ref b).beginClass? (anonymousName ref b) (some ref) (fun s => s) = none) :
      IsDone w visit mode scope idx node force a ((numbered ref b).reportPruning w.file idx node.pos
        (.duplicateClass (anonymousName ref b)))
  | anonymous {ref : ScopeRef} {outer : Option NodeIndex} {type : String}
      {arguments members : List NodeIndex} {id : SymbolId} {b c : Context}
      (is : node.data = .anonymousClass outer type arguments members)
      (inScope : scope.ref? = some ref) (built : b = visit.each scope (outer.toList ++ arguments) a)
      (begun : (numbered ref b).beginClass? (anonymousName ref b) (some ref) (fun s => s)
        = some (id, c)) :
      IsDone w visit mode scope idx node force a ((visit.each (.classBody id) members
        (c.linkType w.file (some ref) type node.pos (.anonymousBase id))).defineComplete id)

section

variable (visit : Visitor) (mode : BlockMode) (scope : WalkScope) (idx : NodeIndex) (node : Node)
  (force : Bool) (cx : Context)

theorem visitTypeDecl_isDone {decl : TypeDecl} (is : node.data.typeDecl? = some decl) :
    w.IsDone visit mode scope idx node force cx
      (w.visitTypeDecl visit scope idx node.pos decl cx).2 := by
  rw [visitTypeDecl_eq]
  split
  · next refused => exact .duplicate is refused
  · next begun => exact .declared is begun

theorem visitAnonymous_isDone {outer : Option NodeIndex} {type : String}
    {arguments members : List NodeIndex} {ref : ScopeRef}
    (is : node.data = .anonymousClass outer type arguments members) (inScope : scope.ref? = some ref) :
    w.IsDone visit mode scope idx node force cx (w.visitAnonymous visit scope idx node.pos type members
      (visit.each scope (outer.toList ++ arguments) cx)).2 := by
  rw [w.visitAnonymous_eq visit inScope]
  split
  · next refused => exact .anonymousDuplicate is inScope rfl refused
  · next begun => exact .anonymous is inScope rfl begun

theorem visitData_isDone (w : Walk) : w.IsDone visit mode scope idx node force cx
    (w.visitData visit mode scope idx node.pos force node.data cx).2 := by
  by_cases plain : node.data.typeDecl? = none ∧ ∀ outer type arguments members,
      node.data = .anonymousClass outer type arguments members → scope = .file
  · obtain ⟨inner, nodes, b, calls, is⟩ : w.IsCalled visit mode scope node force cx _ :=
      visitData_isCalled idx plain.1 plain.2
    rw [is]
    exact .called calls
  · cases is : node.data with
    | classDef | interfaceDef =>
      exact visitTypeDecl_isDone visit mode scope idx node force cx (by rw [is]; rfl)
    | anonymousClass outer type arguments members =>
      cases inScope : scope.ref? with
      | some ref => exact visitAnonymous_isDone visit mode scope idx node force cx is inScope
      | none =>
        cases scope with
        | file => exact absurd ⟨by rw [is]; rfl, fun _ _ _ _ _ => rfl⟩ plain
        | classBody | body => contradiction
    | _ =>
      refine absurd ⟨by rw [is]; rfl, fun _ _ _ _ other => ?_⟩ plain
      rw [is] at other
      contradiction

end

/-! ## Every visit is a journey -/

/-- Visiting a node in an open scope is a journey, and a run as well. -/
structure Journeys (w : Walk) (visit : Visitor) : Prop where
  runs : visit.Runs
  journey (mode : BlockMode) {scope : WalkScope} (idx : NodeIndex) {cx : Context}
    (isOpen : scope.IsOpenIn cx.table) :
    w.Journey scope [(mode, idx)] cx (visit mode scope idx cx).2

namespace Journeys

variable {visit : Visitor} (journeys : w.Journeys visit)
include journeys

theorem through {scope : WalkScope} (nodes : List (BlockMode × NodeIndex)) {cx : Context}
    (isOpen : scope.IsOpenIn cx.table) :
    w.Journey scope nodes cx (visit.through scope nodes cx) := by
  induction nodes generalizing cx with
  | nil => exact .done scope cx
  | cons node rest ih =>
    have run := journeys.runs node.1 scope node.2 cx isOpen
    exact (journeys.journey node.1 node.2 isOpen).append (ih (run.precedes.isOpenIn isOpen))

theorem each {scope : WalkScope} (nodes : List NodeIndex) {cx : Context}
    (isOpen : scope.IsOpenIn cx.table) :
    w.Journey scope (nested nodes) cx (visit.each scope nodes cx) := by
  rw [visit.each_eq_through]
  exact journeys.through (nested nodes) isOpen

section

variable {mode : BlockMode} {scope : WalkScope} {idx : NodeIndex} {node : Node} {remaining : Nat}
  {admission : Admission} {a b : Context} (isOpen : scope.IsOpenIn a.table)
  (found : w.arena.get? idx = some node)
  (admits : w.inspect remaining scope idx node a = (some admission, b))
include isOpen found admits

omit journeys found in
theorem isOpen_inspected : scope.IsOpenIn b.table := by
  have inspected := Run.deed (.inspect a w remaining scope idx node)
  rw [admits] at inspected
  exact inspected.precedes.isOpenIn isOpen

/-- What is done for an admitted node. -/
theorem visitData_journey :
    w.Journey scope [(mode, idx)] a
      (w.visitData visit mode scope idx node.pos admission.forceFinal node.data b).2 := by
  have isOpen' := isOpen_inspected isOpen admits
  have isDone := w.visitData_isDone visit mode scope idx node admission.forceFinal b
  generalize (w.visitData visit mode scope idx node.pos admission.forceFinal node.data b).2 = e at *
  cases isDone with
  | called calls =>
    have inside := (calls.run isOpen').2
    exact .entered isOpen found admits calls (journeys.through _ inside) (.done scope _)
  | duplicate is refused => exact .duplicate isOpen found admits is (.done scope _)
  | @declared decl id c is begun =>
    have inside := Context.beginClass_isOpen begun decl.head_isHead
    have linked := w.linkParents_run inside node.pos (w.qualifiedName scope decl.name b).1 decl
    have inside := WalkScope.isOpenIn_classBody (linked.precedes.table.isOpen inside)
    exact .declared isOpen found admits is begun (journeys.each _ inside) (.done scope _)
  | @anonymousDuplicate ref outer type arguments members c is inScope built refused =>
    have before := journeys.each (outer.toList ++ arguments) isOpen'
    rw [← built] at before
    exact .anonymousDuplicate isOpen found admits is inScope before (.done scope _)
  | @anonymous ref outer type arguments members id c d is inScope built begun =>
    have before := journeys.each (outer.toList ++ arguments) isOpen'
    rw [← built] at before
    have inside := Context.beginClass_isOpen begun fun _ => rfl
    have linked := Context.Precedes.linkType d w.file (some ref) type node.pos (.anonymousBase id)
    have inside := WalkScope.isOpenIn_classBody (linked.table.isOpen inside)
    exact .anonymous isOpen found admits is inScope before begun (journeys.each _ inside)
      (.done scope _)

end

end Journeys

/-- Every visit is a journey. The induction is on the levels of nesting that remain. -/
theorem visit_journeys (w : Walk) (remaining : Nat) : w.Journeys (w.visit remaining) := by
  induction remaining with
  | zero =>
    refine ⟨w.visit_runs 0, fun mode scope idx cx isOpen => ?_⟩
    rw [visit]
    cases found : w.arena.get? idx with
    | none => exact .absent found (.done scope cx)
    | some node => exact .refused isOpen found (.done scope _)
  | succ remaining ih =>
    refine ⟨w.visit_runs _, fun mode scope idx cx isOpen => ?_⟩
    cases found : w.arena.get? idx with
    | none =>
      rw [visit, found]
      exact .absent found (.done scope cx)
    | some node =>
      rw [w.visit_succ found]
      cases entry : w.inspect (remaining + 1) scope idx node cx with
      | mk admission next =>
        cases admission with
        | none => exact .skipped isOpen found entry (.done scope _)
        | some admission => exact ih.visitData_journey isOpen found entry

/-! ## What a journey keeps -/

/-- A journey from an open scope is a run. -/
theorem Journey.run {scope : WalkScope} {nodes : List (BlockMode × NodeIndex)} {a b : Context}
    (journey : w.Journey scope nodes a b) : Run a b := by
  have inspected {remaining : Nat} {scope : WalkScope} {idx : NodeIndex} {node : Node}
      {entry : Option Admission × Context} {a : Context}
      (is : w.inspect remaining scope idx node a = entry) : Run a entry.2 := by
    rw [← is]
    exact .deed (.inspect a w remaining scope idx node)
  induction journey with
  | done => exact .rest _
  | absent _ _ ih => exact ih
  | refused _ _ _ ih => exact (Run.deed (.refuse _ w _ _)).trans ih
  | skipped _ _ skips _ ih => exact (inspected skips).trans ih
  | entered isOpen _ admits calls _ _ inside after =>
    have first := inspected admits
    obtain ⟨run, -⟩ := calls.run (first.precedes.isOpenIn isOpen)
    exact ((first.trans run).trans inside).trans after
  | @duplicate scope _ idx node _ _ decl _ _ b _ isOpen _ admits _ _ ih =>
    have first := inspected admits
    have named := w.qualifiedName_run (first.precedes.isOpenIn isOpen) decl.name
    have refused := Deed.prune (w.qualifiedName scope decl.name b).2 w.file idx node.pos
      (p := .duplicateClass (w.qualifiedName scope decl.name b).1) trivial
    exact ((first.trans named).trans (.deed refused)).trans ih
  | @declared scope _ _ node _ _ decl id _ _ b c _ _ isOpen _ admits _ begun _ _ members after =>
    have first := inspected admits
    have isOpen := first.precedes.isOpenIn isOpen
    have named := w.qualifiedName_run isOpen decl.name
    have opens := opens_declared isOpen begun
    have linked := w.linkParents_run opens.isOpen node.pos (w.qualifiedName scope decl.name b).1 decl
    exact ((first.trans named).trans (.declare opens (linked.trans members))).trans after
  | @anonymousDuplicate _ ref _ idx node _ _ _ _ _ _ _ _ _ c _ isOpen _ admits _ inScope _ _ before
      after =>
    have first := (inspected admits).trans before
    have around := first.precedes.isOpenIn isOpen _ inScope
    have counted : Run c (numbered ref c) := .deed (.enter (.number around))
    have refused := Deed.prune (numbered ref c) w.file idx node.pos
      (p := .duplicateClass (anonymousName ref c)) trivial
    exact ((first.trans counted).trans (.deed refused)).trans after
  | @anonymous _ ref _ _ node _ _ _ type _ _ id _ _ _ c d _ _ isOpen _ admits _ inScope _ begun _ _
      before members after =>
    have first := (inspected admits).trans before
    have around := first.precedes.isOpenIn isOpen _ inScope
    have counted : Run c (numbered ref c) := .deed (.enter (.number around))
    have opens := anonymous_opens around begun
    have around := (counted.precedes.trans opens.precedes).table.isOpen around
    have linked := w.linkType_run around type node.pos (.anonymousBase id) opens.isOpen
    exact ((first.trans counted).trans (.declare opens (linked.trans members))).trans after

/-- Whatever a walk does on its own keeps the property, in states of which the invariant is known to
hold. -/
structure Keeps (w : Walk) (Inv P : Context → Prop) : Prop where
  steady {a b : Context} (course : Course a b) : Inv a → Inv b
  refuses {idx : NodeIndex} {node : Node} {a : Context} (inv : Inv a)
    (found : w.arena.get? idx = some node) : P a → P (w.refuseDepth idx node a)
  inspects {remaining : Nat} {scope : WalkScope} {idx : NodeIndex} {node : Node} {a : Context}
    (inv : Inv a) (isOpen : scope.IsOpenIn a.table) (found : w.arena.get? idx = some node) :
    P a → P (w.inspect remaining scope idx node a).2
  calls {mode : BlockMode} {scope inner : WalkScope} {idx : NodeIndex} {node : Node} {force : Bool}
    {nodes : List (BlockMode × NodeIndex)} {a b : Context} (inv : Inv a)
    (isOpen : scope.IsOpenIn a.table) (found : w.arena.get? idx = some node)
    (calls : w.Calls mode scope node force a inner nodes b) : P a → P b
  refusesName {scope : WalkScope} {simple : String} {idx : NodeIndex} {node : Node} {a : Context}
    (inv : Inv a) (isOpen : scope.IsOpenIn a.table) (found : w.arena.get? idx = some node) : P a →
    P ((w.qualifiedName scope simple a).2.reportPruning w.file idx node.pos
      (.duplicateClass (w.qualifiedName scope simple a).1))
  /-- A class is begun as soon as its declaration has been inspected. -/
  declares {remaining : Nat} {scope : WalkScope} {idx : NodeIndex} {node : Node}
    {admission : Admission} {decl : TypeDecl} {id : SymbolId} {a b c : Context} (inv : Inv a)
    (isOpen : scope.IsOpenIn a.table) (found : w.arena.get? idx = some node)
    (admits : w.inspect remaining scope idx node a = (some admission, b))
    (is : node.data.typeDecl? = some decl)
    (begun : (w.qualifiedName scope decl.name b).2.beginClass? (w.qualifiedName scope decl.name b).1
      scope.ref? decl.head = some (id, c)) :
    P a → P (w.linkParents id node.pos (w.qualifiedName scope decl.name b).1 decl c)
  refusesNumber {ref : ScopeRef} {idx : NodeIndex} {node : Node} {a : Context} (inv : Inv a)
    (isOpen : a.table.IsOpen ref) (found : w.arena.get? idx = some node) : P a →
    P ((numbered ref a).reportPruning w.file idx node.pos (.duplicateClass (anonymousName ref a)))
  /-- An anonymous class has been offered to the policy before it is begun. -/
  declaresAnonymous {idx : NodeIndex} {node : Node} {outer : Option NodeIndex} {type : String}
    {arguments members : List NodeIndex} {ref : ScopeRef} {id : SymbolId} {a b : Context} (inv : Inv a)
    (isOpen : a.table.IsOpen ref) (found : w.arena.get? idx = some node)
    (is : node.data = .anonymousClass outer type arguments members)
    (offered : (w.file, node) ∈ a.sites)
    (begun : (numbered ref a).beginClass? (anonymousName ref a) (some ref) (fun s => s)
      = some (id, b)) : P a → P (b.linkType w.file (some ref) type node.pos (.anonymousBase id))
  completes {id : SymbolId} {a : Context} (inv : Inv a) (isOpen : a.table.IsOpen (.symbol id)) :
    P a → P (a.defineComplete id)

/-- What whatever a walk does on its own keeps, a journey keeps. -/
theorem Journey.keeps {Inv P : Context → Prop} (keeps : w.Keeps Inv P) {scope : WalkScope}
    {nodes : List (BlockMode × NodeIndex)} {a b : Context} (journey : w.Journey scope nodes a b)
    (inv : Inv a) (holds : P a) : P b := by
  have inspected {remaining : Nat} {scope : WalkScope} {idx : NodeIndex} {node : Node}
      {entry : Option Admission × Context} {a : Context} (inv : Inv a)
      (isOpen : scope.IsOpenIn a.table) (found : w.arena.get? idx = some node)
      (is : w.inspect remaining scope idx node a = entry) (holds : P a) :
      Inv entry.2 ∧ P entry.2 := by
    rw [← is]
    exact ⟨keeps.steady (.deed (.rest a) (.inspect a w remaining scope idx node)) inv,
      keeps.inspects inv isOpen found holds⟩
  induction journey with
  | done => exact holds
  | absent _ _ ih => exact ih inv holds
  | @refused _ _ idx node _ a _ _ found _ ih =>
    have course := Course.deed (.rest a) (.refuse a w idx node)
    exact ih (keeps.steady course inv) (keeps.refuses inv found holds)
  | skipped isOpen found skips _ ih =>
    obtain ⟨inv, holds⟩ := inspected inv isOpen found skips holds
    exact ih inv holds
  | entered isOpen found admits calls first _ inside after =>
    have isOpen' := Journeys.isOpen_inspected isOpen admits
    obtain ⟨inv, holds⟩ := inspected inv isOpen found admits holds
    have inner := keeps.steady (.of_run (calls.run isOpen').1) inv
    exact after (keeps.steady (.of_run first.run) inner)
      (inside inner (keeps.calls inv isOpen' found calls holds))
  | @duplicate scope _ idx node _ _ decl _ _ b _ isOpen found admits is _ ih =>
    have isOpen' := Journeys.isOpen_inspected isOpen admits
    obtain ⟨inv, holds⟩ := inspected inv isOpen found admits holds
    have named := Course.of_run (w.qualifiedName_run isOpen' decl.name)
    exact ih (keeps.steady (named.deed (.prune _ w.file idx node.pos trivial)) inv)
      (keeps.refusesName inv isOpen' found holds)
  | @declared scope _ idx node remaining _ decl id _ a b c _ _ isOpen found admits is begun inside _
      members after =>
    have isOpen' := Journeys.isOpen_inspected isOpen admits
    have opens := opens_declared isOpen' begun
    have linked := w.linkParents_run opens.isOpen node.pos (w.qualifiedName scope decl.name b).1 decl
    have first := Course.deed (.rest a) (.inspect a w remaining scope idx node)
    rw [admits] at first
    have begins := (first.trans (.of_run (w.qualifiedName_run isOpen' decl.name))).opens opens
    have begunInv := keeps.steady (begins.trans (.of_run linked)) inv
    have endInv := keeps.steady (.of_run inside.run) begunInv
    have stillOpen := (linked.trans inside.run).precedes.table.isOpen opens.isOpen
    exact after (keeps.steady (.completes (.rest _) stillOpen) endInv)
      (keeps.completes endInv stillOpen
        (members begunInv (keeps.declares inv isOpen found admits is begun holds)))
  | @anonymousDuplicate _ ref _ idx node _ _ _ _ _ _ _ _ _ c _ isOpen found admits _ inScope first _
      before after =>
    have isOpen' := Journeys.isOpen_inspected isOpen admits
    have around := first.run.precedes.isOpenIn isOpen' _ inScope
    obtain ⟨inv, holds⟩ := inspected inv isOpen found admits holds
    have builtInv := keeps.steady (.of_run first.run) inv
    have counted : Course c (numbered ref c) := .deed (.rest c) (.enter (.number around))
    exact after (keeps.steady (counted.deed (.prune _ w.file idx node.pos trivial)) builtInv)
      (keeps.refusesNumber builtInv around found (before inv holds))
  | @anonymous _ ref _ _ node _ _ _ type _ _ id _ _ _ c d _ _ isOpen found admits is inScope first
      begun inside _ before members after =>
    have isOpen' := Journeys.isOpen_inspected isOpen admits
    have around := first.run.precedes.isOpenIn isOpen' _ inScope
    have opens := anonymous_opens around begun
    -- the node is the last one that has been offered before its arguments
    have offered : (w.file, node) ∈ c.sites := by
      refine (Course.of_run first.run).sites.subset ?_
      rw [w.admits_sites admits]
      exact List.mem_append_right _ List.mem_cons_self
    have counted : Course c (numbered ref c) := .deed (.rest c) (.enter (.number around))
    have stillAround := opens.precedes.table.isOpen (counted.precedes.table.isOpen around)
    have linked := w.linkType_run stillAround type node.pos (.anonymousBase id) opens.isOpen
    obtain ⟨inv, holds⟩ := inspected inv isOpen found admits holds
    have builtInv := keeps.steady (.of_run first.run) inv
    have begunInv := keeps.steady ((counted.opens opens).trans (.of_run linked)) builtInv
    have endInv := keeps.steady (.of_run inside.run) begunInv
    have stillOpen := (linked.trans inside.run).precedes.table.isOpen opens.isOpen
    exact after (keeps.steady (.completes (.rest _) stillOpen) endInv)
      (keeps.completes endInv stillOpen
        (members begunInv
          (keeps.declaresAnonymous builtInv around found is offered begun (before inv holds))))

end Walk

/-- Analysing a file is a journey to the root of its tree. -/
theorem Context.analyzeFile_journey (cx : Context) (unit : SourceUnit) :
    (cx.walkOf unit).Journey .file [(.nested, unit.tree.root)]
      (cx.addFile unit.tree.fileName unit.level).2 (cx.analyzeFile unit).2 :=
  (Walk.visit_journeys _ _).journey .nested unit.tree.root (WalkScope.isOpenIn_file _)

end LevelCheck
