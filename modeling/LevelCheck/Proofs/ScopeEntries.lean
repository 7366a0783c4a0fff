import LevelCheck.Proofs.Repeats
import LevelCheck.Proofs.OtherScopes
set_option autoImplicit false

/-! # What nodes add to a body

A node that is visited in a body declares variables there, or opens a block there, or does neither, and
further nodes are visited in that body or in the block. `Walk.Entry` says so of each node, with what
the table has gained before those further nodes are visited, and `Walk.Gains` of a list of nodes, after they
have all been visited: the body has got the variables and the blocks of their outline. -/

namespace LevelCheck

/-! ## Declared variables -/

namespace SymbolTable

variable {t u v : SymbolTable}

/-- New variables are the ones that their declarators write. -/
theorem Lists.reads {scope ref : ScopeRef} {written : List Walk.Declarator} {force : Bool}
    (lists : Lists t u scope (Walk.writtenVars written ref force)) :
    List.Forall₂ u.Reads (t.nextVariables (Walk.writtenVars written ref force).length) written := by
  have length : (Walk.writtenVars written ref force).length = written.length := by
    simp [Walk.writtenVars]
  rw [length, List.forall₂_iff_get]
  refine ⟨by simp [nextVariables], fun i _ below => ?_⟩
  have read : u.var ⟨t.vars.size + i⟩
      = if force then ((written.get ⟨i, below⟩).variable ref).setFinal
        else (written.get ⟨i, below⟩).variable ref := by
    rw [var, lists.vars, appendVars]
    simp [Array.getD_eq_getD_getElem?, Walk.writtenVars, below]
  have id : (t.nextVariables written.length).get ⟨i, by simpa [nextVariables] using below⟩
      = ⟨t.vars.size + i⟩ := by simp [nextVariables]
  rw [id]
  refine ⟨?_, ?_, ?_, ?_, ?_⟩
  · rw [lists.vars, appendVars]
    simp [length, below]
  all_goals
    rw [read]
    split <;> rfl

/-- The scope declares further variables, and the blocks in it stay the same. -/
def Appends (t u : SymbolTable) (scope : ScopeRef) (own : List Walk.Declarator) : Prop :=
  ∃ ids, u.varsOf scope = t.varsOf scope ++ ids ∧ List.Forall₂ u.Reads ids own
    ∧ u.blocksOf scope = t.blocksOf scope

namespace Appends

variable {scope : ScopeRef} {own : List Walk.Declarator}

theorem refl (t : SymbolTable) (scope : ScopeRef) : t.Appends t scope [] :=
  ⟨[], (List.append_nil _).symm, .nil, rfl⟩

theorem of_lists {ref : ScopeRef} {force : Bool}
    (lists : Lists t u scope (Walk.writtenVars own ref force)) : t.Appends u scope own :=
  ⟨_, by rw [lists.lists, if_pos rfl], lists.reads, lists.blocksOf scope⟩

theorem spared (body : BodyId) (appends : t.Appends u body.scope own) (isOpen : u.IsOpen body.scope)
    (spares : u.Spares v none) : t.Appends v body.scope own := by
  obtain ⟨ids, vars, reads, blocks⟩ := appends
  obtain ⟨sameVars, sameBlocks⟩ := spares.lists body isOpen nofun
  exact ⟨ids, sameVars.trans vars, spares.readsAll reads, sameBlocks.trans blocks⟩

end Appends

/-- The body has the variables, and no blocks. -/
structure Starts (t : SymbolTable) (body : BodyId) (own : List Walk.Declarator) : Prop where
  reads : List.Forall₂ t.Reads (t.varsOf body.scope) own
  empty : t.blocksOf body.scope = []

namespace Starts

variable {body : BodyId} {own : List Walk.Declarator}

theorem append (starts : t.Starts body []) (appends : t.Appends u body.scope own) :
    u.Starts body own := by
  obtain ⟨ids, vars, reads, blocks⟩ := appends
  refine ⟨?_, blocks.trans starts.empty⟩
  rw [vars, List.forall₂_nil_right_iff.1 starts.reads]
  exact reads

/-- A new method has neither variables nor blocks. -/
theorem addMethod (t : SymbolTable) {m : Method} (vars : m.vars = []) (blocks : m.blocks = []) :
    (t.addMethod m).2.Starts (.method (t.addMethod m).1) [] := by
  have read := (Walk.addMethod_isNew t m).2
  refine ⟨?_, ?_⟩
  · rw [BodyId.scope, varsOf, read, vars]
    exact .nil
  · rw [BodyId.scope, blocksOf, read, blocks]

/-- A new block has neither variables nor blocks. -/
theorem addBlock {outer : ScopeRef} (isOpen : t.IsOpen outer) :
    (t.addBlock outer).2.Starts (.block (t.addBlock outer).1) [] := by
  refine ⟨?_, ?_⟩
  · rw [BodyId.scope, varsOf, (t.addBlock_isNew outer).1]
    exact .nil
  · have beyond : t.block ⟨t.blocks.size⟩ = default := by simp [block]
    rw [t.addBlock_blocksOf isOpen, if_neg, addBlock_fst, BodyId.scope, blocksOf, beyond]
    · rfl
    · intro is
      rw [← is, addBlock_fst] at isOpen
      exact Nat.lt_irrefl _ isOpen

end Starts

end SymbolTable

/-! ## What a body gains -/

namespace Walk

variable {w : Walk}

/-- The body has got the variables and the blocks that the nodes say, and all of these blocks are
new. -/
inductive Gains (w : Walk) (body : BodyId) (nodes : List (BlockMode × NodeIndex))
    (t u : SymbolTable) : Prop where
  | intro {vars : List Declarator} {blocks : List ScopeOutline} {newVars : List VariableId}
      {newBlocks : List BlockId} (outline : w.Outline nodes vars blocks)
      (lists : u.varsOf body.scope = t.varsOf body.scope ++ newVars)
      (reads : List.Forall₂ u.Reads newVars vars)
      (listsBlocks : u.blocksOf body.scope = t.blocksOf body.scope ++ newBlocks)
      (mirrors : u.Mirrors newBlocks blocks) (areNew : ∀ b ∈ newBlocks, t.blocks.size ≤ b.val)

namespace Gains

variable {body : BodyId} {nodes more : List (BlockMode × NodeIndex)} {t u v : SymbolTable}

theorem nil (w : Walk) (body : BodyId) (t : SymbolTable) : w.Gains body [] t t :=
  .intro .nil (List.append_nil _).symm .nil (List.append_nil _).symm .nil nofun

/-- An index that names no node adds nothing. -/
theorem absent {mode : BlockMode} {idx : NodeIndex} (missing : w.arena.get? idx = none)
    (gains : w.Gains body nodes t u) : w.Gains body ((mode, idx) :: nodes) t u := by
  obtain ⟨outline, lists, reads, listsBlocks, mirrors, areNew⟩ := gains
  exact .intro (.absent missing outline) lists reads listsBlocks mirrors areNew

theorem append (first : w.Gains body nodes t u) (grows : t.Grows u) (scopes : u.ScopeTree)
    (isOpen : t.IsOpen body.scope) (spares : u.Spares v (some body.scope))
    (second : w.Gains body more u v) : w.Gains body (nodes ++ more) t v := by
  obtain @⟨_, _, _, newBlocks, outline, lists, reads, listsBlocks, mirrors, areNew⟩ := first
  obtain ⟨outline', lists', reads', listsBlocks', mirrors', areNew'⟩ := second
  -- the new blocks have higher numbers than the body, which was open before
  have below (id : BlockId) (is : some body.scope = some (.block id)) : id.val < t.blocks.size := by
    rw [Option.some.inj is] at isOpen
    exact isOpen
  have known (b : BlockId) (isIn : b ∈ newBlocks) : b.val < u.blocks.size := by
    have listed : b ∈ u.blocksOf body.scope := listsBlocks ▸ List.mem_append_right _ isIn
    exact (scopes.of_mem_blocksOf listed).1
  have still := spares.mirrors scopes below mirrors fun b isIn => ⟨areNew b isIn, known b isIn⟩
  refine .intro (outline.append outline') ?_ (List.rel_append (spares.readsAll reads) reads') ?_
    (still.append mirrors') fun b isIn => ?_
  · rw [lists', lists, List.append_assoc]
  · rw [listsBlocks', listsBlocks, List.append_assoc]
  · rcases List.mem_append.1 isIn with earlier | later
    · exact areNew b earlier
    · exact grows.blocks.trans (areNew' b later)

/-- The nodes in a body fill it, after variables of its own. -/
theorem fills (gains : w.Gains body nodes t u) (spares : t.Spares u (some body.scope))
    {own : List Declarator} (starts : t.Starts body own) : w.Fills u body.scope own nodes := by
  obtain ⟨outline, lists, reads, listsBlocks, mirrors, -⟩ := gains
  refine ⟨_, _, outline, ?_, ?_⟩
  · rw [lists]
    exact List.rel_append (spares.readsAll starts.reads) reads
  · rw [listsBlocks, starts.empty]
    exact mirrors

section

variable {mode : BlockMode} {idx : NodeIndex} {node : Node} {own : List Declarator}
  (found : w.arena.get? idx = some node)
include found

/-- A node declares variables in the body, and further nodes lie there. -/
theorem joins (is : w.portion mode node.data = .joins own nodes)
    (appends : t.Appends u body.scope own) (grows : t.Grows u) (inside : w.Gains body nodes u v)
    (spares : u.Spares v (some body.scope)) : w.Gains body [(mode, idx)] t v := by
  obtain ⟨ids, vars, reads, blocks⟩ := appends
  obtain ⟨outline, lists, reads', listsBlocks, mirrors, areNew⟩ := inside
  have whole : w.Outline [(mode, idx)] _ _ := .joins found is outline .nil
  rw [List.append_nil, List.append_nil] at whole
  refine .intro whole ?_ (List.rel_append (spares.readsAll reads) reads') ?_ mirrors
    fun b isIn => grows.blocks.trans (areNew b isIn)
  · rw [lists, vars, List.append_assoc]
  · rw [listsBlocks, blocks]

/-- A node opens a block in the body. -/
theorem opens (is : w.portion mode node.data = .opens own nodes) {id : BlockId}
    (isNew : id.val = t.blocks.size) (vars : u.varsOf body.scope = t.varsOf body.scope)
    (blocks : u.blocksOf body.scope = t.blocksOf body.scope ++ [id])
    (fills : w.Fills u (.block id) own nodes) : w.Gains body [(mode, idx)] t u := by
  obtain ⟨_, _, outline, reads, mirrors⟩ := fills
  have whole : w.Outline [(mode, idx)] _ _ := .opens found is outline .nil
  refine .intro whole ?_ .nil blocks (.cons reads mirrors .nil) fun b isIn => ?_
  · rw [vars, List.append_nil]
  · rw [List.mem_singleton.1 isIn, isNew]

end

end Gains

/-! ## What a node calls for -/

/-- What a node calls for, as far as scopes are concerned: variables in the scope around it, a block
there, or a method. -/
inductive Entry (w : Walk) (mode : BlockMode) (scope : WalkScope) (node : Node) (a : Context) :
    WalkScope → List (BlockMode × NodeIndex) → Context → Prop where
  | stays {nodes : List (BlockMode × NodeIndex)} {b : Context}
      (noMethod : scope.kind = .classBody → node.data.methodDecl? = none)
      (methods : b.table.methods.size = a.table.methods.size)
      (spares : a.table.Spares b.table scope.ref?)
      (joins : ∀ body, scope = .body body → ∃ own,
        w.portion mode node.data = .joins own nodes ∧ a.table.Appends b.table body.scope own) :
      Entry w mode scope node a scope nodes b
  | opens {ref : ScopeRef} {id : BlockId} {own : List Declarator}
      {nodes : List (BlockMode × NodeIndex)} {b : Context} (noMethod : node.data.methodDecl? = none)
      (methods : b.table.methods.size = a.table.methods.size) (inScope : scope.ref? = some ref)
      (isNew : id.val = a.table.blocks.size) (spares : a.table.Spares b.table (some ref))
      (vars : b.table.varsOf ref = a.table.varsOf ref)
      (blocks : b.table.blocksOf ref = a.table.blocksOf ref ++ [id])
      (starts : b.table.Starts (.block id) own)
      (opens : ∀ body, scope = .body body → w.portion mode node.data = .opens own nodes) :
      Entry w mode scope node a (.body (.block id)) nodes b
  | method {decl : MethodDecl} {owner : SymbolId} {id : MethodId} {b : Context}
      (is : node.data.methodDecl? = some decl) (inClass : scope = .classBody owner)
      (isNew : id.val = a.table.methods.size)
      (methods : b.table.methods.size = a.table.methods.size + 1)
      (spares : a.table.Spares b.table none) (name : (b.table.method id).name = decl.name)
      (isConstructor : (b.table.method id).isConstructor = decl.isConstructor)
      (starts : b.table.Starts (.method id) (decl.params.filterMap w.param?)) :
      Entry w mode scope node a (.body (.method id)) (decl.body.toList.map (BlockMode.inline, ·)) b

/-- Variables have been entered, and linking their types leaves them as they are written. -/
theorem declareVariables_spares (scope : ScopeRef) (written : List Declarator) (pos : Position)
    (problem : String → Problem) (entry : Declared × SymbolTable) (a : Context) :
    entry.2.SameWriting (w.declareVariables scope written pos problem entry a).table
      ∧ entry.2.Spares (w.declareVariables scope written pos problem entry a).table none := by
  have linked := w.linkVariables_silent scope written entry.1.ids
    (w.reportDuplicates written pos problem entry.1.duplicates { a with table := entry.2 })
  have same := linked.written
  have grows := linked.table.grows
  rw [reportDuplicates_table] at same grows
  exact ⟨same, .of_written same grows⟩

section

variable {a : Context} (owned : a.Owned)
include owned

/-- Fields are no concern of a body. -/
theorem declareFields_spares {id : SymbolId} (isOpen : a.table.IsOpen (.symbol id))
    (written : List Declarator) (force : Bool) :
    a.table.Spares (w.declareFields id written force a).table (some (.symbol id))
      ∧ (w.declareFields id written force a).table.methods.size = a.table.methods.size := by
  have lists := SymbolTable.addFields_lists owned.forest.vars isOpen
    (writtenVars written (.symbol id) force)
  obtain ⟨same, after⟩ := w.declareVariables_spares (.symbol id) written .nowhere .duplicateField
    (a.table.addFields id (writtenVars written (.symbol id) force)) a
  exact ⟨(SymbolTable.Spares.of_lists lists).trans (after.weaken _),
    same.methods_size.trans lists.methods⟩

/-- Local variables are appended to those of their body. -/
theorem declareLocals_appends (body : BodyId) (isOpen : a.table.IsOpen body.scope)
    (written : List Declarator) (pos : Position) (force : Bool) :
    a.table.Spares (w.declareLocals body written pos force a).table (some body.scope)
      ∧ (w.declareLocals body written pos force a).table.methods.size = a.table.methods.size
      ∧ a.table.Appends (w.declareLocals body written pos force a).table body.scope written := by
  have lists := SymbolTable.addVars_lists owned.forest.vars isOpen
    (writtenVars written body.scope force) a.options.duplicateScope
  obtain ⟨same, after⟩ := w.declareVariables_spares body.scope written pos
    (fun _ => .duplicateVariable)
    (a.table.addVars body (writtenVars written body.scope force) a.options.duplicateScope) a
  exact ⟨(SymbolTable.Spares.of_lists lists).trans (after.weaken _),
    same.methods_size.trans lists.methods,
    (SymbolTable.Appends.of_lists lists).spared body (lists.grows.isOpen isOpen) after⟩

/-- The block of a handler starts with the exception. -/
theorem enterException_starts {id : BlockId} (isOpen : a.table.IsOpen (.block id))
    (starts : a.table.Starts (.block id) []) (exception : NodeIndex) :
    a.table.Spares (w.enterException id exception a).2.table (some (.block id))
      ∧ (w.enterException id exception a).2.table.methods.size = a.table.methods.size
      ∧ (w.enterException id exception a).2.table.Starts (.block id)
          (w.param? exception).toList := by
  rw [enterException_eq]
  cases w.param? exception with
  | none => exact ⟨.refl _ _, rfl, starts⟩
  | some d =>
    obtain ⟨spares, methods, appends⟩ :=
      w.declareLocals_appends owned (.block id) isOpen [d] d.pos false
    simp only [Option.toList_some]
    exact ⟨spares, methods, starts.append appends⟩

/-- A method starts with its parameters. -/
theorem declareParams_starts (id : MethodId) (isOpen : a.table.IsOpen (.method id))
    (only : (a.table.method id).vars = (a.table.method id).params)
    (starts : a.table.Starts (.method id) []) (pos : Position) (decl : MethodDecl)
    (params : List Declarator) :
    a.table.Spares (w.declareParams id pos decl params a).table (some (.method id))
      ∧ (w.declareParams id pos decl params a).table.methods.size = a.table.methods.size
      ∧ (w.declareParams id pos decl params a).table.Starts (.method id) params := by
  let entry := a.table.addParams id (params.map (·.variable (.method id)))
  have lists : a.table.Lists entry.2 (.method id) (writtenVars params (.method id) false) :=
    SymbolTable.addParams_lists owned.forest.vars isOpen only _
  have linked := w.linkSignature_silent id pos decl params entry.1.ids
    (w.reportDuplicates params pos (fun _ => .duplicateParameter) entry.1.duplicates
      { a with table := entry.2 })
  have same := linked.written
  have grows := linked.table.grows
  rw [reportDuplicates_table] at same grows
  have after := SymbolTable.Spares.of_written same grows
  have appends := (SymbolTable.Appends.of_lists lists).spared (.method id)
    (lists.grows.isOpen isOpen) after
  exact ⟨(SymbolTable.Spares.of_lists lists).trans (after.weaken _),
    same.methods_size.trans lists.methods, starts.append appends⟩

theorem enterMethod_entry {mode : BlockMode} {owner : SymbolId} {node : Node} {decl : MethodDecl}
    (isOpen : a.table.IsOpen (.symbol owner)) (is : node.data.methodDecl? = some decl) :
    w.Entry mode (.classBody owner) node a (.body (.method (w.enterMethod owner node.pos decl a).1))
      (decl.body.toList.map (BlockMode.inline, ·)) (w.enterMethod owner node.pos decl a).2 := by
  let added := a.table.addMethod (decl.record owner)
  have isNew := addMethod_isNew a.table (decl.record owner)
  have size : added.2.methods.size = a.table.methods.size + 1 := by
    simp [added, SymbolTable.addMethod]
  have closed : ¬ a.table.IsOpen (.method added.1) := Nat.lt_irrefl _
  have entered : Run a { a with table := added.2 } :=
    .deed (.enter (.method isOpen decl.name (Modifier.flags decl.modifiers) decl.typeParams
      decl.returnType decl.throws decl.isConstructor))
  have starts := SymbolTable.Starts.addMethod a.table (m := decl.record owner) rfl rfl
  -- the name of a constructor is checked, which leaves the table alone
  let named := w.reportAll node.pos (constructorProblem? (added.2.symbol owner) decl).toList
    { a with table := added.2 }
  have ownedNamed : named.Owned := owned.steps (entered.trans
    (w.reportAll_run node.pos (constructorProblem_isOwn (added.2.symbol owner) decl) _)).steps
  have sameTable : named.table = added.2 := w.reportAll_table ..
  obtain ⟨spares, methods, starts⟩ := w.declareParams_starts ownedNamed added.1
    (by rw [sameTable]; exact isNew.1) (by rw [sameTable, isNew.2]; rfl)
    (by rw [sameTable]; exact starts) node.pos decl (decl.params.filterMap w.param?)
  rw [sameTable] at spares methods
  obtain ⟨name, isConstructor⟩ := spares.method added.1 isNew.1
  rw [isNew.2] at name isConstructor
  exact .method is rfl rfl (methods.trans size)
    ((SymbolTable.Spares.addMethod a.table _).inside closed spares) name isConstructor starts

omit owned in
/-- A block is opened in an open scope. -/
theorem inBlock_spares {ref : ScopeRef} (isOpen : a.table.IsOpen ref) :
    a.table.Spares (inBlock ref a).table (some ref)
      ∧ (inBlock ref a).table.methods.size = a.table.methods.size
      ∧ (inBlock ref a).table.varsOf ref = a.table.varsOf ref
      ∧ (inBlock ref a).table.blocksOf ref
        = a.table.blocksOf ref ++ [(a.table.addBlock ref).1]
      ∧ (inBlock ref a).table.Starts (.block (a.table.addBlock ref).1) [] := by
  refine ⟨.addBlock isOpen, (a.table.addBlock_sizes ref).2.1, ?_, ?_, .addBlock isOpen⟩
  · exact (SymbolTable.SameVars.addBlock a.table ref).lists ref
  · rw [a.table.addBlock_blocksOf isOpen, if_pos rfl, SymbolTable.addBlock_fst]

end

/-- A node that is passed over adds nothing to a body. -/
theorem portion_stray {mode : BlockMode} {data : NodeData} (stray : data.IsStray mode .body) :
    w.portion mode data = .joins [] [] := by
  cases data with
  | formalParameter | methodDef | constructorDef => rfl
  | catchBlock => exact absurd rfl stray
  | variableDeclaration | instanceInitializer => cases stray
  | block => cases stray.1
  | _ => exact stray.elim

theorem portion_plain {mode : BlockMode} {data : NodeData} (plain : data.IsPlain) :
    w.portion mode data = .joins [] (nested data.children) := by
  cases data with
  | variableDeclarator | tryCatch | expressionStatement | returnStatement | ifStatement
  | whileStatement | binary | unary | assignment | literal | nameReference | fieldAccess
  | methodInvocation | thisReference => rfl
  | _ => exact plain.elim

/-- What a node calls for is known by kinds of entries. -/
theorem Calls.entry {mode : BlockMode} {scope inner : WalkScope} {node : Node} {force : Bool}
    {nodes : List (BlockMode × NodeIndex)} {a b : Context} (owned : a.Owned)
    (isOpen : scope.IsOpenIn a.table) (calls : w.Calls mode scope node force a inner nodes b) :
    w.Entry mode scope node a inner nodes b := by
  have noMethod {data : NodeData} (is : node.data = data) (other : data.methodDecl? = none) :
      node.data.methodDecl? = none := by rw [is, other]
  have inBody (data : NodeData) (is : node.data = data) {nodes : List (BlockMode × NodeIndex)}
      (joins : w.portion mode data = .joins [] nodes) (body : BodyId) :
      ∃ own, w.portion mode node.data = .joins own nodes
        ∧ a.table.Appends a.table body.scope own :=
    ⟨[], by rw [is, joins], .refl _ _⟩
  cases calls with
  | header is =>
    exact .stays (fun _ => noMethod is rfl) rfl (.refl _ _) fun body _ => inBody _ is rfl body
  | method is inClass =>
    subst inClass
    exact enterMethod_entry owned (isOpen _ rfl) is
  | fields is inClass =>
    subst inClass
    obtain ⟨spares, methods⟩ := w.declareFields_spares owned (isOpen _ rfl) _ force
    exact .stays (fun _ => noMethod is rfl) methods spares nofun
  | @locals modifiers nodes body is inBody =>
    subst inBody
    obtain ⟨spares, methods, appends⟩ :=
      w.declareLocals_appends owned body (isOpen _ rfl) _ .nowhere force
    refine .stays (fun _ => noMethod is rfl) methods spares fun _ here => ?_
    obtain rfl := WalkScope.body.inj here
    exact ⟨_, by rw [is]; rfl, appends⟩
  | block is nested inScope =>
    obtain ⟨spares, methods, vars, blocks, starts⟩ := inBlock_spares (isOpen _ inScope)
    refine .opens (noMethod is rfl) methods inScope (by rw [SymbolTable.addBlock_fst]) spares vars
      blocks starts fun _ _ => ?_
    rw [is, nested]
    rfl
  | statements is inline =>
    exact .stays (fun _ => noMethod is rfl) rfl (.refl _ _) fun body _ =>
      inBody _ is (by rw [inline]; rfl) body
  | initializer is inClass =>
    subst inClass
    obtain ⟨spares, methods, vars, blocks, starts⟩ := inBlock_spares (isOpen _ rfl)
    exact .opens (noMethod is rfl) methods rfl (by rw [SymbolTable.addBlock_fst]) spares vars
      blocks starts nofun
  | innerInitializer is inside =>
    subst inside
    exact .stays (fun _ => noMethod is rfl) rfl (.refl _ _) fun body _ => inBody _ is rfl body
  | @handler exception handler outer is inside =>
    subst inside
    have isOpen := isOpen _ rfl
    obtain ⟨spares, methods, vars, blocks, starts⟩ := inBlock_spares isOpen
    have opened : Run a (inBlock outer.scope a) := addBlock_run isOpen
    obtain ⟨spares', methods', starts'⟩ := w.enterException_starts (owned.steps opened.steps)
      (addBlock_isOpen a.table outer.scope) starts exception
    have closed : ¬ a.table.IsOpen (.block (a.table.addBlock outer.scope).1) := by
      rw [SymbolTable.addBlock_fst]
      exact Nat.lt_irrefl _
    obtain ⟨sameVars, sameBlocks⟩ := spares'.lists outer (spares.grows.isOpen isOpen) fun is =>
      closed (Option.some.inj is ▸ isOpen)
    refine .opens (noMethod is rfl) (methods'.trans methods) rfl (by rw [SymbolTable.addBlock_fst])
      (spares.inside closed spares') (sameVars.trans vars) (sameBlocks.trans blocks) starts'
      fun _ _ => ?_
    rw [is]
    rfl
  | loop is inScope =>
    obtain ⟨spares, methods, vars, blocks, starts⟩ := inBlock_spares (isOpen _ inScope)
    refine .opens (noMethod is rfl) methods inScope (by rw [SymbolTable.addBlock_fst]) spares vars
      blocks starts fun _ _ => ?_
    rw [is]
    rfl
  | fileLoop is outside =>
    subst outside
    exact .stays (fun _ => noMethod is rfl) rfl (.refl _ _) nofun
  | @mention type is =>
    have linked := Context.Silent.linkType a w.file scope.ref? type node.pos .existence
    have spares := SymbolTable.Spares.of_written linked.written linked.table.grows
    refine .stays (fun _ => ?_) linked.written.methods_size (spares.weaken _) fun body inside => ?_
    · cases data : node.data <;> rw [data] at is <;> first | rfl | cases is
    · subst inside
      refine ⟨[], ?_, (SymbolTable.Appends.refl _ _).spared body (isOpen _ rfl) spares⟩
      cases data : node.data <;> rw [data] at is <;> first | rfl | cases is
  | anonymousAtFile is outside =>
    subst outside
    exact .stays (fun _ => noMethod is rfl) rfl (.refl _ _) nofun
  | children plain =>
    refine .stays (fun _ => ?_) rfl (.refl _ _) fun body _ =>
      inBody _ rfl (portion_plain plain) body
    cases data : node.data with
    | methodDef | constructorDef =>
      rw [data] at plain
      exact plain.elim
    | _ => rfl
  | stray stray =>
    refine .stays (fun inClass => ?_) rfl (.refl _ _) fun body inside =>
      inBody _ rfl (portion_stray (by subst inside; exact stray)) body
    cases data : node.data with
    | methodDef | constructorDef =>
      rw [data] at stray
      exact absurd inClass stray
    | _ => rfl

end Walk

end LevelCheck
