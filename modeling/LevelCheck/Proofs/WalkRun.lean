import LevelCheck.Analysis
import LevelCheck.Proofs.Run
set_option autoImplicit false

/-! # A walk is a run

Every visit of a node in an open scope leads from state to state by the acts of `Run`. What is done
for one node is a function of how its children are visited, so it is a run as long as their visits
are; the walk itself follows by induction on the levels of nesting that remain. -/

namespace LevelCheck

/-- The scope is open in the table; the top level of a file always is. -/
def WalkScope.IsOpenIn (scope : WalkScope) (t : SymbolTable) : Prop := ∀ s ∈ scope.ref?, t.IsOpen s

theorem WalkScope.isOpenIn_file (t : SymbolTable) : WalkScope.file.IsOpenIn t := by
  intro s member
  cases member

theorem WalkScope.isOpenIn_classBody {t : SymbolTable} {id : SymbolId}
    (isOpen : t.IsOpen (.symbol id)) : (WalkScope.classBody id).IsOpenIn t := by
  intro s member
  obtain rfl := Option.mem_some.1 member
  exact isOpen

theorem WalkScope.isOpenIn_body {t : SymbolTable} {body : BodyId} (isOpen : t.IsOpen body.scope) :
    (WalkScope.body body).IsOpenIn t := by
  intro s member
  obtain rfl := Option.mem_some.1 member
  exact isOpen

theorem Context.Precedes.isOpenIn {a b : Context} (precedes : a.Precedes b) {scope : WalkScope}
    (isOpen : scope.IsOpenIn a.table) : scope.IsOpenIn b.table :=
  fun s member => precedes.table.isOpen (isOpen s member)

/-- Visiting in an open scope is a run. -/
def Visitor.Runs (visit : Visitor) : Prop :=
  ∀ mode scope idx cx, scope.IsOpenIn cx.table → Run cx (visit mode scope idx cx).2

theorem Visitor.each_run {visit : Visitor} (runs : visit.Runs) {scope : WalkScope}
    (nodes : List NodeIndex) {cx : Context} (isOpen : scope.IsOpenIn cx.table) :
    Run cx (visit.each scope nodes cx) := by
  induction nodes generalizing cx with
  | nil => exact .rest cx
  | cons node rest ih =>
    have first := runs .nested scope node cx isOpen
    exact first.trans (ih (first.precedes.isOpenIn isOpen))

/-! ## Declarations of variables -/

/-- Declaring variables is a step of the table, and the ids given out belong to its variables. -/
structure SymbolTable.Enters (t : SymbolTable) (entry : Declared × SymbolTable) : Prop where
  step : TableStep t entry.2
  known : ∀ id ∈ entry.1.ids, id.val < entry.2.vars.size

namespace SymbolTable

variable {t : SymbolTable} {vars : List Variable}

theorem appendVars_known {id : VariableId} (next : id ∈ t.nextVariables vars.length) :
    id.val < (t.appendVars vars).vars.size := by
  simpa [appendVars] using (mem_nextVariables.1 next).2

theorem addFields_enters {id : SymbolId} (isOpen : t.IsOpen (.symbol id))
    (areNew : ∀ v ∈ vars, v.IsNewIn (.symbol id)) : t.Enters (t.addFields id vars) where
  step := .fields isOpen areNew
  known v given := by
    rw [addFields_ids] at given
    rw [addFields_table]
    exact appendVars_known given

theorem addParams_enters {id : MethodId} (isOpen : t.IsOpen (.method id))
    (only : (t.method id).vars = (t.method id).params)
    (areNew : ∀ v ∈ vars, v.IsNewIn (.method id)) : t.Enters (t.addParams id vars) where
  step := .params isOpen only areNew
  known v given := by
    rw [addParams_ids] at given
    rw [addParams_table]
    exact appendVars_known given

theorem addVars_enters {body : BodyId} (isOpen : t.IsOpen body.scope)
    (areNew : ∀ v ∈ vars, v.IsNewIn body.scope) (policy : DuplicateScope) :
    t.Enters (t.addVars body vars policy) where
  step := .locals isOpen areNew policy
  known v given := by
    rw [addVars_ids] at given
    rw [addVars_table]
    cases body <;> exact appendVars_known given

end SymbolTable

/-! ## Records and headers -/

theorem FileScope.KeepsIdentity.header (types : List String) (package : Option String)
    (imports : List ImportDecl) :
    FileScope.KeepsIdentity fun f =>
      types.foldl FileScope.declareClass (f.recordHeader package imports) := by
  -- the header is recorded import by import, and the types after it one by one
  have fold {α : Type} (step : FileScope → α → FileScope)
      (keeps : ∀ x, FileScope.KeepsIdentity (step · x)) (xs : List α) :
      FileScope.KeepsIdentity fun f => xs.foldl step f := by
    induction xs with
    | nil => intro f; exact ⟨rfl, rfl, rfl⟩
    | cons x rest ih =>
      intro f
      obtain ⟨name, id, level⟩ := ih (step f x)
      obtain ⟨name', id', level'⟩ := keeps x f
      exact ⟨name.trans name', id.trans id', level.trans level'⟩
  have declared := fold FileScope.declareClass (fun _ _ => ⟨rfl, rfl, rfl⟩) types
  have imported : FileScope.KeepsIdentity fun f => imports.foldl FileScope.addImport f := by
    refine fold FileScope.addImport (fun i f => ?_) imports
    simp only [FileScope.addImport]
    split
    · split <;> exact ⟨rfl, rfl, rfl⟩
    · exact ⟨rfl, rfl, rfl⟩
  intro f
  obtain ⟨name, id, level⟩ := declared (f.recordHeader package imports)
  obtain ⟨name', id', level'⟩ := imported { f with package := package.getD "" }
  exact ⟨name.trans name', id.trans id', level.trans level'⟩

/-- Which package a file is in is for its header to say. -/
theorem FileScope.header_package (f : FileScope) (types : List String) (package : Option String)
    (imports : List ImportDecl) :
    (types.foldl FileScope.declareClass (f.recordHeader package imports)).package
      = package.getD "" := by
  have declared (types : List String) (f : FileScope) :
      (types.foldl FileScope.declareClass f).package = f.package := by
    induction types generalizing f with
    | nil => rfl
    | cons simple rest ih => exact ih (f.declareClass simple)
  have imported (imports : List ImportDecl) (f : FileScope) :
      (imports.foldl FileScope.addImport f).package = f.package := by
    induction imports generalizing f with
    | nil => rfl
    | cons i rest ih =>
      refine (ih (f.addImport i)).trans ?_
      rw [FileScope.addImport]
      split
      · split <;> rfl
      · rfl
  rw [declared, FileScope.recordHeader, imported]

namespace Walk

variable (w : Walk) {cx : Context}

theorem reportAll_table (pos : Position) (problems : List Problem) (cx : Context) :
    (w.reportAll pos problems cx).table = cx.table := by
  induction problems generalizing cx with
  | nil => rfl
  | cons p rest ih => exact ih (cx.report w.file pos p)

theorem reportAll_run (pos : Position) {problems : List Problem}
    (areOwn : ∀ p ∈ problems, p.IsOwn) (cx : Context) :
    Run cx (w.reportAll pos problems cx) := by
  induction problems generalizing cx with
  | nil => exact .rest cx
  | cons p rest ih =>
    have first : Run cx (cx.report w.file pos p) :=
      .deed (.report cx w.file pos (areOwn p List.mem_cons_self))
    exact first.trans (ih (fun p member => areOwn p (List.mem_cons_of_mem _ member)) _)

theorem reportDuplicates_run (declarators : List Declarator) (pos : Position)
    {problem : String → Problem} (isOwn : ∀ name, (problem name).IsOwn)
    (duplicates : List String) (cx : Context) :
    Run cx (w.reportDuplicates declarators pos problem duplicates cx) := by
  induction duplicates generalizing cx with
  | nil => exact .rest cx
  | cons name rest ih => exact (Run.deed (.report cx w.file _ (isOwn name))).trans (ih _)

theorem reportDuplicates_table (declarators : List Declarator) (pos : Position)
    (problem : String → Problem) (duplicates : List String) (cx : Context) :
    (w.reportDuplicates declarators pos problem duplicates cx).table = cx.table := by
  induction duplicates generalizing cx with
  | nil => rfl
  | cons name rest ih => exact ih _

theorem enterFile_run (package : Option String) (imports : List ImportDecl)
    (types : List NodeIndex) (cx : Context) : Run cx (w.enterFile package imports types cx) :=
  .deed (.header cx w.file (.header _ package imports))

/-! ## Links -/

theorem linkType_run {scope : ScopeRef} (isOpen : cx.table.IsOpen scope) (written : String)
    (pos : Position) (link : Link) (openPlace : cx.table.OpenPlace link) :
    Run cx (cx.linkType w.file (some scope) written pos link) := by
  refine .deed (.link w.file (fun s member => ?_) written pos openPlace)
  obtain rfl := Option.mem_some.1 member
  exact isOpen

theorem linkInterfaces_run {id : SymbolId} (isOpen : cx.table.IsOpen (.symbol id)) (pos : Position)
    (index : Nat) (interfaces : List String) :
    Run cx (w.linkInterfaces id pos index interfaces cx) := by
  induction interfaces generalizing index cx with
  | nil => exact .rest cx
  | cons written rest ih =>
    have entered : Run cx (cx.modifyTable fun t => t.modifySymbol id fun s =>
        { s with interfaces := s.interfaces ++ [.unresolved written] }) :=
      .deed (.enter (.interface isOpen written))
    have isOpen := entered.precedes.table.isOpen isOpen
    have linked := w.linkType_run isOpen written pos (.interface id index) isOpen
    exact (entered.trans linked).trans (ih (linked.precedes.table.isOpen isOpen) _)

theorem linkSuperclass_run {id : SymbolId} (isOpen : cx.table.IsOpen (.symbol id)) (pos : Position)
    (qualified : String) (decl : TypeDecl) :
    Run cx (w.linkSuperclass id pos qualified decl cx) := by
  rw [linkSuperclass]
  split
  · next written _ =>
    have entered : Run cx (cx.modifyTable fun t => t.modifySymbol id fun s =>
        { s with superclass := some (.unresolved written) }) :=
      .deed (.enter (.superclass isOpen (.inl rfl)))
    have isOpen := entered.precedes.table.isOpen isOpen
    exact entered.trans (w.linkType_run isOpen written pos (.superclass id) isOpen)
  · split
    · exact .rest cx
    · exact .deed (.enter (.superclass isOpen (.inr rfl)))

theorem linkThrown_run {id : MethodId} (isOpen : cx.table.IsOpen (.method id)) (pos : Position)
    (index : Nat) (throws : List String) : Run cx (w.linkThrown id pos index throws cx) := by
  induction throws generalizing index cx with
  | nil => exact .rest cx
  | cons written rest ih =>
    have linked := w.linkType_run isOpen written pos (.thrownType id index) isOpen
    exact linked.trans (ih (linked.precedes.table.isOpen isOpen) _)

theorem linkVariables_cons (scope : ScopeRef) (d : Declarator) (declarators : List Declarator)
    (id : VariableId) (ids : List VariableId) (cx : Context) :
    w.linkVariables scope (d :: declarators) (id :: ids) cx
      = w.linkVariables scope declarators ids
          (cx.linkType w.file (some scope) d.type d.pos (.variableType id)) := by
  rw [linkVariables, linkVariables, List.zip_cons_cons, List.foldl_cons]

theorem linkVariables_run {scope : ScopeRef} (isOpen : cx.table.IsOpen scope)
    (declarators : List Declarator) {ids : List VariableId}
    (known : ∀ id ∈ ids, id.val < cx.table.vars.size) :
    Run cx (w.linkVariables scope declarators ids cx) := by
  induction ids generalizing declarators cx with
  | nil =>
    rw [linkVariables, List.zip_nil_right]
    exact .rest cx
  | cons id rest ih =>
    cases declarators with
    | nil => exact .rest cx
    | cons d others =>
      have linked := w.linkType_run isOpen d.type d.pos (.variableType id)
        (known id List.mem_cons_self)
      have later : ∀ v ∈ rest, v.val < (cx.linkType w.file (some scope) d.type d.pos
          (.variableType id)).table.vars.size := fun v member =>
        (known v (List.mem_cons_of_mem _ member)).trans_le linked.precedes.table.vars
      rw [linkVariables_cons]
      exact linked.trans (ih (linked.precedes.table.isOpen isOpen) others later)

/-! ## Classes -/

/-- What a declaration says about its class is no more than a head. -/
theorem TypeDecl.head_isHead (decl : TypeDecl) : Symbol.IsHead decl.head := fun _ => rfl

theorem qualifiedName_run {scope : WalkScope} (isOpen : scope.IsOpenIn cx.table) (simple : String) :
    Run cx (w.qualifiedName scope simple cx).2 := by
  cases scope with
  | file =>
    rw [qualifiedName]
    split <;> exact .rest cx
  | classBody id => exact .rest cx
  | body id => exact .deed (.enter (.number (isOpen id.scope rfl)))

/-- A class in a scope is named after the class around it. -/
theorem qualifiedName_named (scope : WalkScope) (simple : String) (cx : Context) :
    ∀ s ∈ scope.ref?, ∃ own, (w.qualifiedName scope simple cx).1
      = Resolution.memberName ((w.qualifiedName scope simple cx).2.table.symbol
          ((w.qualifiedName scope simple cx).2.table.enclosingSymbol s)).name own := by
  intro s member
  cases scope with
  | file => cases member
  | classBody id =>
    obtain rfl := Option.mem_some.1 member
    exact ⟨simple, rfl⟩
  | body id =>
    obtain rfl := Option.mem_some.1 member
    have quiet := SymbolTable.Quiet.numberLocalClass cx.table (cx.table.enclosingSymbol id.scope)
    refine ⟨toString (cx.table.numberLocalClass (cx.table.enclosingSymbol id.scope)).1 ++ simple, ?_⟩
    simp only [qualifiedName, SymbolTable.enclosingSymbol_of_shape quiet.shape]

/-- A class that a node declares is opened. -/
theorem opens_declared {w : Walk} {scope : WalkScope} {a b : Context} (isOpen : scope.IsOpenIn a.table)
    {decl : TypeDecl} {id : SymbolId}
    (begun : (w.qualifiedName scope decl.name a).2.beginClass? (w.qualifiedName scope decl.name a).1
      scope.ref? decl.head = some (id, b)) : Opens (w.qualifiedName scope decl.name a).2 id b :=
  ⟨begun, decl.head_isHead, (w.qualifiedName_run isOpen decl.name).precedes.isOpenIn isOpen,
    w.qualifiedName_named scope decl.name a⟩

/-- The types that a declaration extends are entered and linked. -/
def linkParents (id : SymbolId) (pos : Position) (qualified : String) (decl : TypeDecl)
    (cx : Context) : Context :=
  w.linkInterfaces id pos 0 decl.interfaces (w.linkSuperclass id pos qualified decl cx)

theorem linkParents_run {id : SymbolId} (isOpen : cx.table.IsOpen (.symbol id)) (pos : Position)
    (qualified : String) (decl : TypeDecl) : Run cx (w.linkParents id pos qualified decl cx) := by
  have superclass := w.linkSuperclass_run isOpen pos qualified decl
  have inside := superclass.precedes.table.isOpen isOpen
  exact superclass.trans (w.linkInterfaces_run inside pos 0 decl.interfaces)

/-- A class is refused, or it is completed when its members have been visited. -/
theorem visitTypeDecl_eq (visit : Visitor) (scope : WalkScope) (idx : NodeIndex) (pos : Position)
    (decl : TypeDecl) : w.visitTypeDecl visit scope idx pos decl cx
      = match (w.qualifiedName scope decl.name cx).2.beginClass? (w.qualifiedName scope decl.name cx).1
          scope.ref? decl.head with
        | none => (true, (w.qualifiedName scope decl.name cx).2.reportPruning w.file idx pos
            (.duplicateClass (w.qualifiedName scope decl.name cx).1))
        | some (id, next) => (false, (visit.each (.classBody id) decl.members (w.linkParents id pos
            (w.qualifiedName scope decl.name cx).1 decl next)).defineComplete id) := rfl

/-- A class and its members, between the beginning of its declaration and its completion. -/
theorem visitTypeDecl_run {visit : Visitor} (runs : visit.Runs) {scope : WalkScope}
    (isOpen : scope.IsOpenIn cx.table) (idx : NodeIndex) (pos : Position) (decl : TypeDecl) :
    Run cx (w.visitTypeDecl visit scope idx pos decl cx).2 := by
  rw [visitTypeDecl_eq]
  refine (w.qualifiedName_run isOpen decl.name).trans ?_
  split
  · exact .deed (.prune _ w.file idx pos trivial)
  · next id b begun =>
    -- from here to the completion of the class the run is one declaration
    have opens := opens_declared isOpen begun
    have linked := w.linkParents_run opens.isOpen pos (w.qualifiedName scope decl.name cx).1 decl
    have inside := WalkScope.isOpenIn_classBody (linked.precedes.table.isOpen opens.isOpen)
    exact .declare opens (linked.trans (Visitor.each_run runs decl.members inside))

/-- The table in which the class around a scope has counted one more class. -/
abbrev numbered (ref : ScopeRef) (cx : Context) : Context :=
  { cx with table := (cx.table.numberLocalClass (cx.table.enclosingSymbol ref)).2 }

/-- The name of an anonymous class in a scope. -/
def anonymousName (ref : ScopeRef) (cx : Context) : String :=
  Resolution.memberName ((numbered ref cx).table.symbol (cx.table.enclosingSymbol ref)).name
    (toString (cx.table.numberLocalClass (cx.table.enclosingSymbol ref)).1)

/-- It is the name of the class around the scope and a number. -/
theorem anonymousName_named (ref : ScopeRef) (cx : Context) :
    ∃ own, anonymousName ref cx = Resolution.memberName
      ((numbered ref cx).table.symbol ((numbered ref cx).table.enclosingSymbol ref)).name own := by
  have quiet := SymbolTable.Quiet.numberLocalClass cx.table (cx.table.enclosingSymbol ref)
  refine ⟨toString (cx.table.numberLocalClass (cx.table.enclosingSymbol ref)).1, ?_⟩
  rw [SymbolTable.enclosingSymbol_of_shape quiet.shape]
  rfl

/-- An anonymous class is opened under the number that the class around it gives. -/
theorem anonymous_opens {ref : ScopeRef} (isOpen : cx.table.IsOpen ref) {id : SymbolId}
    {next : Context} (begun : (numbered ref cx).beginClass? (anonymousName ref cx) (some ref)
      (fun s => s) = some (id, next)) : Opens (numbered ref cx) id next := by
  have counted : Run cx (numbered ref cx) := .deed (.enter (.number isOpen))
  refine ⟨begun, fun _ => rfl, fun s member => ?_, fun s member => ?_⟩
  · obtain rfl := Option.mem_some.1 member
    exact counted.precedes.table.isOpen isOpen
  · obtain rfl := Option.mem_some.1 member
    exact anonymousName_named _ cx

theorem visitAnonymous_run {visit : Visitor} (runs : visit.Runs) {scope : WalkScope}
    (isOpen : scope.IsOpenIn cx.table) (idx : NodeIndex) (pos : Position) (base : String)
    (members : List NodeIndex) :
    Run cx (w.visitAnonymous visit scope idx pos base members cx).2 := by
  rw [visitAnonymous]
  split
  · exact .rest cx
  · next ref inScope =>
    have around : cx.table.IsOpen ref := isOpen ref inScope
    have counted : Run cx (numbered ref cx) := .deed (.enter (.number around))
    refine counted.trans ?_
    simp only
    split
    · exact .deed (.prune _ w.file idx pos trivial)
    · next id b begun =>
      have opens := anonymous_opens around begun
      have around := (counted.precedes.trans opens.precedes).table.isOpen around
      have linked := w.linkType_run around base pos (.anonymousBase id) opens.isOpen
      have inside := linked.precedes.table.isOpen opens.isOpen
      have members := Visitor.each_run runs members (WalkScope.isOpenIn_classBody inside)
      exact .declare opens (linked.trans members)

/-! ## Variables -/

/-- A declared variable is new in its scope. -/
theorem Declarator.variable_isNewIn (d : Declarator) (scope : ScopeRef) :
    (d.variable scope).IsNewIn scope := ⟨rfl, rfl⟩

/-- The variables that a declaration enters in a scope. -/
def writtenVars (written : List Declarator) (scope : ScopeRef) (forceFinal : Bool) : List Variable :=
  written.map fun d => if forceFinal then (d.variable scope).setFinal else d.variable scope

theorem writtenVars_areNew (written : List Declarator) (scope : ScopeRef) (forceFinal : Bool) :
    ∀ v ∈ writtenVars written scope forceFinal, v.IsNewIn scope := by
  intro v member
  obtain ⟨d, -, rfl⟩ := List.mem_map.1 member
  split
  · exact d.variable_isNewIn scope
  · exact d.variable_isNewIn scope

/-- Variables are entered, and the names that collide are reported. -/
theorem enterVariables_run {entry : Declared × SymbolTable} (enters : cx.table.Enters entry)
    (written : List Declarator) (pos : Position) {problem : String → Problem}
    (isOwn : ∀ name, (problem name).IsOwn) :
    Run cx (w.reportDuplicates written pos problem entry.1.duplicates { cx with table := entry.2 })
      ∧ ∀ id ∈ entry.1.ids, id.val < (w.reportDuplicates written pos problem entry.1.duplicates
          { cx with table := entry.2 }).table.vars.size := by
  have entered : Run cx { cx with table := entry.2 } := .deed (.enter enters.step)
  rw [reportDuplicates_table]
  exact ⟨entered.trans (w.reportDuplicates_run written pos isOwn _ _), enters.known⟩

/-- Variables have been entered; the names that collide are reported, and the types are linked. -/
def declareVariables (scope : ScopeRef) (written : List Declarator) (pos : Position)
    (problem : String → Problem) (entry : Declared × SymbolTable) (cx : Context) : Context :=
  w.linkVariables scope written entry.1.ids
    (w.reportDuplicates written pos problem entry.1.duplicates { cx with table := entry.2 })

theorem declareVariables_run {scope : ScopeRef} (isOpen : cx.table.IsOpen scope)
    {entry : Declared × SymbolTable} (enters : cx.table.Enters entry)
    (written : List Declarator) (pos : Position) {problem : String → Problem}
    (isOwn : ∀ name, (problem name).IsOwn) :
    Run cx (w.declareVariables scope written pos problem entry cx) := by
  obtain ⟨entered, known⟩ := w.enterVariables_run enters written pos isOwn
  exact entered.trans (w.linkVariables_run (entered.precedes.table.isOpen isOpen) written known)

/-- Fields are entered, reported and linked. -/
def declareFields (id : SymbolId) (written : List Declarator) (forceFinal : Bool) (cx : Context) :
    Context :=
  w.declareVariables (.symbol id) written .nowhere .duplicateField
    (cx.table.addFields id (writtenVars written (.symbol id) forceFinal)) cx

theorem declareFields_run {id : SymbolId} (isOpen : cx.table.IsOpen (.symbol id))
    (written : List Declarator) (forceFinal : Bool) :
    Run cx (w.declareFields id written forceFinal cx) := by
  have enters := SymbolTable.addFields_enters isOpen (writtenVars_areNew written _ forceFinal)
  exact w.declareVariables_run isOpen enters written .nowhere fun name =>
    show (Problem.duplicateField name).IsOwn from trivial

/-- Local variables are entered, reported and linked. -/
def declareLocals (body : BodyId) (written : List Declarator) (pos : Position) (forceFinal : Bool)
    (cx : Context) : Context :=
  w.declareVariables body.scope written pos (fun _ => .duplicateVariable)
    (cx.table.addVars body (writtenVars written body.scope forceFinal) cx.options.duplicateScope) cx

theorem declareLocals_run (id : BodyId) (isOpen : cx.table.IsOpen id.scope)
    (written : List Declarator) (pos : Position) (forceFinal : Bool) :
    Run cx (w.declareLocals id written pos forceFinal cx) := by
  have enters := SymbolTable.addVars_enters isOpen (writtenVars_areNew written _ forceFinal)
    cx.options.duplicateScope
  exact w.declareVariables_run isOpen enters written pos fun _ =>
    show Problem.duplicateVariable.IsOwn from trivial

/-- The variables of a class are its fields. -/
theorem visitVariables_fields (visit : Visitor) (id : SymbolId) (modifiers : List Modifier)
    (declarators : List NodeIndex) (force : Bool) :
    (w.visitVariables visit (.classBody id) modifiers declarators force cx).2
      = let found := declarators.filterMap (w.declarator? (Modifier.flags modifiers))
        visit.each (.classBody id) (found.filterMap (·.2))
          (w.declareFields id (found.map (·.1)) force cx) := rfl

theorem visitVariables_locals (visit : Visitor) (body : BodyId) (modifiers : List Modifier)
    (declarators : List NodeIndex) (force : Bool) :
    (w.visitVariables visit (.body body) modifiers declarators force cx).2
      = let found := declarators.filterMap (w.declarator? (Modifier.flags modifiers))
        visit.each (.body body) (found.filterMap (·.2))
          (w.declareLocals body (found.map (·.1)) .nowhere force cx) := rfl

theorem visitVariables_run {visit : Visitor} (runs : visit.Runs) {scope : WalkScope}
    (isOpen : scope.IsOpenIn cx.table) (modifiers : List Modifier) (declarators : List NodeIndex)
    (forceFinal : Bool) :
    Run cx (w.visitVariables visit scope modifiers declarators forceFinal cx).2 := by
  cases scope with
  | file => exact .rest cx
  | classBody id =>
    have declared := w.declareFields_run (isOpen _ rfl)
      ((declarators.filterMap (w.declarator? (Modifier.flags modifiers))).map (·.1)) forceFinal
    rw [visitVariables_fields]
    exact declared.trans (Visitor.each_run runs _ (declared.precedes.isOpenIn isOpen))
  | body id =>
    have declared := w.declareLocals_run id (isOpen _ rfl)
      ((declarators.filterMap (w.declarator? (Modifier.flags modifiers))).map (·.1)) .nowhere
      forceFinal
    rw [visitVariables_locals]
    exact declared.trans (Visitor.each_run runs _ (declared.precedes.isOpenIn isOpen))

/-! ## Blocks -/

/-- The state in which a block has been added to a scope. -/
abbrev inBlock (ref : ScopeRef) (cx : Context) : Context :=
  { cx with table := (cx.table.addBlock ref).2 }

theorem addBlock_run {scope : ScopeRef} (isOpen : cx.table.IsOpen scope) :
    Run cx (inBlock scope cx) := .deed (.enter (.block isOpen))

/-- A new block is open. -/
theorem addBlock_isOpen (t : SymbolTable) (scope : ScopeRef) :
    (t.addBlock scope).2.IsOpen (.block (t.addBlock scope).1) := by
  cases scope with
  | symbol id => simp [SymbolTable.addBlock, SymbolTable.IsOpen]
  | method id => simp [SymbolTable.addBlock, SymbolTable.IsOpen]
  | block id => simp [SymbolTable.addBlock, SymbolTable.IsOpen, SymbolTable.modifyBlock]

/-- What a walk does in a block that it opens. -/
theorem openBlock_run {scope : WalkScope} (isOpen : scope.IsOpenIn cx.table) {id : BlockId}
    {next : Context} (opened : openBlock? scope cx = some (id, next)) :
    Run cx next ∧ (WalkScope.body (.block id)).IsOpenIn next.table := by
  rw [openBlock?] at opened
  split at opened
  · cases opened
  · next ref inScope =>
    cases opened
    exact ⟨addBlock_run (isOpen ref inScope),
      WalkScope.isOpenIn_body (addBlock_isOpen cx.table ref)⟩

section

variable {visit : Visitor} (runs : visit.Runs) {scope : WalkScope} (isOpen : scope.IsOpenIn cx.table)
include runs isOpen

theorem visitBlock_run (mode : BlockMode) (statements : List NodeIndex) :
    Run cx (visitBlock visit mode scope statements cx) := by
  cases mode with
  | inline => exact Visitor.each_run runs statements isOpen
  | nested =>
    simp only [visitBlock]
    split
    · next id next opened =>
      obtain ⟨first, inside⟩ := openBlock_run isOpen opened
      exact first.trans (Visitor.each_run runs statements inside)
    · exact .rest cx

theorem visitInitializer_run (body : NodeIndex) :
    Run cx (visitInitializer visit scope body cx) := by
  cases scope with
  | file => exact .rest cx
  | body id => exact runs .nested _ body cx isOpen
  | classBody id =>
    simp only [visitInitializer]
    split
    · next id next opened =>
      obtain ⟨first, inside⟩ := openBlock_run isOpen opened
      exact first.trans (runs .inline _ body next inside)
    · exact .rest cx

theorem visitFor_run (children : List NodeIndex) : Run cx (visitFor visit scope children cx) := by
  rw [visitFor]
  split
  · next id next opened =>
    obtain ⟨first, inside⟩ := openBlock_run isOpen opened
    exact first.trans (Visitor.each_run runs children inside)
  · exact Visitor.each_run runs children isOpen

end

/-- The exception of a handler is a local variable of its block. -/
theorem enterException_eq (id : BlockId) (exception : NodeIndex) :
    (w.enterException id exception cx).2
      = match w.param? exception with
        | none => cx
        | some d => w.declareLocals (.block id) [d] d.pos false cx := by
  rw [enterException]
  cases w.param? exception with
  | none => rfl
  | some d =>
    have one : writtenVars [d] (BodyId.block id).scope false = [d.variable (.block id)] := rfl
    simp only [declareLocals, one]
    rfl

theorem enterException_run {id : BlockId} (isOpen : cx.table.IsOpen (.block id))
    (exception : NodeIndex) : Run cx (w.enterException id exception cx).2 := by
  rw [enterException_eq]
  split
  · exact .rest cx
  · next d _ => exact w.declareLocals_run (.block id) isOpen [d] d.pos false

/-- A handler is visited in a block of its own, which holds the exception by then. -/
theorem handler_run {outer : ScopeRef} (isOpen : cx.table.IsOpen outer) (exception : NodeIndex) :
    Run cx (w.enterException (cx.table.addBlock outer).1 exception (inBlock outer cx)).2
      ∧ (WalkScope.body (.block (cx.table.addBlock outer).1)).IsOpenIn
        (w.enterException (cx.table.addBlock outer).1 exception (inBlock outer cx)).2.table := by
  have inside := addBlock_isOpen cx.table outer
  have entered : Run (inBlock outer cx) _ := w.enterException_run inside exception
  exact ⟨(addBlock_run isOpen).trans entered,
    WalkScope.isOpenIn_body (entered.precedes.table.isOpen inside)⟩

theorem visitCatch_run {visit : Visitor} (runs : visit.Runs) {scope : WalkScope}
    (isOpen : scope.IsOpenIn cx.table) (exception handler : NodeIndex) :
    Run cx (w.visitCatch visit scope exception handler cx).2 := by
  cases scope with
  | file => exact .rest cx
  | classBody id => exact .rest cx
  | body outer =>
    obtain ⟨entered, inside⟩ := w.handler_run (isOpen outer.scope rfl) exception
    exact entered.trans (runs .inline _ handler _ inside)

/-! ## Methods -/

theorem constructorProblem_isOwn (owner : Symbol) (decl : MethodDecl) :
    ∀ p ∈ (constructorProblem? owner decl).toList, p.IsOwn := by
  intro p member
  rw [constructorProblem?] at member
  split at member
  · obtain rfl := List.mem_singleton.1 member
    trivial
  · cases member

/-- A new method is open, and reads as it was added. -/
theorem addMethod_isNew (t : SymbolTable) (m : Method) :
    (t.addMethod m).2.IsOpen (.method (t.addMethod m).1)
      ∧ (t.addMethod m).2.method (t.addMethod m).1 = m := by
  refine ⟨by simp [SymbolTable.addMethod, SymbolTable.IsOpen], ?_⟩
  simp only [SymbolTable.addMethod, SymbolTable.method, SymbolTable.methods_modifySymbol, getD_push,
    if_pos]

/-- The types that a method mentions are linked: the one it returns, those it throws and those of
its parameters. -/
def linkSignature (id : MethodId) (pos : Position) (decl : MethodDecl) (params : List Declarator)
    (ids : List VariableId) (cx : Context) : Context :=
  let returned := match decl.returnType with
    | some written => cx.linkType w.file (some (.method id)) written pos (.returnType id)
    | none => cx
  w.linkVariables (.method id) params ids (w.linkThrown id pos 0 decl.throws returned)

theorem linkSignature_run {id : MethodId} (isOpen : cx.table.IsOpen (.method id)) (pos : Position)
    (decl : MethodDecl) (params : List Declarator) {ids : List VariableId}
    (known : ∀ id ∈ ids, id.val < cx.table.vars.size) :
    Run cx (w.linkSignature id pos decl params ids cx) := by
  have returned : Run cx (match decl.returnType with
      | some written => cx.linkType w.file (some (.method id)) written pos (.returnType id)
      | none => cx) := by
    split
    · exact w.linkType_run isOpen _ pos (.returnType id) isOpen
    · exact .rest cx
  have thrown := w.linkThrown_run (returned.precedes.table.isOpen isOpen) pos 0 decl.throws
  have before := returned.trans thrown
  refine before.trans (w.linkVariables_run (before.precedes.table.isOpen isOpen) params ?_)
  exact fun id given => (known id given).trans_le before.precedes.table.vars

/-- Parameters are entered, reported and linked, with the other types that their method mentions. -/
def declareParams (id : MethodId) (pos : Position) (decl : MethodDecl) (params : List Declarator)
    (cx : Context) : Context :=
  let entry := cx.table.addParams id (params.map (·.variable (.method id)))
  w.linkSignature id pos decl params entry.1.ids
    (w.reportDuplicates params pos (fun _ => .duplicateParameter) entry.1.duplicates
      { cx with table := entry.2 })

theorem params_areNew (params : List Declarator) (id : MethodId) :
    ∀ v ∈ params.map (·.variable (.method id)), v.IsNewIn (.method id) := by
  intro v member
  obtain ⟨d, -, rfl⟩ := List.mem_map.1 member
  exact d.variable_isNewIn _

/-- The parameters are the first variables of their method. -/
theorem declareParams_run {id : MethodId} (isOpen : cx.table.IsOpen (.method id))
    (only : (cx.table.method id).vars = (cx.table.method id).params) (pos : Position)
    (decl : MethodDecl) (params : List Declarator) :
    Run cx (w.declareParams id pos decl params cx) := by
  have enters := SymbolTable.addParams_enters isOpen only (params_areNew params id)
  obtain ⟨placed, known⟩ := w.enterVariables_run enters params pos
    (fun _ => show Problem.duplicateParameter.IsOwn from trivial)
  have inside := placed.precedes.table.isOpen isOpen
  exact placed.trans (w.linkSignature_run inside pos decl params known)

/-- The record of a method as it is declared. -/
def MethodDecl.record (decl : MethodDecl) (owner : SymbolId) : Method :=
  .declared decl.name owner (Modifier.flags decl.modifiers) decl.typeParams decl.returnType
    decl.throws decl.isConstructor

/-- What is done for a method before its body is visited: it is entered with its parameters, and its
types are linked. -/
def enterMethod (owner : SymbolId) (pos : Position) (decl : MethodDecl) (cx : Context) :
    MethodId × Context :=
  let (id, table) := cx.table.addMethod
    (.declared decl.name owner (Modifier.flags decl.modifiers) decl.typeParams decl.returnType
      decl.throws decl.isConstructor)
  let cx := { cx with table }
  let cx := w.reportAll pos (constructorProblem? (cx.table.symbol owner) decl).toList cx
  let params := decl.params.filterMap w.param?
  let (declared, table) := cx.table.addParams id (params.map (·.variable (.method id)))
  let cx := { cx with table }
  let cx := w.reportDuplicates params pos (fun _ => .duplicateParameter) declared.duplicates cx
  let cx := match decl.returnType with
    | some written => cx.linkType w.file (some (.method id)) written pos (.returnType id)
    | none => cx
  (id, w.linkVariables (.method id) params declared.ids (w.linkThrown id pos 0 decl.throws cx))

theorem enterMethod_eq (owner : SymbolId) (pos : Position) (decl : MethodDecl) (cx : Context) :
    w.enterMethod owner pos decl cx
      = let added := cx.table.addMethod (decl.record owner)
        (added.1, w.declareParams added.1 pos decl (decl.params.filterMap w.param?)
          (w.reportAll pos (constructorProblem? (added.2.symbol owner) decl).toList
            { cx with table := added.2 })) := rfl

theorem visitMethod_eq (visit : Visitor) (owner : SymbolId) (pos : Position) (decl : MethodDecl)
    (cx : Context) :
    (w.visitMethod visit (.classBody owner) pos decl cx).2
      = match decl.body with
        | some body =>
          (visit .inline (.body (.method (w.enterMethod owner pos decl cx).1)) body
            (w.enterMethod owner pos decl cx).2).2
        | none => (w.enterMethod owner pos decl cx).2 := rfl

/-- A method that has been entered is open. -/
theorem enterMethod_run {owner : SymbolId} (isOpen : cx.table.IsOpen (.symbol owner))
    (pos : Position) (decl : MethodDecl) :
    Run cx (w.enterMethod owner pos decl cx).2
      ∧ (w.enterMethod owner pos decl cx).2.table.IsOpen
          (.method (w.enterMethod owner pos decl cx).1) := by
  -- the method is added without parameters
  have entered := Run.deed (.enter (.method isOpen decl.name (Modifier.flags decl.modifiers)
    decl.typeParams decl.returnType decl.throws decl.isConstructor))
  have isNew := addMethod_isNew cx.table (decl.record owner)
  change Run cx { cx with table := (cx.table.addMethod (decl.record owner)).2 } at entered
  rw [enterMethod_eq]
  generalize cx.table.addMethod (decl.record owner) = added at *
  obtain ⟨id, t⟩ := added
  simp only at isNew entered ⊢
  -- the name of a constructor is checked, which leaves the table alone
  have named := w.reportAll_run pos (constructorProblem_isOwn (t.symbol owner) decl)
    { cx with table := t }
  have sameTable := w.reportAll_table pos (constructorProblem? (t.symbol owner) decl).toList
    { cx with table := t }
  generalize w.reportAll pos _ _ = a at *
  have inside : a.table.IsOpen (.method id) := by
    rw [sameTable]
    exact isNew.1
  have only : (a.table.method id).vars = (a.table.method id).params := by
    rw [sameTable, isNew.2]
    rfl
  have declared := w.declareParams_run inside only pos decl (decl.params.filterMap w.param?)
  exact ⟨(entered.trans named).trans declared, declared.precedes.table.isOpen inside⟩

theorem visitMethod_run {visit : Visitor} (runs : visit.Runs) {scope : WalkScope}
    (isOpen : scope.IsOpenIn cx.table) (pos : Position) (decl : MethodDecl) :
    Run cx (w.visitMethod visit scope pos decl cx).2 := by
  cases scope with
  | file => exact .rest cx
  | body id => exact .rest cx
  | classBody owner =>
    obtain ⟨entered, inside⟩ := w.enterMethod_run (isOpen _ rfl) pos decl
    rw [visitMethod_eq]
    cases decl.body with
    | none => exact entered
    | some body => exact entered.trans (runs .inline _ body _ (WalkScope.isOpenIn_body inside))

/-! ## Nodes -/

/-- What an admitted node calls for is a run, if the visits of its children are. -/
theorem visitData_run {visit : Visitor} (runs : visit.Runs) (mode : BlockMode) {scope : WalkScope}
    (isOpen : scope.IsOpenIn cx.table) (idx : NodeIndex) (pos : Position) (forceFinal : Bool)
    (data : NodeData) : Run cx (w.visitData visit mode scope idx pos forceFinal data cx).2 := by
  have children (nodes : List NodeIndex) : Run cx (visit.each scope nodes cx) :=
    Visitor.each_run runs nodes isOpen
  have mention (type : String) (nodes : List NodeIndex) :
      Run cx (visit.each scope nodes (cx.linkType w.file scope.ref? type pos .existence)) := by
    have linked := Run.deed (.link w.file isOpen type pos
      (show cx.table.OpenPlace .existence from trivial))
    exact linked.trans (Visitor.each_run runs nodes (linked.precedes.isOpenIn isOpen))
  cases data with
  | sourceFile package imports types =>
    have entered := w.enterFile_run package imports types cx
    exact entered.trans (Visitor.each_run runs types (entered.precedes.isOpenIn isOpen))
  | classDef => exact w.visitTypeDecl_run runs isOpen idx pos _
  | interfaceDef => exact w.visitTypeDecl_run runs isOpen idx pos _
  | methodDef => exact w.visitMethod_run runs isOpen pos _
  | constructorDef => exact w.visitMethod_run runs isOpen pos _
  | formalParameter => exact .rest cx
  | variableDeclaration modifiers declarators =>
    exact w.visitVariables_run runs isOpen modifiers declarators forceFinal
  | block statements => exact visitBlock_run runs isOpen mode statements
  | instanceInitializer body => exact visitInitializer_run runs isOpen body
  | catchBlock exception handler => exact w.visitCatch_run runs isOpen exception handler
  | forStatement => exact visitFor_run runs isOpen _
  | instantiation outer type arguments => exact mention type _
  | cast type operand => exact mention type _
  | anonymousClass outer type arguments members =>
    -- what the class is built from is visited outside of it
    have before := children (outer.toList ++ arguments)
    exact before.trans
      (w.visitAnonymous_run runs (before.precedes.isOpenIn isOpen) idx pos type members)
  | _ => exact children _

/-- The state after a visit: that after the inspection of the node, or after what it calls for. -/
theorem visit_succ {idx : NodeIndex} {node : Node} (found : w.arena.get? idx = some node)
    (remaining : Nat) (mode : BlockMode) (scope : WalkScope) (cx : Context) :
    (w.visit (remaining + 1) mode scope idx cx).2
      = match w.inspect (remaining + 1) scope idx node cx with
        | (none, next) => next
        | (some admission, next) =>
          (w.visitData (w.visit remaining) mode scope idx node.pos admission.forceFinal node.data
            next).2 := by
  rw [visit, found]
  simp only
  generalize w.inspect (remaining + 1) scope idx node cx = entry
  obtain ⟨_ | admission, next⟩ := entry
  · rfl
  · simp only
    split
    · rfl
    · split <;> rfl

/-- Every visit is a run. The induction is on the levels of nesting that remain. -/
theorem visit_runs (remaining : Nat) : Visitor.Runs (w.visit remaining) := by
  induction remaining with
  | zero =>
    intro mode scope idx cx isOpen
    rw [visit]
    split
    · exact .rest cx
    · exact .deed (.refuse cx w idx _)
  | succ remaining ih =>
    intro mode scope idx cx isOpen
    cases found : w.arena.get? idx with
    | none =>
      rw [visit, found]
      exact .rest cx
    | some node =>
      have inspected := Run.deed (.inspect cx w (remaining + 1) scope idx node)
      rw [w.visit_succ found]
      generalize w.inspect (remaining + 1) scope idx node cx = entry at *
      obtain ⟨_ | admission, next⟩ := entry
      · exact inspected
      · have inside := inspected.precedes.isOpenIn isOpen
        exact inspected.trans
          (w.visitData_run ih mode inside idx node.pos admission.forceFinal node.data)

end Walk

/-- Analysing a file is a run from the state that knows the file. -/
theorem Context.analyzeFile_run (cx : Context) (unit : SourceUnit) :
    Run (cx.addFile unit.tree.fileName unit.level).2 (cx.analyzeFile unit).2 :=
  Walk.visit_runs _ _ .nested .file unit.tree.root _ (WalkScope.isOpenIn_file _)

theorem Context.analyzeFile_log (cx : Context) (unit : SourceUnit) :
    cx.log.diagnostics.toList <+: (cx.analyzeFile unit).2.log.diagnostics.toList :=
  (cx.analyzeFile_run unit).precedes.log

theorem Context.analyzeFiles_log (cx : Context) (units : List SourceUnit) :
    cx.log.diagnostics.toList <+: (cx.analyzeFiles units).log.diagnostics.toList := by
  induction units generalizing cx with
  | nil => exact List.prefix_rfl
  | cons unit rest ih => exact (cx.analyzeFile_log unit).trans (ih _)

end LevelCheck
