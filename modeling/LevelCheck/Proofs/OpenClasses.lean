import LevelCheck.Proofs.Lifecycle
import LevelCheck.Proofs.Nesting
set_option autoImplicit false

/-! # The classes that are open during a walk

A walk can be watched: it keeps the scopes of the visits that are going on, and looks at the state of
the run whenever it comes to a node and whenever it leaves one. The classes whose declaration has
begun and not ended are then those whose bodies are among these scopes. If it found anything else it
would raise an alarm; that the watched walk does what the walk does, whatever the alarm, says that it
never finds anything to raise it for. What is done for a node depends on the visits of its children,
so it is the same for two ways of visiting them that differ in states which no walk comes to. -/

namespace LevelCheck

/-! ## What is looked for -/

/-- The class whose body the scope is. -/
def WalkScope.class? : WalkScope → Option SymbolId
  | .classBody id => some id
  | _ => none

/-- The classes whose declaration has begun and not ended. -/
def SymbolTable.underWay (t : SymbolTable) : List SymbolId :=
  ((List.range t.size).map SymbolId.mk).filter fun id => (t.symbol id).state == .visiting

/-- The state of a run within visits in the given scopes. -/
structure Context.Orderly (cx : Context) (path : List WalkScope) : Prop where
  /-- The classes under way are those whose bodies are visited. -/
  visited : cx.table.underWay ⊆ path.filterMap WalkScope.class?
  underWay : path.filterMap WalkScope.class? ⊆ cx.table.underWay
  /-- A class that is only referred to has a name and nothing else. -/
  blank : ∀ n < cx.table.size, (cx.table.symbol ⟨n⟩).state = .placeholder →
    cx.table.symbol ⟨n⟩ = .placeholder (cx.table.symbol ⟨n⟩).name
  /-- What is waited for is known and has not been visited. -/
  awaited : ∀ name ∈ cx.pending.names,
    ∃ id ∈ cx.table.lookup? name, (cx.table.symbol id).state ≠ .complete
  /-- No declaration has been accepted twice, and none of a builtin type. -/
  once : (Builtin.names ++ cx.declarations).Nodup

instance (cx : Context) (path : List WalkScope) : Decidable (cx.Orderly path) :=
  decidable_of_iff
    ((cx.table.underWay ⊆ path.filterMap WalkScope.class?
        ∧ path.filterMap WalkScope.class? ⊆ cx.table.underWay)
      ∧ (∀ n < cx.table.size, (cx.table.symbol ⟨n⟩).state = .placeholder →
          cx.table.symbol ⟨n⟩ = .placeholder (cx.table.symbol ⟨n⟩).name)
      ∧ (∀ name ∈ cx.pending.names,
          ∃ id ∈ cx.table.lookup? name, (cx.table.symbol id).state ≠ .complete)
      ∧ (Builtin.names ++ cx.declarations).Nodup)
    ⟨fun ⟨⟨visited, underWay⟩, blank, awaited, once⟩ => ⟨visited, underWay, blank, awaited, once⟩,
      fun orderly => ⟨⟨orderly.visited, orderly.underWay⟩, orderly.blank, orderly.awaited,
        orderly.once⟩⟩

/-- A class that has been visited in the first state has been in the second. -/
def Context.KeepsVisited (a b : Context) : Prop :=
  ∀ n < a.table.size, (a.table.symbol ⟨n⟩).state = .complete →
    (b.table.symbol ⟨n⟩).state = .complete

instance (a b : Context) : Decidable (a.KeepsVisited b) := by
  unfold Context.KeepsVisited
  infer_instance

/-- Visit a node, unless something is wrong before or afterwards; then the alarm is raised instead.
The visit takes place within visits in the given scopes. -/
def Visitor.watched (visit alarm : Visitor) (around : List WalkScope) : Visitor :=
  fun mode scope idx before =>
    let (outcome, after) := visit mode scope idx before
    if before.Orderly (scope :: around) ∧ after.Orderly (scope :: around) ∧ before.KeepsVisited after
    then (outcome, after)
    else alarm mode scope idx before

/-- The walk, watched at every node, with as many levels of nesting remaining. -/
def Walk.watched (w : Walk) (alarm : Visitor) : Nat → List WalkScope → Visitor
  | 0, around => Visitor.watched (w.frame 0 0 alarm) alarm around
  | remaining + 1, around => fun mode scope =>
    Visitor.watched (w.frame (remaining + 1) 0 (w.watched alarm remaining (scope :: around))) alarm
      around mode scope

/-- Analyse a file, with its walk watched. -/
def Context.analyzeWatched (cx : Context) (alarm : Visitor) (unit : SourceUnit) :
    Outcome × Context :=
  let (file, cx) := cx.addFile unit.tree.fileName unit.level
  let walk : Walk := { arena := unit.tree.arena, policy := unit.level, file }
  walk.watched alarm cx.options.maxDepth [] .nested .file unit.tree.root cx

/-! ## States within visits -/

theorem WalkScope.mem_classes {path : List WalkScope} {id : SymbolId} :
    id ∈ path.filterMap WalkScope.class? ↔ .classBody id ∈ path := by
  rw [List.mem_filterMap]
  constructor
  · rintro ⟨scope, isIn, is⟩
    cases scope with
    | classBody other =>
      obtain rfl := Option.some.inj is
      exact isIn
    | file | body => cases is
  · exact fun isIn => ⟨_, isIn, rfl⟩

theorem SymbolTable.mem_underWay {t : SymbolTable} {id : SymbolId} :
    id ∈ t.underWay ↔ (t.symbol id).state = .visiting := by
  rw [underWay, List.mem_filter, beq_iff_eq, and_iff_right_iff_imp]
  intro visiting
  have known : id.val < t.size := known_of_isDeclared (by rw [Symbol.isDeclared, visiting]; rfl)
  exact List.mem_map.2 ⟨id.val, List.mem_range.2 known, rfl⟩

namespace Context

/-- The state is in order, and the classes under way are those of the path. -/
structure Within (cx : Context) (path : List WalkScope) : Prop where
  lifecycle : cx.Lifecycle
  visiting : ∀ id, (cx.table.symbol id).state = .visiting ↔ .classBody id ∈ path

namespace Within

variable {a b : Context} {path : List WalkScope}

theorem orderly (within : a.Within path) : a.Orderly path where
  visited id underWay := by
    rw [WalkScope.mem_classes, ← within.visiting]
    exact SymbolTable.mem_underWay.1 underWay
  underWay id visited := by
    rw [SymbolTable.mem_underWay, within.visiting]
    exact WalkScope.mem_classes.1 visited
  blank n _ := within.lifecycle.untouched.blank ⟨n⟩
  awaited _ := within.lifecycle.awaited
  once := within.lifecycle.once

/-- A run completes what it begins. -/
theorem run (within : a.Within path) (run : Run a b) : b.Within path := by
  refine ⟨within.lifecycle.run run, fun id => ?_⟩
  rw [← within.visiting]
  rcases run.state id with same | ⟨before, complete⟩
  · rw [same]
  · rw [before, complete]
    exact iff_of_false nofun nofun

/-- A class that is entered is under way as long as its body is visited. -/
theorem opens (within : a.Within path) {id : SymbolId} (opens : Opens a id b) :
    b.Within (.classBody id :: path) := by
  obtain ⟨-, visiting, others⟩ := opens.state
  refine ⟨within.lifecycle.opens opens, fun other => ?_⟩
  rw [List.mem_cons, WalkScope.classBody.injEq, ← within.visiting]
  by_cases is : other = id
  · rw [is, visiting]
    exact iff_of_true rfl (.inl rfl)
  · rw [others other is, or_iff_right is]

/-- A visit in the scope of the one around it. -/
theorem again {scope : WalkScope} (within : a.Within (scope :: path)) :
    a.Within (scope :: scope :: path) := by
  refine ⟨within.lifecycle, fun id => ?_⟩
  rw [within.visiting, List.mem_cons (l := scope :: path), or_iff_right_of_imp]
  exact fun is => List.mem_cons.2 (.inl is)

/-- A visit in a body opens no class. -/
theorem body (within : a.Within path) (body : BodyId) : a.Within (.body body :: path) := by
  refine ⟨within.lifecycle, fun id => ?_⟩
  rw [within.visiting, List.mem_cons, or_iff_right_of_imp]
  exact nofun

end Within

end Context

/-- A run completes no class twice. -/
theorem Run.keepsVisited {a b : Context} (run : Run a b) : a.KeepsVisited b := by
  intro n _ complete
  rcases run.state ⟨n⟩ with same | ⟨before, -⟩
  · rw [same, complete]
  · rw [complete] at before
    cases before

/-! ## Ways of visiting the children of a node -/

/-- The visits do the same in open scopes, within visits in the given ones. -/
structure Visitor.Follows (path : List WalkScope) (visit visit' : Visitor) : Prop where
  runs : visit.Runs
  same : ∀ mode scope idx cx, scope.IsOpenIn cx.table → cx.Within (scope :: path) →
    visit' mode scope idx cx = visit mode scope idx cx

theorem Visitor.Follows.each {path : List WalkScope} {visit visit' : Visitor}
    (follows : Visitor.Follows path visit visit') {scope : WalkScope} (nodes : List NodeIndex)
    {cx : Context} (isOpen : scope.IsOpenIn cx.table) (within : cx.Within (scope :: path)) :
    visit'.each scope nodes cx = visit.each scope nodes cx := by
  induction nodes generalizing cx with
  | nil => rfl
  | cons node rest ih =>
    have first := follows.runs .nested scope node cx isOpen
    show visit'.each scope rest (visit' .nested scope node cx).2
      = visit.each scope rest (visit .nested scope node cx).2
    rw [follows.same .nested scope node cx isOpen within]
    exact ih (first.precedes.isOpenIn isOpen) (within.run first)

namespace Walk

variable (w : Walk) {cx : Context} {scope : WalkScope} {around : List WalkScope}
  {visit visit' : Visitor} (follows : Visitor.Follows (scope :: around) visit visit')
  (isOpen : scope.IsOpenIn cx.table) (within : cx.Within (scope :: around))
include follows isOpen within

theorem visitTypeDecl_follows (idx : NodeIndex) (pos : Position) (decl : TypeDecl) :
    w.visitTypeDecl visit' scope idx pos decl cx = w.visitTypeDecl visit scope idx pos decl cx := by
  rw [visitTypeDecl_eq, visitTypeDecl_eq]
  split
  · rfl
  · next id b begun =>
    have numbered := w.qualifiedName_run isOpen decl.name
    have opens := opens_declared isOpen begun
    have linked := w.linkParents_run opens.isOpen pos (w.qualifiedName scope decl.name cx).1 decl
    have inside := WalkScope.isOpenIn_classBody (linked.precedes.table.isOpen opens.isOpen)
    -- the members are visited within the class, after what it extends has been linked
    have members := ((within.run numbered).opens opens).run linked
    rw [follows.each decl.members inside members]

theorem visitAnonymous_follows (idx : NodeIndex) (pos : Position) (base : String)
    (members : List NodeIndex) :
    w.visitAnonymous visit' scope idx pos base members cx
      = w.visitAnonymous visit scope idx pos base members cx := by
  rw [visitAnonymous, visitAnonymous]
  cases inScope : scope.ref? with
  | none => rfl
  | some ref =>
    have outer : cx.table.IsOpen ref := isOpen ref inScope
    have counted : Run cx (numbered ref cx) := .deed (.enter (.number outer))
    simp only
    split
    · rfl
    · next id b begun =>
      have opens := anonymous_opens outer begun
      have outer := (counted.precedes.trans opens.precedes).table.isOpen outer
      have linked := w.linkType_run outer base pos (.anonymousBase id) opens.isOpen
      have inside := WalkScope.isOpenIn_classBody (linked.precedes.table.isOpen opens.isOpen)
      have visited := ((within.run counted).opens opens).run linked
      rw [follows.each members inside visited]

theorem visitMethod_follows (pos : Position) (decl : MethodDecl) :
    w.visitMethod visit' scope pos decl cx = w.visitMethod visit scope pos decl cx := by
  cases scope with
  | file | body => rfl
  | classBody owner =>
    obtain ⟨entered, inside⟩ := w.enterMethod_run (isOpen _ rfl) pos decl
    have visited := (within.run entered).body (.method (w.enterMethod owner pos decl cx).1)
    refine Prod.ext rfl ?_
    rw [visitMethod_eq, visitMethod_eq]
    cases decl.body with
    | none => rfl
    | some body =>
      simp only
      rw [follows.same .inline _ body _ (WalkScope.isOpenIn_body inside) visited]

theorem visitVariables_follows (modifiers : List Modifier) (declarators : List NodeIndex)
    (forceFinal : Bool) :
    w.visitVariables visit' scope modifiers declarators forceFinal cx
      = w.visitVariables visit scope modifiers declarators forceFinal cx := by
  let written := (declarators.filterMap (w.declarator? (Modifier.flags modifiers))).map (·.1)
  cases scope with
  | file => rfl
  | classBody id =>
    have declared := w.declareFields_run (isOpen _ rfl) written forceFinal
    exact Prod.ext rfl
      (follows.each _ (declared.precedes.isOpenIn isOpen) (within.run declared).again)
  | body id =>
    have declared := w.declareLocals_run id (isOpen _ rfl) written .nowhere forceFinal
    exact Prod.ext rfl
      (follows.each _ (declared.precedes.isOpenIn isOpen) (within.run declared).again)

theorem visitBlock_follows (mode : BlockMode) (statements : List NodeIndex) :
    visitBlock visit' mode scope statements cx = visitBlock visit mode scope statements cx := by
  cases mode with
  | inline => exact follows.each statements isOpen within.again
  | nested =>
    simp only [visitBlock]
    split
    · next id next opened =>
      obtain ⟨first, inside⟩ := openBlock_run isOpen opened
      exact follows.each statements inside ((within.run first).body _)
    · rfl

theorem visitInitializer_follows (body : NodeIndex) :
    visitInitializer visit' scope body cx = visitInitializer visit scope body cx := by
  cases scope with
  | file => rfl
  | body id => exact congrArg Prod.snd (follows.same .nested _ body cx isOpen within.again)
  | classBody id =>
    simp only [visitInitializer]
    split
    · next id next opened =>
      obtain ⟨first, inside⟩ := openBlock_run isOpen opened
      rw [follows.same .inline _ body next inside ((within.run first).body _)]
    · rfl

theorem visitFor_follows (children : List NodeIndex) :
    visitFor visit' scope children cx = visitFor visit scope children cx := by
  simp only [visitFor]
  split
  · next id next opened =>
    obtain ⟨first, inside⟩ := openBlock_run isOpen opened
    exact follows.each children inside ((within.run first).body _)
  · exact follows.each children isOpen within.again

theorem visitCatch_follows (exception handler : NodeIndex) :
    w.visitCatch visit' scope exception handler cx = w.visitCatch visit scope exception handler cx := by
  cases scope with
  | file | classBody => rfl
  | body outer =>
    obtain ⟨entered, inside⟩ := w.handler_run (isOpen outer.scope rfl) exception
    have visited := (within.run entered).body (.block (cx.table.addBlock outer.scope).1)
    have handled := follows.same .inline _ handler _ inside visited
    simp only [visitCatch]
    rw [handled]

/-- What an admitted node calls for is the same. -/
theorem visitData_follows (mode : BlockMode) (idx : NodeIndex) (pos : Position) (forceFinal : Bool)
    (data : NodeData) :
    w.visitData visit' mode scope idx pos forceFinal data cx
      = w.visitData visit mode scope idx pos forceFinal data cx := by
  have children (nodes : List NodeIndex) : visit'.each scope nodes cx = visit.each scope nodes cx :=
    follows.each nodes isOpen within.again
  have mention (type : String) (nodes : List NodeIndex) :
      visit'.each scope nodes (cx.linkType w.file scope.ref? type pos .existence)
        = visit.each scope nodes (cx.linkType w.file scope.ref? type pos .existence) := by
    have linked := Run.deed (.link w.file isOpen type pos
      (show cx.table.OpenPlace .existence from trivial))
    exact follows.each nodes (linked.precedes.isOpenIn isOpen) (within.run linked).again
  cases data with
  | sourceFile package imports types =>
    have entered := w.enterFile_run package imports types cx
    exact Prod.ext rfl
      (follows.each types (entered.precedes.isOpenIn isOpen) (within.run entered).again)
  | classDef => exact w.visitTypeDecl_follows follows isOpen within idx pos _
  | interfaceDef => exact w.visitTypeDecl_follows follows isOpen within idx pos _
  | methodDef => exact w.visitMethod_follows follows isOpen within pos _
  | constructorDef => exact w.visitMethod_follows follows isOpen within pos _
  | formalParameter => rfl
  | variableDeclaration modifiers declarators =>
    exact w.visitVariables_follows follows isOpen within modifiers declarators forceFinal
  | block statements =>
    exact Prod.ext rfl (visitBlock_follows follows isOpen within mode statements)
  | instanceInitializer body => exact Prod.ext rfl (visitInitializer_follows follows isOpen within body)
  | catchBlock exception handler => exact w.visitCatch_follows follows isOpen within exception handler
  | forStatement => exact Prod.ext rfl (visitFor_follows follows isOpen within _)
  | instantiation outer type arguments => exact Prod.ext rfl (mention type _)
  | cast type operand => exact Prod.ext rfl (mention type _)
  | anonymousClass outer type arguments members =>
    -- what the class is built from is visited outside of it
    have before := Visitor.each_run follows.runs (outer.toList ++ arguments) isOpen
    simp only [visitData, children]
    exact w.visitAnonymous_follows follows (before.precedes.isOpenIn isOpen) (within.run before) idx
      pos type members
  | _ => exact Prod.ext rfl (children _)

end Walk

/-! ## The watched walk -/

namespace Walk

variable (w : Walk)

/-- A visit is the same for the ways of visiting children that follow each other. -/
theorem frame_follows {remaining : Nat} {scope : WalkScope} {around : List WalkScope}
    {visit visit' : Visitor} (follows : Visitor.Follows (scope :: around) visit visit')
    (mode : BlockMode) (idx : NodeIndex) {cx : Context} (isOpen : scope.IsOpenIn cx.table)
    (within : cx.Within (scope :: around)) :
    w.frame remaining 0 visit' mode scope idx cx = w.frame remaining 0 visit mode scope idx cx := by
  unfold frame
  cases w.arena.get? idx with
  | none => rfl
  | some node =>
    have inspected := Run.deed (.inspect cx w (remaining - 0) scope idx node)
    simp only
    split
    · rfl
    · generalize w.inspect (remaining - 0) scope idx node cx = entry at *
      obtain ⟨_ | admission, next⟩ := entry
      · rfl
      · simp only
        rw [w.visitData_follows follows (inspected.precedes.isOpenIn isOpen) (within.run inspected)]

/-- Nothing is wrong with a visit within visits, whether it is watched from the inside or not. -/
theorem watched_eq {visit alarm : Visitor} (runs : visit.Runs) {scope : WalkScope}
    {around : List WalkScope} {mode : BlockMode} {idx : NodeIndex} {cx : Context}
    (isOpen : scope.IsOpenIn cx.table) (within : cx.Within (scope :: around)) {inner : Visitor}
    (same : inner mode scope idx cx = visit mode scope idx cx) :
    Visitor.watched inner alarm around mode scope idx cx = visit mode scope idx cx := by
  have run := runs mode scope idx cx isOpen
  simp only [Visitor.watched]
  rw [same, if_pos ⟨within.orderly, (within.run run).orderly, run.keepsVisited⟩]

/-- The alarm is never raised: the watched walk is the walk. The induction is on the levels of nesting
that remain. -/
theorem watched_follows (alarm : Visitor) (remaining : Nat) (around : List WalkScope) :
    Visitor.Follows around (w.visit remaining) (w.watched alarm remaining around) := by
  induction remaining generalizing around with
  | zero =>
    refine ⟨w.visit_runs 0, fun mode scope idx cx isOpen within => ?_⟩
    refine watched_eq (w.visit_runs 0) isOpen within ?_
    rw [w.frame_of_le le_rfl]
  | succ remaining ih =>
    refine ⟨w.visit_runs _, fun mode scope idx cx isOpen within => ?_⟩
    rw [watched]
    refine watched_eq (w.visit_runs _) isOpen within ?_
    rw [w.frame_follows (ih (scope :: around)) mode idx isOpen within]
    have unrolled : w.frame (remaining + 1) 0 (w.visit remaining) = w.visit (remaining + 1) :=
      w.frame_visit (remaining + 1) 0
    rw [unrolled]

end Walk

/-! ## Runs -/

namespace Context

theorem Finished.perform {cx : Context} (finished : cx.Finished) (request : Request) :
    (cx.perform request).Finished := by
  cases request with
  | analyze unit =>
    have known : (cx.addFile unit.tree.fileName unit.level).2.Finished := finished
    exact known.run (cx.analyzeFile_run unit)
  | settle =>
    intro id
    have same := SymbolTable.state_of_roll cx.settle_settles.roll id
    exact fun visiting => finished id (same.symm.trans visiting)

theorem Finished.performAll {cx : Context} (finished : cx.Finished) (requests : List Request) :
    (cx.performAll requests).Finished := by
  induction requests generalizing cx with
  | nil => exact finished
  | cons request rest ih => exact ih (finished.perform request)

theorem perform_keepsVisited (cx : Context) (request : Request) :
    cx.KeepsVisited (cx.perform request) := by
  cases request with
  | analyze unit =>
    have run := cx.analyzeFile_run unit
    exact run.keepsVisited
  | settle =>
    intro n _ complete
    rw [perform, SymbolTable.state_of_roll cx.settle_settles.roll, complete]

theorem performAll_keepsVisited (cx : Context) (requests : List Request) :
    cx.KeepsVisited (cx.performAll requests) := by
  induction requests generalizing cx with
  | nil => exact fun _ _ complete => complete
  | cons request rest ih =>
    intro n known complete
    have first := cx.perform_keepsVisited request n known complete
    refine ih (cx.perform request) n (SymbolTable.known_of_isDeclared ?_) first
    rw [Symbol.isDeclared, first]
    rfl

/-- Whatever an analyzer is asked to do, its classes come to their stages in order. Between requests
no class is under way, and what is waited for is only referred to. A declaration is accepted unless it
is builtin or has been accepted, and a class that has been visited stays so. And all of this holds at
every node that the walk of a further file comes to, of the classes within whose bodies it is then. -/
theorem performAll_lifecycle (options : Options) (requests : List Request) :
    let cx := (start options).performAll requests
    cx.Orderly []
      ∧ (∀ id, (cx.table.symbol id).state ≠ .visiting)
      ∧ (∀ name ∈ cx.pending.names,
          ∃ id ∈ cx.table.lookup? name, (cx.table.symbol id).state = .placeholder)
      ∧ (∀ name, (∃ accepted, cx.table.beginDefinition name = .ok accepted)
          ↔ name ∉ Builtin.names ++ cx.declarations)
      ∧ (∀ later, cx.KeepsVisited (cx.performAll later))
      ∧ ∀ unit alarm, cx.analyzeWatched alarm unit = cx.analyzeFile unit := by
  have lifecycle := (lifecycle_start options).performAll requests
  have finished := (finished_start options).performAll requests
  generalize (start options).performAll requests = cx at *
  have between : cx.Within [] := ⟨lifecycle, fun id => iff_of_false (finished id) nofun⟩
  refine ⟨between.orderly, finished, fun name isIn => ?_, fun name => ?_, cx.performAll_keepsVisited,
    fun unit alarm => ?_⟩
  · obtain ⟨id, denoted, waits⟩ := lifecycle.awaited isIn
    refine ⟨id, denoted, ?_⟩
    have notVisiting := finished id
    cases state : (cx.table.symbol id).state with
    | placeholder => rfl
    | visiting => exact absurd state notVisiting
    | complete => exact absurd state waits
  · rw [SymbolTable.beginDefinition_iff lifecycle.owned.forest.classes.names, lifecycle.declares]
  · have known : (cx.addFile unit.tree.fileName unit.level).2.Within [.file] :=
      ⟨lifecycle.addFile _ _, fun id => iff_of_false (finished id) (by simp)⟩
    exact (Walk.watched_follows _ alarm cx.options.maxDepth []).same .nested .file unit.tree.root _
      (WalkScope.isOpenIn_file _) known

end Context

end LevelCheck
