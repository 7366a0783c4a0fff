import LevelCheck.Proofs.OnwardNodes
set_option autoImplicit false

/-! # The trail of a walk

Whatever is done for a node between the visits of its children comes to no node, so it leaves the
trail alone. With that, each handler makes the tour of the nodes that `Arena.onward` lists for it, as
long as the visits of its children are tours of one node each. The exception are classes whose name
has been declared: they are pruned, and their members are not visited. -/

namespace LevelCheck

/-! ## What leaves the trail alone -/

namespace Context

variable (cx : Context)

theorem foldl_trail {α : Type} {step : Context → α → Context}
    (keeps : ∀ cx x, (step cx x).trail = cx.trail) (xs : List α) (cx : Context) :
    (xs.foldl step cx).trail = cx.trail := by
  induction xs generalizing cx with
  | nil => rfl
  | cons x rest ih => exact (ih (step cx x)).trans (keeps cx x)

@[simp] theorem report_trail (file : FileId) (pos : Position) (p : Problem) :
    (cx.report file pos p).trail = cx.trail := rfl

@[simp] theorem modifyTable_trail (change : SymbolTable → SymbolTable) :
    (cx.modifyTable change).trail = cx.trail := rfl

@[simp] theorem apply_trail (file : FileId) (pos : Position) (link : Link) (target : SymbolId) :
    (cx.apply file pos link target).trail = cx.trail := by
  rw [apply]
  split <;> rfl

@[simp] theorem resume_trail (r : PendingReference) (target : SymbolId) :
    (Context.resume r target cx).trail = cx.trail := by
  unfold resume
  rw [apply_trail]
  rfl

@[simp] theorem linkType_trail (file : FileId) (scope : Option ScopeRef) (written : String)
    (pos : Position) (link : Link) : (cx.linkType file scope written pos link).trail = cx.trail := by
  cases cx.linkType_linking file scope written pos link with
  | none is => rw [is]
  | now inRun found is =>
    rw [is, apply_trail]
    rfl
  | later inRun met waits undeclared is =>
    rw [is]
    rfl

@[simp] theorem defineComplete_trail (id : SymbolId) : (cx.defineComplete id).trail = cx.trail := by
  rw [defineComplete_eq]
  exact foldl_trail (fun cx r => cx.resume_trail r id) _ _

theorem beginClass_trail {next : Context} {qualified : String} {outer : Option ScopeRef}
    {head : Symbol → Symbol} {id : SymbolId}
    (begun : cx.beginClass? qualified outer head = some (id, next)) : next.trail = cx.trail := by
  obtain ⟨t, -, rfl⟩ := beginClass_some begun
  rfl

end Context

namespace Walk

variable (w : Walk) (cx : Context)

@[simp] theorem reportDuplicates_trail (declarators : List Declarator) (pos : Position)
    (problem : String → Problem) (duplicates : List String) :
    (w.reportDuplicates declarators pos problem duplicates cx).trail = cx.trail :=
  Context.foldl_trail (fun cx _ => cx.report_trail w.file _ _) _ _

@[simp] theorem linkVariables_trail (scope : ScopeRef) (declarators : List Declarator)
    (ids : List VariableId) : (w.linkVariables scope declarators ids cx).trail = cx.trail :=
  Context.foldl_trail (fun cx _ => cx.linkType_trail w.file _ _ _ _) _ _

@[simp] theorem declareVariables_trail (scope : ScopeRef) (written : List Declarator) (pos : Position)
    (problem : String → Problem) (entry : Declared × SymbolTable) :
    (w.declareVariables scope written pos problem entry cx).trail = cx.trail := by
  rw [declareVariables, linkVariables_trail, reportDuplicates_trail]

@[simp] theorem linkInterfaces_trail (id : SymbolId) (pos : Position) (index : Nat)
    (interfaces : List String) : (w.linkInterfaces id pos index interfaces cx).trail = cx.trail := by
  induction interfaces generalizing index cx with
  | nil => rfl
  | cons written rest ih =>
    unfold linkInterfaces
    rw [ih, Context.linkType_trail, Context.modifyTable_trail]

@[simp] theorem linkThrown_trail (id : MethodId) (pos : Position) (index : Nat)
    (throws : List String) : (w.linkThrown id pos index throws cx).trail = cx.trail := by
  induction throws generalizing index cx with
  | nil => rfl
  | cons written rest ih =>
    unfold linkThrown
    rw [ih, Context.linkType_trail]

@[simp] theorem linkSuperclass_trail (id : SymbolId) (pos : Position) (qualified : String)
    (decl : TypeDecl) : (w.linkSuperclass id pos qualified decl cx).trail = cx.trail := by
  unfold linkSuperclass
  split
  · simp
  · split <;> rfl

@[simp] theorem qualifiedName_trail (scope : WalkScope) (simple : String) :
    (w.qualifiedName scope simple cx).2.trail = cx.trail := by
  unfold qualifiedName
  split
  · split <;> rfl
  · rfl
  · rfl

@[simp] theorem enterMethod_trail (owner : SymbolId) (pos : Position) (decl : MethodDecl) :
    (w.enterMethod owner pos decl cx).2.trail = cx.trail := by
  unfold enterMethod
  simp only [linkVariables_trail, linkThrown_trail]
  split <;> simp

@[simp] theorem enterException_trail (id : BlockId) (exception : NodeIndex) :
    (w.enterException id exception cx).2.trail = cx.trail := by
  unfold enterException
  split <;> simp

end Walk

/-! ## Going on to further nodes -/

namespace Walk

/-- From within the visit of a node, the walk makes the tour of the given nodes, or of the first of
them if it prunes the node on the way. -/
def GoesOn (w : Walk) (remaining : Nat) (idx : NodeIndex) (onward : List Stop) (a b : Context) :
    Prop :=
  ∃ inner, inner <+: onward ∧ (b.log.isPruned w.file idx = false → inner = onward)
    ∧ w.Tour remaining inner a b

/-- The visits of nodes one by one are tours. A block that belongs to the scope around it is visited
in a body. -/
structure Tours (w : Walk) (remaining : Nat) (visit : Visitor) : Prop where
  runs : visit.Runs
  tour : ∀ mode scope idx {a : Context}, scope.IsOpenIn a.table →
    (mode = .inline → scope.kind = .body) →
    w.Tour remaining [(scope.kind, idx)] a (visit mode scope idx a).2

variable {w : Walk} {remaining : Nat} {idx : NodeIndex} {onward more : List Stop} {a b c : Context}

theorem Tour.goesOn (tour : w.Tour remaining onward a b) : w.GoesOn remaining idx onward a b :=
  ⟨onward, List.prefix_rfl, fun _ => rfl, tour⟩

theorem GoesOn.after (tour : w.Tour remaining onward a b) (goes : w.GoesOn remaining idx more b c) :
    w.GoesOn remaining idx (onward ++ more) a c := by
  obtain ⟨inner, isPrefix, whole, inside⟩ := goes
  refine ⟨onward ++ inner, (List.prefix_append_right_inj _).2 isPrefix, fun fresh => ?_,
    tour.append inside⟩
  rw [whole fresh]

/-- A node that is pruned before the walk goes on from it. -/
theorem GoesOn.of_pruned (course : Course a b) (trail : b.trail = a.trail)
    (pruned : b.log.isPruned w.file idx = true) : w.GoesOn remaining idx onward a b := by
  refine ⟨[], List.nil_prefix, fun fresh => ?_, .of_course course trail⟩
  rw [pruned] at fresh
  cases fresh

theorem isPruned_reportPruning (w : Walk) (idx : NodeIndex) (pos : Position) (p : Problem)
    (cx : Context) : (cx.reportPruning w.file idx pos p).log.isPruned w.file idx = true := by
  simp [Context.reportPruning, ErrorLog.addPruning, ErrorLog.isPruned]

theorem Tours.each {visit : Visitor} (tours : w.Tours remaining visit) {scope : WalkScope}
    (nodes : List NodeIndex) (isOpen : scope.IsOpenIn a.table) :
    w.Tour remaining (nodes.map (scope.kind, ·)) a (visit.each scope nodes a) := by
  induction nodes generalizing a with
  | nil => exact .rest _ a
  | cons node rest ih =>
    have first := tours.tour .nested scope node isOpen nofun
    have inside := (tours.runs .nested scope node a isOpen).precedes.isOpenIn isOpen
    exact first.append (ih inside)

/-- What the walk does in a class that it has entered: it visits the members, and completes the
class. -/
theorem Tours.members {visit : Visitor} (tours : w.Tours remaining visit) {id : SymbolId}
    (members : List NodeIndex) (isOpen : a.table.IsOpen (.symbol id)) :
    w.Tour remaining (members.map (.classBody, ·)) a
      ((visit.each (.classBody id) members a).defineComplete id) := by
  have visited := tours.each members (WalkScope.isOpenIn_classBody isOpen)
  have inside := visited.course.precedes.table.isOpen isOpen
  exact visited.andThen (.completes (.rest _) inside) (Context.defineComplete_trail _ id)

/-! ## Handlers -/

/-- Reading the declarators of a declaration finds their initializers. -/
theorem initializers_eq (w : Walk) (flags : Nat) (declarators : List NodeIndex) :
    (declarators.filterMap (w.declarator? flags)).filterMap (·.2)
      = declarators.filterMap w.arena.initializer? := by
  rw [List.filterMap_filterMap]
  congr
  funext d
  unfold declarator? Arena.initializer?
  cases w.arena.get? d with
  | none => rfl
  | some node => cases data : node.data <;> simp [data]

section

variable (idx) {visit : Visitor} (tours : w.Tours remaining visit) {scope : WalkScope}
  (isOpen : scope.IsOpenIn a.table)
include tours isOpen

theorem visitTypeDecl_goesOn (pos : Position) (decl : TypeDecl) :
    w.GoesOn remaining idx (decl.members.map (.classBody, ·)) a
      (w.visitTypeDecl visit scope idx pos decl a).2 := by
  have numbered := w.qualifiedName_run isOpen decl.name
  rw [visitTypeDecl_eq]
  split
  · have refused : Run (w.qualifiedName scope decl.name a).2
        ((w.qualifiedName scope decl.name a).2.reportPruning w.file idx pos
          (.duplicateClass (w.qualifiedName scope decl.name a).1)) := .deed (.prune _ _ idx pos trivial)
    exact .of_pruned (.of_run (numbered.trans refused)) (w.qualifiedName_trail a scope decl.name)
      (isPruned_reportPruning w idx pos _ _)
  · next id b begun =>
    have opens := opens_declared isOpen begun
    have linked := w.linkParents_run opens.isOpen pos (w.qualifiedName scope decl.name a).1 decl
    have inside := linked.precedes.table.isOpen opens.isOpen
    -- the class is entered and its supertypes are linked before any member is visited
    have entered := (Course.opens (.of_run numbered) opens).trans (.of_run linked)
    refine (Tour.aside entered ?_ (tours.members decl.members inside)).goesOn
    simp [linkParents, Context.beginClass_trail _ begun]

theorem visitAnonymous_goesOn (pos : Position) (base : String) (members : List NodeIndex) :
    w.GoesOn remaining idx (Arena.stops
      (members.map (Arena.provided (scope.kind != .file) .classBody, ·))) a
      (w.visitAnonymous visit scope idx pos base members a).2 := by
  rw [visitAnonymous]
  split
  · next noScope =>
    -- outside of every class the members are passed over
    cases scope with
    | file => simpa [Arena.provided, WalkScope.kind] using (Tour.rest remaining a).goesOn
    | classBody id | body id => cases noScope
  · next ref inScope =>
    have isKind : (scope.kind != .file) = true := by
      cases scope with
      | file => cases inScope
      | classBody id | body id => rfl
    have around : a.table.IsOpen ref := isOpen ref inScope
    have counted : Run a (numbered ref a) := .deed (.enter (.number around))
    rw [isKind]
    simp only [Arena.provided, if_true, Arena.stops_some]
    split
    · refine .of_pruned (.of_run (counted.trans ?_)) rfl (isPruned_reportPruning w idx pos _ _)
      exact .deed (.prune _ w.file idx pos trivial)
    · next id c begun =>
      have opens := anonymous_opens around begun
      have around := (counted.precedes.trans opens.precedes).table.isOpen around
      have linked := w.linkType_run around base pos (.anonymousBase id) opens.isOpen
      have inside := linked.precedes.table.isOpen opens.isOpen
      have entered := (Course.opens (.of_run counted) opens).trans (.of_run linked)
      refine (Tour.aside entered ?_ (tours.members members inside)).goesOn
      rw [Context.linkType_trail, Context.beginClass_trail _ begun]

theorem visitVariables_tour (modifiers : List Modifier) (declarators : List NodeIndex)
    (forceFinal : Bool) :
    w.Tour remaining (w.arena.onward scope.kind (.variableDeclaration modifiers declarators)) a
      (w.visitVariables visit scope modifiers declarators forceFinal a).2 := by
  let found := declarators.filterMap (w.declarator? (Modifier.flags modifiers))
  have stops : scope.kind ≠ .file →
      w.arena.onward scope.kind (.variableDeclaration modifiers declarators)
        = (found.filterMap (·.2)).map (scope.kind, ·) := by
    intro isKind
    simp only [Arena.onward, isKind, if_false]
    rw [initializers_eq]
  cases scope with
  | file => exact .rest remaining a
  | classBody id =>
    have declared := w.declareFields_run (isOpen _ rfl) (found.map (·.1)) forceFinal
    have inside := declared.precedes.isOpenIn isOpen
    rw [stops nofun, visitVariables_fields]
    exact .aside (.of_run declared) (w.declareVariables_trail ..)
      (tours.each (found.filterMap (·.2)) inside)
  | body id =>
    have declared := w.declareLocals_run id (isOpen _ rfl) (found.map (·.1)) .nowhere forceFinal
    have inside := declared.precedes.isOpenIn isOpen
    rw [stops nofun, visitVariables_locals]
    exact .aside (.of_run declared) (w.declareVariables_trail ..)
      (tours.each (found.filterMap (·.2)) inside)

theorem visitBlock_tour {mode : BlockMode} (inBody : mode = .inline → scope.kind = .body)
    (statements : List NodeIndex) :
    w.Tour remaining (w.arena.onward scope.kind (.block statements)) a
      (visitBlock visit mode scope statements a) := by
  unfold visitBlock
  have stops : scope.kind ≠ .file →
      w.arena.onward scope.kind (.block statements) = statements.map (.body, ·) := by
    intro isKind
    simp [Arena.onward, Arena.placed, Arena.provided, isKind]
  cases mode with
  | inline =>
    have visited := tours.each statements isOpen
    rw [inBody rfl] at stops visited ⊢
    rw [stops (by decide)]
    exact visited
  | nested =>
    cases scope with
    | file =>
      have none : w.arena.onward WalkScope.file.kind (.block statements) = [] := by
        simp [Arena.onward, Arena.placed, Arena.provided, WalkScope.kind]
      rw [none]
      exact .rest remaining a
    | classBody id | body id =>
      obtain ⟨opened, inside⟩ := openBlock_run isOpen rfl
      rw [stops (by rintro ⟨⟩)]
      exact .aside (.of_run opened) rfl (tours.each statements inside)

theorem visitInitializer_tour (body : NodeIndex) :
    w.Tour remaining (w.arena.onward scope.kind (.instanceInitializer body)) a
      (visitInitializer visit scope body a) := by
  unfold visitInitializer Arena.onward Arena.placed
  cases scope with
  | file => exact .rest remaining a
  | body id => exact tours.tour .nested _ body isOpen nofun
  | classBody id =>
    obtain ⟨opened, inside⟩ := openBlock_run isOpen rfl
    exact .aside (.of_run opened) rfl (tours.tour .inline _ body inside fun _ => rfl)

theorem visitFor_tour (init : List NodeIndex) (condition : Option NodeIndex)
    (update : List NodeIndex) (body : NodeIndex) :
    w.Tour remaining (w.arena.onward scope.kind (.forStatement init condition update body)) a
      (visitFor visit scope (NodeData.forStatement init condition update body).children a) := by
  unfold visitFor Arena.onward Arena.placed
  simp only [Arena.stops_some]
  cases scope with
  | file => exact tours.each _ isOpen
  | classBody id | body id =>
    obtain ⟨opened, inside⟩ := openBlock_run isOpen rfl
    exact .aside (.of_run opened) rfl (tours.each _ inside)

theorem visitCatch_tour (exception handler : NodeIndex) :
    w.Tour remaining (w.arena.onward scope.kind (.catchBlock exception handler)) a
      (w.visitCatch visit scope exception handler a).2 := by
  cases scope with
  | file | classBody id => exact .rest remaining a
  | body outer =>
    obtain ⟨entered, inside⟩ := w.handler_run (isOpen outer.scope rfl) exception
    have handled := tours.tour .inline _ handler inside fun _ => rfl
    refine .aside (.of_run entered) ?_ handled
    rw [enterException_trail]

theorem visitMethod_tour (pos : Position) (decl : MethodDecl) :
    w.Tour remaining (Arena.stops
      (decl.body.toList.map (Arena.provided (scope.kind == .classBody) .body, ·))) a
      (w.visitMethod visit scope pos decl a).2 := by
  have passed : (scope.kind == .classBody) = false → Arena.stops
      (decl.body.toList.map (Arena.provided (scope.kind == .classBody) .body, ·)) = [] := by
    intro isKind
    simp [Arena.provided, isKind]
  cases scope with
  | file | body id =>
    rw [passed rfl]
    exact .rest remaining a
  | classBody owner =>
    obtain ⟨entered, inside⟩ := w.enterMethod_run (isOpen _ rfl) pos decl
    have sameTrail := w.enterMethod_trail a owner pos decl
    rw [visitMethod_eq]
    cases decl.body with
    | none => exact .of_course (.of_run entered) sameTrail
    | some body =>
      have inside : (WalkScope.body (.method (w.enterMethod owner pos decl a).1)).IsOpenIn _ :=
        WalkScope.isOpenIn_body inside
      exact .aside (.of_run entered) sameTrail (tours.tour .inline _ body inside fun _ => rfl)

/-- From an admitted node the walk goes on as `Arena.onward` says. -/
theorem visitData_goesOn {mode : BlockMode} (inBody : mode = .inline → scope.kind = .body)
    (pos : Position) (forceFinal : Bool) (data : NodeData) :
    w.GoesOn remaining idx (w.arena.onward scope.kind data) a
      (w.visitData visit mode scope idx pos forceFinal data a).2 := by
  have children (nodes : List NodeIndex) :
      w.Tour remaining (Arena.stops (nodes.map (some scope.kind, ·))) a
        (visit.each scope nodes a) := by
    rw [Arena.stops_some]
    exact tours.each nodes isOpen
  have mention (type : String) (nodes : List NodeIndex) :
      w.Tour remaining (Arena.stops (nodes.map (some scope.kind, ·))) a
        (visit.each scope nodes (a.linkType w.file scope.ref? type pos .existence)) := by
    have linked := Run.deed (.link w.file isOpen type pos
      (show a.table.OpenPlace .existence from trivial))
    rw [Arena.stops_some]
    exact .aside (.of_run linked) (a.linkType_trail _ _ _ _ _)
      (tours.each nodes (linked.precedes.isOpenIn isOpen))
  cases data with
  | sourceFile package imports types =>
    have entered := w.enterFile_run package imports types a
    have visited := tours.each types (entered.precedes.isOpenIn isOpen)
    rw [← Arena.stops_some] at visited
    exact (Tour.aside (.of_run entered) rfl visited).goesOn
  | classDef modifiers name typeParams superclass interfaces members =>
    have goes := visitTypeDecl_goesOn idx tours isOpen pos
      { modifiers, name, typeParams, isInterface := false, superclass, interfaces, members }
    rw [← Arena.stops_some] at goes
    exact goes
  | interfaceDef modifiers name typeParams parents members =>
    have goes := visitTypeDecl_goesOn idx tours isOpen pos
      { modifiers, name, typeParams, isInterface := true, superclass := none
        interfaces := parents, members }
    rw [← Arena.stops_some] at goes
    exact goes
  | methodDef modifiers typeParams returnType name params throws body =>
    have visited := visitMethod_tour tours isOpen pos
      { modifiers, typeParams, returnType := some returnType, name, params, throws, body
        isConstructor := false }
    exact visited.goesOn
  | constructorDef modifiers name params throws body =>
    have visited := visitMethod_tour tours isOpen pos
      { modifiers, typeParams := [], returnType := none, name, params, throws, body := some body
        isConstructor := true }
    exact visited.goesOn
  | formalParameter => exact (Tour.rest remaining a).goesOn
  | variableDeclaration modifiers declarators =>
    exact (visitVariables_tour tours isOpen modifiers declarators forceFinal).goesOn
  | block statements => exact (visitBlock_tour tours isOpen inBody statements).goesOn
  | instanceInitializer body => exact (visitInitializer_tour tours isOpen body).goesOn
  | catchBlock exception handler =>
    exact (visitCatch_tour tours isOpen exception handler).goesOn
  | forStatement init condition update body =>
    exact (visitFor_tour tours isOpen init condition update body).goesOn
  | instantiation outer type arguments => exact (mention type _).goesOn
  | cast type operand => exact (mention type _).goesOn
  | anonymousClass outer type arguments members =>
    -- what the class is built from is visited before the members
    have before := children (outer.toList ++ arguments)
    have inside := before.course.precedes.isOpenIn isOpen
    have goes := visitAnonymous_goesOn idx tours inside pos type members
    have whole := goes.after before
    rw [← Arena.stops_append] at whole
    exact whole
  | _ => exact (children _).goesOn

end

/-- Visiting a node is the tour of that node. The induction is on the levels of nesting that
remain. -/
theorem visit_tours (w : Walk) (remaining : Nat) : w.Tours remaining (w.visit remaining) := by
  induction remaining with
  | zero =>
    refine ⟨w.visit_runs 0, fun mode scope idx a isOpen inBody => ?_⟩
    unfold visit
    cases found : w.arena.get? idx with
    | none => exact .absent found (.rest 0 a)
    | some node => exact .refused found (.rest 0 _)
  | succ remaining ih =>
    refine ⟨w.visit_runs _, fun mode scope idx a isOpen inBody => ?_⟩
    cases found : w.arena.get? idx with
    | none =>
      unfold visit
      rw [found]
      exact .absent found (.rest _ a)
    | some node =>
      have inspected := Run.deed (.inspect a w (remaining + 1) scope idx node)
      rw [w.visit_succ found]
      cases entry : w.inspect (remaining + 1) scope idx node a with
      | mk admission next =>
        rw [entry] at inspected
        cases admission with
        | none => exact .skipped found rfl entry (.rest _ next)
        | some admission =>
          have inside := inspected.precedes.isOpenIn isOpen
          obtain ⟨inner, goes, whole, tour⟩ :=
            visitData_goesOn idx ih inside inBody node.pos admission.forceFinal node.data
          exact .entered found rfl entry tour goes whole (.rest _ _)

end Walk

/-- The walk of a file of a run. -/
def Context.walkOf (cx : Context) (unit : SourceUnit) : Walk :=
  { arena := unit.tree.arena, policy := unit.level, file := ⟨cx.files.size⟩ }

/-- Analysing a file is the tour of its root. -/
theorem Context.analyzeFile_tour (cx : Context) (unit : SourceUnit) :
    (cx.walkOf unit).Tour cx.options.maxDepth [(.file, unit.tree.root)]
      (cx.addFile unit.tree.fileName unit.level).2 (cx.analyzeFile unit).2 :=
  ((cx.walkOf unit).visit_tours _).tour .nested .file unit.tree.root (WalkScope.isOpenIn_file _) nofun

end LevelCheck
