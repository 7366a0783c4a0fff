import LevelCheck.Proofs.AfterVisits
import LevelCheck.Proofs.ScopeFacts
set_option autoImplicit false

/-! # Names within a class

What a simple name may denote is put together from the classes around the place where it is written,
and wherever the walk goes on from a place in a class, it stays in the class. So what the name may
denote on account of a class, it may denote wherever in the class a type is met. -/

namespace LevelCheck

/-! ## Scopes in a class -/

namespace SymbolTable

/-- The scope is that of the class or lies in it. -/
def LiesIn (t : SymbolTable) (scope : ScopeRef) (cls : SymbolId) : Prop :=
  cls ∈ t.enclosingClasses (t.enclosingSymbol scope)

namespace LiesIn

variable {t u : SymbolTable} {scope within : ScopeRef} {cls : SymbolId}

theorem self (forest : t.Forest) (isOpen : t.IsOpen (.symbol cls)) :
    t.LiesIn (.symbol cls) cls := by
  rw [LiesIn, forest.leadsOutward.enclosingSymbol _ isOpen.holds,
    forest.enclosingClasses_eq isOpen.1]
  exact List.mem_cons_self

/-- What lies in a scope lies in the class that the scope lies in. -/
theorem inner (lies : t.LiesIn scope cls) (forest : t.Forest) (isOpen : t.IsOpen within)
    (step : t.outerOf within = some scope) : t.LiesIn within cls := by
  have outward := forest.leadsOutward
  rw [LiesIn, outward.enclosingSymbol _ isOpen.holds]
  cases within with
  | symbol id =>
    have around : (t.symbol id).outer = some scope := step
    rw [forest.enclosingClasses_eq isOpen.1, around]
    exact List.mem_cons_of_mem _ lies
  | method id =>
    obtain rfl : ScopeRef.symbol (t.method id).owner = scope := Option.some.inj step
    rwa [LiesIn, outward.enclosingSymbol _ (forest.scopes.owner_isOpen isOpen).holds] at lies
  | block id =>
    obtain rfl : (t.block id).outer = scope := Option.some.inj step
    exact lies

theorem keep (lies : t.LiesIn scope cls) (keeps : t.KeepsSurroundings u) (forest : t.Forest)
    (forest' : u.Forest) (isOpen : t.IsOpen scope) : u.LiesIn scope cls := by
  rw [LiesIn, keeps.enclosingSymbol forest forest' isOpen,
    keeps.enclosingClasses forest forest' (forest.scopes.enclosingSymbol_isOpen isOpen)]
  exact lies

theorem isOpen (lies : t.LiesIn scope cls) (forest : t.Forest) (isOpen : t.IsOpen scope) :
    t.IsOpen (.symbol cls) :=
  forest.enclosingClasses_isOpen (forest.scopes.enclosingSymbol_isOpen isOpen) cls lies

end LiesIn

end SymbolTable

theorem Context.linkType_forest (cx : Context) (file : FileId) (scope : Option ScopeRef)
    (written : String) (pos : Position) (link : Link) (forest : cx.table.Forest) :
    cx.table.KeepsSurroundings (cx.linkType file scope written pos link).table
      ∧ (cx.linkType file scope written pos link).table.Forest := by
  cases cx.linkType_linking file scope written pos link with
  | none is =>
    rw [is]
    exact ⟨.refl _, forest⟩
  | now inRun found is =>
    rw [is, Context.apply_table]
    exact ⟨.fill _ link _, forest.quiet (.fill _ link _)⟩
  | later inRun met waits undeclared is =>
    rw [is]
    exact ⟨.getOrAddPlaceholder _ _, forest.getOrAddPlaceholder _⟩

/-! ## Names that are seen -/

/-- A simple name, and a full one that it may denote on account of a class. -/
structure Meaning where
  simple : String
  full : String
  cls : SymbolId
  plain : IsPlainName simple
  notPrimitive : Builtin.isPrimitive simple = false

namespace Meaning

variable (m : Meaning)

/-- If the simple name is what is written, the full one is among the candidates. -/
def Covers (r : Reference) : Prop := r.IsWritten m.simple → m.full ∈ r.candidates

/-- In the scope the simple name may denote the full one. -/
structure At (scope : ScopeRef) (cx : Context) : Prop where
  forest : cx.table.Forest
  simply : cx.NamesSimply
  isOpen : cx.table.IsOpen scope
  lies : cx.table.LiesIn scope m.cls
  seen : m.full ∈ Resolution.classCandidates cx.table m.simple m.cls

/-- In the scope the simple name may denote the full one, and so it has wherever a type has been met
from the first state on. -/
structure Since (start : Context) (scope : ScopeRef) (cx : Context) : Prop extends m.At scope cx where
  meets : start.Meets m.Covers cx

variable {m} {start a b : Context} {scope within : ScopeRef}

namespace At

theorem keep (at' : m.At scope a) (keeps : a.table.KeepsSurroundings b.table)
    (forest : b.table.Forest) (simply : b.NamesSimply) : m.At scope b where
  forest := forest
  simply := simply
  isOpen := keeps.grows.isOpen at'.isOpen
  lies := at'.lies.keep keeps at'.forest forest at'.isOpen
  seen := by
    have known := (at'.lies.isOpen at'.forest at'.isOpen).1
    have seen := at'.seen
    rw [Resolution.mem_classCandidates, Symbol.simpleName] at seen ⊢
    rwa [keeps.grows.name m.cls known]

theorem inner (at' : m.At scope a) (isOpen : a.table.IsOpen within)
    (step : a.table.outerOf within = some scope) : m.At within a :=
  { at' with isOpen, lies := at'.lies.inner at'.forest isOpen step }

/-- Whatever type is written in the scope, the simple name stands for the full one there. -/
theorem covers (at' : m.At scope a) {file : FileId} {f : FileScope} (inRun : a.file? file = some f)
    (name : String) (pos : Position) (link : Link) :
    m.Covers (a.reference f file (some scope) name pos link) := by
  intro isWritten
  obtain rfl := (at'.simply.isWritten_iff inRun (some scope) name pos link m.plain).1 isWritten
  exact Resolution.mem_names_of_class m.plain m.notPrimitive at'.lies at'.seen

end At

namespace Since

variable (since : m.Since start scope a)
include since

theorem same (table : b.table = a.table) (files : b.files = a.files) (history : b.history = a.history) :
    m.Since start scope b := by
  have keeps : a.table.KeepsSurroundings b.table := by
    rw [table]
    exact .refl _
  have forest : b.table.Forest := by
    rw [table]
    exact since.forest
  exact ⟨since.keep keeps forest (since.simply.same files history),
    since.meets.trans (.of_same history)⟩

theorem step {t : SymbolTable} (step : TableStep a.table t) :
    m.Since start scope { a with table := t } := by
  have keeps : a.table.KeepsSurroundings t := .step step
  have simply : { a with table := t }.NamesSimply := since.simply.same rfl rfl
  have meets : a.Meets m.Covers { a with table := t } := .of_same rfl
  exact ⟨since.keep keeps (since.forest.step step) simply, since.meets.trans meets⟩

theorem inner (isOpen : a.table.IsOpen within) (step : a.table.outerOf within = some scope) :
    m.Since start within a :=
  { since with toAt := since.toAt.inner isOpen step }

theorem linkType (file : FileId) (written : String) (pos : Position) (link : Link) :
    m.Since start scope (a.linkType file (some scope) written pos link) := by
  obtain ⟨keeps, forest⟩ := a.linkType_forest file (some scope) written pos link since.forest
  exact ⟨since.keep keeps forest (since.simply.linkType ..),
    since.meets.trans (.linkType fun _ inRun => since.covers inRun _ pos link)⟩

variable (w : Walk)

theorem reportAll (pos : Position) (problems : List Problem) :
    m.Since start scope (w.reportAll pos problems a) := by
  induction problems generalizing a with
  | nil => exact since
  | cons p rest ih => exact ih (since.same rfl rfl rfl)

theorem reportDuplicates (declarators : List Walk.Declarator) (pos : Position)
    (problem : String → Problem) (duplicates : List String) :
    m.Since start scope (w.reportDuplicates declarators pos problem duplicates a) := by
  induction duplicates generalizing a with
  | nil => exact since
  | cons name rest ih => exact ih (since.same rfl rfl rfl)

theorem linkVariables (declarators : List Walk.Declarator) (ids : List VariableId) :
    m.Since start scope (w.linkVariables scope declarators ids a) := by
  rw [Walk.linkVariables]
  induction declarators.zip ids generalizing a with
  | nil => exact since
  | cons entry rest ih =>
    rw [List.foldl_cons]
    exact ih (since.linkType w.file entry.1.type entry.1.pos (.variableType entry.2))

theorem declareVariables {entry : Declared × SymbolTable} (enters : a.table.Enters entry)
    (declarators : List Walk.Declarator) (pos : Position) (problem : String → Problem) :
    m.Since start scope (w.declareVariables scope declarators pos problem entry a) :=
  ((since.step enters.step).reportDuplicates w ..).linkVariables w ..

end Since

/-! ### Methods -/

theorem Since.linkThrown {id : MethodId} (since : m.Since start (.method id) a) (w : Walk)
    (pos : Position) (index : Nat) (throws : List String) :
    m.Since start (.method id) (w.linkThrown id pos index throws a) := by
  induction throws generalizing index a with
  | nil => exact since
  | cons written rest ih => exact ih (since.linkType w.file written pos (.thrownType id index)) _

theorem Since.linkSignature {id : MethodId} (since : m.Since start (.method id) a) (w : Walk)
    (pos : Position) (decl : Walk.MethodDecl) (params : List Walk.Declarator) (ids : List VariableId) :
    m.Since start (.method id) (w.linkSignature id pos decl params ids a) := by
  rw [Walk.linkSignature]
  split
  · next written _ =>
    exact ((since.linkType w.file written pos (.returnType id)).linkThrown w ..).linkVariables w ..
  · exact (since.linkThrown w ..).linkVariables w ..

/-- A method lies in its class. -/
theorem Since.enterMethod {owner : SymbolId} (since : m.Since start (.symbol owner) a) (w : Walk)
    (pos : Position) (decl : Walk.MethodDecl) :
    m.Since start (.method (w.enterMethod owner pos decl a).1) (w.enterMethod owner pos decl a).2 := by
  have isNew := Walk.addMethod_isNew a.table (decl.record owner)
  have entered := since.step (.method since.isOpen decl.name (Modifier.flags decl.modifiers)
    decl.typeParams decl.returnType decl.throws decl.isConstructor)
  change m.Since start _ { a with table := (a.table.addMethod (decl.record owner)).2 } at entered
  rw [Walk.enterMethod_eq]
  generalize a.table.addMethod (decl.record owner) = added at *
  obtain ⟨id, t⟩ := added
  simp only at isNew entered ⊢
  have inMethod : m.Since start (.method id) { a with table := t } := by
    refine entered.inner isNew.1 ?_
    show some (t.method id).outer = _
    rw [isNew.2]
    rfl
  have named := inMethod.reportAll w pos (Walk.constructorProblem? (t.symbol owner) decl).toList
  have only : ((w.reportAll pos (Walk.constructorProblem? (t.symbol owner) decl).toList
        { a with table := t }).table.method id).vars
      = ((w.reportAll pos (Walk.constructorProblem? (t.symbol owner) decl).toList
        { a with table := t }).table.method id).params := by
    rw [w.reportAll_table, isNew.2]
    rfl
  have enters := SymbolTable.addParams_enters named.isOpen only
    (Walk.params_areNew (decl.params.filterMap w.param?) id)
  exact ((named.step enters.step).reportDuplicates w ..).linkSignature w ..

/-! ### Blocks and classes -/

theorem Since.inBlock (since : m.Since start scope a) :
    m.Since start (.block (a.table.addBlock scope).1) (Walk.inBlock scope a) := by
  have isNew := Walk.addBlock_isOpen a.table scope
  refine (since.step (.block since.isOpen)).inner isNew ?_
  exact congrArg some (a.table.addBlock_isNew scope).2

theorem Since.declareLocals {body : BodyId} (since : m.Since start body.scope a) (w : Walk)
    (written : List Walk.Declarator) (pos : Position) (force : Bool) :
    m.Since start body.scope (w.declareLocals body written pos force a) :=
  since.declareVariables w (SymbolTable.addVars_enters since.isOpen
    (Walk.writtenVars_areNew written _ force) a.options.duplicateScope) written pos _

theorem Since.declareFields {id : SymbolId} (since : m.Since start (.symbol id) a) (w : Walk)
    (written : List Walk.Declarator) (force : Bool) :
    m.Since start (.symbol id) (w.declareFields id written force a) :=
  since.declareVariables w (SymbolTable.addFields_enters since.isOpen
    (Walk.writtenVars_areNew written _ force)) written .nowhere _

theorem Since.enterException {id : BlockId} (since : m.Since start (.block id) a) (w : Walk)
    (exception : NodeIndex) : m.Since start (.block id) (w.enterException id exception a).2 := by
  rw [w.enterException_eq]
  split
  · exact since
  · have inBlock : m.Since start (BodyId.block id).scope a := since
    exact inBlock.declareLocals w _ _ _

theorem Since.linkInterfaces {id : SymbolId} (since : m.Since start (.symbol id) a) (w : Walk)
    (pos : Position) (index : Nat) (interfaces : List String) :
    m.Since start (.symbol id) (w.linkInterfaces id pos index interfaces a) := by
  induction interfaces generalizing index a with
  | nil => exact since
  | cons written rest ih =>
    have entered := since.step (.interface since.isOpen written)
    exact ih (entered.linkType w.file written pos (.interface id index)) _

theorem Since.linkSuperclass {id : SymbolId} (since : m.Since start (.symbol id) a) (w : Walk)
    (pos : Position) (qualified : String) (decl : Walk.TypeDecl) :
    m.Since start (.symbol id) (w.linkSuperclass id pos qualified decl a) := by
  rw [Walk.linkSuperclass]
  split
  · next written _ =>
    exact (since.step (.superclass since.isOpen (.inl rfl))).linkType w.file written pos _
  · split
    · exact since
    · exact since.step (.superclass since.isOpen (.inr rfl))

theorem Since.linkParents {id : SymbolId} (since : m.Since start (.symbol id) a) (w : Walk)
    (pos : Position) (qualified : String) (decl : Walk.TypeDecl) :
    m.Since start (.symbol id) (w.linkParents id pos qualified decl a) :=
  (since.linkSuperclass w pos qualified decl).linkInterfaces w pos 0 decl.interfaces

/-! ### The walk in a class -/

/-- What the simple name denotes in a scope, it denotes there after whatever is done within it. -/
theorem Since.back (since : m.Since start scope a) (keeps : a.table.KeepsSurroundings b.table)
    (after : m.Since start within b) : m.Since start scope b :=
  ⟨since.keep keeps after.forest after.simply, after.meets⟩

/-- What a node calls for, it calls for in a scope of its own or in the one around it. -/
theorem Since.calls {w : Walk} {mode : BlockMode} {outer inner : WalkScope} {node : Node}
    {force : Bool} {nodes : List (BlockMode × NodeIndex)} (since : m.Since start scope a)
    (inScope : outer.ref? = some scope) (calls : w.Calls mode outer node force a inner nodes b) :
    ∃ within, inner.ref? = some within ∧ m.Since start within b := by
  cases calls with
  | header =>
    exact ⟨scope, inScope, since.keep (.refl _) since.forest (since.simply.enterFile w _ _ _),
      since.meets.trans (.of_same rfl)⟩
  | method is inClass =>
    subst inClass
    obtain rfl := Option.some.inj inScope
    exact ⟨_, rfl, since.enterMethod w node.pos _⟩
  | fields is inClass =>
    subst inClass
    obtain rfl := Option.some.inj inScope
    exact ⟨_, rfl, since.declareFields w _ force⟩
  | locals is inBody =>
    subst inBody
    obtain rfl := Option.some.inj inScope
    exact ⟨_, rfl, since.declareLocals w _ .nowhere force⟩
  | block is mode inScope' | loop is inScope' =>
    obtain rfl := Option.some.inj (inScope.symm.trans inScope')
    exact ⟨_, rfl, since.inBlock⟩
  | initializer is inClass =>
    subst inClass
    obtain rfl := Option.some.inj inScope
    exact ⟨_, rfl, since.inBlock⟩
  | handler is inBody =>
    subst inBody
    obtain rfl := Option.some.inj inScope
    exact ⟨_, rfl, since.inBlock.enterException w _⟩
  | mention is =>
    rw [inScope]
    exact ⟨scope, rfl, since.linkType w.file _ node.pos .existence⟩
  | fileLoop is outside | anonymousAtFile is outside =>
    subst outside
    cases inScope
  | statements | innerInitializer | children | stray => exact ⟨scope, inScope, since⟩

theorem Since.qualifiedName (since : m.Since start scope a) (w : Walk) {outer : WalkScope}
    (inScope : outer.ref? = some scope) (simple : String) :
    m.Since start scope (w.qualifiedName outer simple a).2 := by
  cases outer with
  | file => cases inScope
  | classBody => exact since
  | body id =>
    obtain rfl := Option.some.inj inScope
    exact since.step (.number since.isOpen)

/-- A class that is begun in a scope lies in it. -/
theorem Since.opens (since : m.Since start scope a) {id : SymbolId} {qualified : String}
    {head : Symbol → Symbol} (begun : a.beginClass? qualified (some scope) head = some (id, b))
    (opens : Opens a id b) (forest : b.table.Forest) :
    m.Since start scope b ∧ m.Since start (.symbol id) b := by
  have around : m.Since start scope b :=
    ⟨since.keep (.opens opens) forest
      (since.simply.step (Context.beginClass_files begun) (.begins opens)),
      since.meets.trans (.begins opens)⟩
  exact ⟨around, around.inner opens.isOpen (Context.beginClass_outerOf begun)⟩

theorem Since.completes (since : m.Since start scope a) {id : SymbolId}
    (isOpen : a.table.IsOpen (.symbol id)) (forest : (a.defineComplete id).table.Forest) :
    m.Since start scope (a.defineComplete id) :=
  ⟨since.keep (SymbolTable.KeepsSurroundings.holdsAcross.defineComplete a id) forest
    (since.simply.step (Context.Silent.defineComplete isOpen).files (.completes a id)),
    since.meets.trans (.completes a id)⟩

/-- Nothing is linked where a node is looked at. -/
theorem Since.inspected (since : m.Since start scope a) (lifecycle : a.Lifecycle) {w : Walk}
    {remaining : Nat} {outer : WalkScope} {idx : NodeIndex} {node : Node}
    {admission : Option Walk.Admission} (is : w.inspect remaining outer idx node a = (admission, b)) :
    m.Since start scope b ∧ b.Lifecycle := by
  have still := lifecycle.deed (.inspect a w remaining outer idx node)
  obtain ⟨log, changed⟩ := w.inspect_changes a remaining outer idx node
  rw [is] at still changed
  obtain rfl : b = _ := changed
  exact ⟨since.same rfl rfl rfl, still⟩

/-- A class that has been begun in the scope is completed after its members. -/
theorem Since.closes (around : m.Since start scope a) (lifecycle : a.Lifecycle) {id : SymbolId}
    (isOpen : a.table.IsOpen (.symbol id)) (course : Course a b)
    (ended : m.Since start (.symbol id) b) :
    m.Since start scope (b.defineComplete id) ∧ (b.defineComplete id).Lifecycle := by
  have isOpen' := course.precedes.table.isOpen isOpen
  have ending := course.completes isOpen'
  have lifecycle' := lifecycle.course ending
  have completed := ended.completes isOpen' lifecycle'.owned.forest
  exact ⟨around.back ending.keepsSurroundings completed, lifecycle'⟩

/-- Wherever the walk goes from a scope in the class, it stays in the class: whatever type it meets
there, the simple name may denote the full one. -/
theorem Since.journey {w : Walk} {outer : WalkScope} {nodes : List (BlockMode × NodeIndex)}
    (since : m.Since start scope a) (inScope : outer.ref? = some scope)
    (lifecycle : a.Lifecycle) (journey : w.Journey outer nodes a b) : m.Since start scope b := by
  induction journey generalizing scope with
  | done => exact since
  | absent _ _ ih => exact ih since inScope lifecycle
  | @refused _ _ idx node _ a _ _ _ _ ih =>
    refine ih ?_ inScope (lifecycle.deed (.refuse a w idx node))
    rw [w.refuseDepth_eq]
    exact since.same rfl rfl rfl
  | skipped _ _ skips _ ih =>
    obtain ⟨inspected, still⟩ := since.inspected lifecycle skips
    exact ih inspected inScope still
  | entered isOpen _ admits calls nested _ inside after =>
    have isOpen' := Walk.Journeys.isOpen_inspected isOpen admits
    obtain ⟨inspected, still⟩ := since.inspected lifecycle admits
    have called := (calls.run isOpen').1
    obtain ⟨within, inScope', entered⟩ := inspected.calls inScope calls
    have ended := inside entered inScope' (still.run called)
    have course := (Course.of_run called).trans (.of_run nested.run)
    exact after (inspected.back course.keepsSurroundings ended) inScope (still.course course)
  | @duplicate _ _ idx node _ _ decl _ _ _ _ isOpen _ admits _ _ ih =>
    have isOpen' := Walk.Journeys.isOpen_inspected isOpen admits
    obtain ⟨inspected, still⟩ := since.inspected lifecycle admits
    have named := inspected.qualifiedName w inScope decl.name
    have numbered := still.run (w.qualifiedName_run isOpen' decl.name)
    exact ih (named.same rfl rfl rfl) inScope (numbered.deed (.prune _ w.file idx node.pos trivial))
  | @declared outer _ _ node _ _ decl _ _ _ b _ _ _ isOpen _ admits _ begun nested _ members after =>
    have isOpen' := Walk.Journeys.isOpen_inspected isOpen admits
    obtain ⟨inspected, still⟩ := since.inspected lifecycle admits
    have named := inspected.qualifiedName w inScope decl.name
    have opens := Walk.opens_declared isOpen' begun
    have begunLife := (still.run (w.qualifiedName_run isOpen' decl.name)).opens opens
    rw [inScope] at begun
    obtain ⟨around, inside⟩ := named.opens begun opens begunLife.owned.forest
    have linked := w.linkParents_run opens.isOpen node.pos (w.qualifiedName outer decl.name b).1 decl
    have ended := members (inside.linkParents w node.pos _ decl) rfl (begunLife.run linked)
    obtain ⟨closed, endLife⟩ := around.closes begunLife opens.isOpen
      ((Course.of_run linked).trans (.of_run nested.run)) ended
    exact after closed inScope endLife
  | @anonymousDuplicate _ _ _ idx node _ _ _ _ _ _ _ _ _ _ _ _ _ admits _ inScope' first _ before
      after =>
    obtain rfl := Option.some.inj (inScope.symm.trans inScope')
    obtain ⟨inspected, still⟩ := since.inspected lifecycle admits
    have built := before inspected inScope still
    have counted := (still.run first.run).deed (.enter (.number built.isOpen))
    exact after ((built.step (.number built.isOpen)).same rfl rfl rfl) inScope
      (counted.deed (.prune _ w.file idx node.pos trivial))
  | @anonymous _ _ _ _ node _ _ _ type _ _ id _ _ _ _ _ _ _ _ _ admits _ inScope' first begun nested
      _ before members after =>
    obtain rfl := Option.some.inj (inScope.symm.trans inScope')
    obtain ⟨inspected, still⟩ := since.inspected lifecycle admits
    have built := before inspected inScope still
    have counted := built.step (.number built.isOpen)
    have opens := Walk.anonymous_opens built.isOpen begun
    have begunLife := ((still.run first.run).deed (.enter (.number built.isOpen))).opens opens
    obtain ⟨around, inside⟩ := counted.opens begun opens begunLife.owned.forest
    have linked := w.linkType_run around.isOpen type node.pos (.anonymousBase id) opens.isOpen
    have aroundLinked := around.linkType w.file type node.pos (.anonymousBase id)
    have insideLinked := inside.back (Course.of_run linked).keepsSurroundings aroundLinked
    have ended := members insideLinked rfl (begunLife.run linked)
    obtain ⟨closed, endLife⟩ := around.closes begunLife opens.isOpen
      ((Course.of_run linked).trans (.of_run nested.run)) ended
    exact after closed inScope endLife

end Meaning

end LevelCheck
