import LevelCheck.Proofs.Slots
set_option autoImplicit false

/-! # Types are written, and then linked

A declaration writes types into new slots of the table, and then links them in order: `Walk.WritesTypes`
says that the types are written by nodes, in open scopes and for open places, and `Walk.linkEach` links
them. Whatever a walk does on its own, the entering of a class and its completion apart, it does by
errands: types that are written go to the end of a list; a type is taken from the front of the list and
linked; a problem is recorded. The list is empty when the walk goes on to the next node, so every type
that is written is linked once, at the position of the node that writes it. -/

namespace LevelCheck

/-- The problem is with a name that is declared. -/
def Problem.IsNaming : Problem → Prop
  | .duplicateVariable | .duplicateClass _ | .duplicateParameter | .duplicateField _
  | .constructorName .. => True
  | _ => False

theorem Problem.IsNaming.isOwn {p : Problem} (isNaming : p.IsNaming) : p.IsOwn := by
  cases p <;> trivial

/-- The type that a node writes for a place: the one at the index of the place, if the node writes
several. -/
def NodeData.typeAt? (data : NodeData) : Link → Option String
  | .superclass _ => data.typeDecl?.bind (·.superclass)
  | .interface _ index => data.typeDecl?.bind (·.interfaces[index]?)
  | .variableType _ =>
    match data with
    | .variableDeclarator type .. => some type
    | .formalParameter _ type _ => some type
    | _ => none
  | .returnType _ => data.methodDecl?.bind (·.returnType)
  | .thrownType _ index => data.methodDecl?.bind (·.throws[index]?)
  | .existence => data.mentioned?
  | .anonymousBase _ =>
    match data with
    | .anonymousClass _ type .. => some type
    | _ => none

namespace Arena

/-- Some node is at the position. -/
def HasNodeAt (arena : Arena) (pos : Position) : Prop :=
  ∃ idx node, arena.get? idx = some node ∧ node.pos = pos

/-- Some node at the position writes the type for the place. -/
def Writes (arena : Arena) (link : Link) (written : String) (pos : Position) : Prop :=
  ∃ idx node, arena.get? idx = some node ∧ node.pos = pos ∧ node.data.typeAt? link = some written

variable {arena : Arena}

theorem Writes.hasNodeAt {link : Link} {written : String} {pos : Position}
    (said : arena.Writes link written pos) : arena.HasNodeAt pos := by
  obtain ⟨idx, node, found, isAt, -⟩ := said
  exact ⟨idx, node, found, isAt⟩

theorem hasNodeAt_of_get {idx : NodeIndex} {node : Node} (found : arena.get? idx = some node) :
    arena.HasNodeAt node.pos := ⟨idx, node, found, rfl⟩

end Arena

namespace Walk

/-- An errand of a walk, with the types that are left to be linked before and after it. What is written
is written for places of a kind. -/
inductive Errand (w : Walk) (places : Link → Prop) :
    List Mention → Context → List Mention → Context → Prop where
  | write {todo news : List Mention} {a : Context} {t : SymbolTable} (step : TableStep a.table t)
      (writes : a.table.Writes news t) (placed : ∀ m ∈ news, places m.link) :
      Errand w places todo a (todo ++ news) { a with table := t }
  /-- A class that writes no superclass extends the root class. -/
  | root {todo : List Mention} {a : Context} {id : SymbolId} (isOpen : a.table.IsOpen (.symbol id))
      (bare : (a.table.symbol id).superclass = none) (placed : places (.superclass id)) :
      Errand w places todo a todo (a.modifyTable fun t =>
        t.modifySymbol id fun s => { s with superclass := some t.objectRef })
  | link {todo : List Mention} {m : Mention} {a : Context} (isOpen : a.table.IsOpen m.scope)
      (openPlace : a.table.OpenPlace m.link) (placed : places m.link)
      (said : w.arena.Writes m.link m.written m.pos) :
      Errand w places (m :: todo) a todo
        (a.linkType w.file (some m.scope) m.written m.pos m.link)
  /-- A class is only mentioned. -/
  | mention {todo : List Mention} {scope : Option ScopeRef} {written : String} {pos : Position}
      {a : Context} (isOpen : ∀ s ∈ scope, a.table.IsOpen s)
      (said : w.arena.Writes .existence written pos) :
      Errand w places todo a todo (a.linkType w.file scope written pos .existence)
  | report {todo : List Mention} {pos : Position} {p : Problem} {a : Context} (isNaming : p.IsNaming)
      (isAt : w.arena.HasNodeAt pos) : Errand w places todo a todo (a.report w.file pos p)
  | header {todo : List Mention} {idx : NodeIndex} {node : Node} {package : Option String}
      {imports : List ImportDecl} {types : List NodeIndex} {a : Context}
      (found : w.arena.get? idx = some node) (is : node.data = .sourceFile package imports types) :
      Errand w places todo a todo (w.enterFile package imports types a)

/-- Errands in a row. -/
inductive Errands (w : Walk) (places : Link → Prop) :
    List Mention → Context → List Mention → Context → Prop where
  | rest (todo : List Mention) (a : Context) : Errands w places todo a todo a
  | next {todo todo' todo'' : List Mention} {a b c : Context} (errand : w.Errand places todo a todo' b)
      (after : Errands w places todo' b todo'' c) : Errands w places todo a todo'' c

variable {w : Walk} {places : Link → Prop} {todo todo' todo'' : List Mention} {a b c : Context}

/-- With nothing left to be done, what is written is all that is to be done. -/
theorem Errand.first {news : List Mention} {t : SymbolTable} (step : TableStep a.table t)
    (writes : a.table.Writes news t) (placed : ∀ m ∈ news, places m.link) :
    w.Errand places [] a news { a with table := t } := .write step writes placed

theorem Errand.deed (errand : w.Errand places todo a todo' b) : Deed a b := by
  cases errand with
  | write step => exact .enter step
  | root isOpen => exact .enter (.superclass isOpen (.inr rfl))
  | @link _ m _ isOpen openPlace =>
    refine .link w.file (fun s isScope => ?_) m.written m.pos openPlace
    obtain rfl := Option.mem_some.1 isScope
    exact isOpen
  | mention isOpen => exact .link w.file isOpen _ _ trivial
  | report isNaming => exact .report a w.file _ isNaming.isOwn
  | header => exact .header a w.file (.header _ _ _)

namespace Errands

theorem single (errand : w.Errand places todo a todo' b) : w.Errands places todo a todo' b :=
  .next errand (.rest todo' b)

theorem trans (first : w.Errands places todo a todo' b) (second : w.Errands places todo' b todo'' c) :
    w.Errands places todo a todo'' c := by
  induction first with
  | rest => exact second
  | next errand _ ih => exact .next errand (ih second)

theorem course (errands : w.Errands places todo a todo' b) : Course a b := by
  induction errands with
  | rest => exact .rest _
  | next errand _ ih => exact (Course.deed (.rest _) errand.deed).trans ih

theorem precedes (errands : w.Errands places todo a todo' b) : a.Precedes b := errands.course.precedes

/-- What every errand keeps, as long as something else holds that a walk keeps, errands in a row
keep. -/
theorem keeps (Inv : Context → Prop) {P : List Mention → Context → Prop}
    (steady : ∀ {a b : Context}, Course a b → Inv a → Inv b)
    (step : ∀ {todo todo' : List Mention} {a b : Context}, Inv a →
      w.Errand places todo a todo' b → P todo a → P todo' b)
    (errands : w.Errands places todo a todo' b) (inv : Inv a) (holds : P todo a) : P todo' b := by
  induction errands with
  | rest => exact holds
  | next errand _ ih =>
    exact ih (steady (.deed (.rest _) errand.deed) inv) (step inv errand holds)

end Errands

/-! ## Records and links -/

section

variable (w) {cx : Context}

theorem reportAll_errands {pos : Position} (isAt : w.arena.HasNodeAt pos) {problems : List Problem}
    (areNaming : ∀ p ∈ problems, p.IsNaming) (cx : Context) :
    w.Errands places todo cx todo (w.reportAll pos problems cx) := by
  induction problems generalizing cx with
  | nil => exact .rest todo cx
  | cons p rest ih =>
    have first : w.Errand places todo cx todo (cx.report w.file pos p) :=
      .report (areNaming p List.mem_cons_self) isAt
    exact .next first (ih (fun p isIn => areNaming p (List.mem_cons_of_mem _ isIn)) _)

/-- A node of the arena writes the variable. -/
def Writes (d : Declarator) : Prop := ∀ id, w.arena.Writes (.variableType id) d.type d.pos

/-- A name that is declared twice is declared by one of the declarators. -/
theorem reportDuplicates_errands {declarators : List Declarator}
    (said : ∀ d ∈ declarators, w.Writes d) (pos : Position) {problem : String → Problem}
    (isNaming : ∀ name, (problem name).IsNaming) {duplicates : List String}
    (declared : ∀ name ∈ duplicates, name ∈ declarators.map (·.name)) (cx : Context) :
    w.Errands places todo cx todo (w.reportDuplicates declarators pos problem duplicates cx) := by
  induction duplicates generalizing cx with
  | nil => exact .rest todo cx
  | cons name rest ih =>
    have isAt : w.arena.HasNodeAt ((lastPosition? declarators name).getD pos) := by
      obtain ⟨d, isIn, named⟩ := List.mem_map.1 (declared name List.mem_cons_self)
      rw [lastPosition?]
      cases found : declarators.reverse.find? fun d => d.name == name with
      | none =>
        have none := List.find?_eq_none.1 found d (List.mem_reverse.2 isIn)
        simp [named] at none
      | some last =>
        have isLast := List.mem_reverse.1 (List.mem_of_find?_eq_some found)
        exact (said last isLast ⟨0⟩).hasNodeAt
    have first : w.Errand places todo cx todo _ := .report (isNaming name) isAt
    exact .next first (ih (fun n isIn => declared n (List.mem_cons_of_mem _ isIn)) _)

/-- Nothing but records is made of names that are declared twice. -/
theorem reportDuplicates_changes (declarators : List Declarator) (pos : Position)
    (problem : String → Problem) (duplicates : List String) (cx : Context) :
    ∃ log, w.reportDuplicates declarators pos problem duplicates cx = { cx with log } := by
  induction duplicates generalizing cx with
  | nil => exact ⟨cx.log, rfl⟩
  | cons name rest ih => exact ih _

/-- Types that have been written are linked, in order. -/
def linkEach (types : List Mention) (cx : Context) : Context :=
  types.foldl (fun cx m => cx.linkType w.file (some m.scope) m.written m.pos m.link) cx

theorem linkEach_cons (m : Mention) (rest : List Mention) (cx : Context) : w.linkEach (m :: rest) cx
    = w.linkEach rest (cx.linkType w.file (some m.scope) m.written m.pos m.link) := List.foldl_cons ..

theorem linkEach_singleton (m : Mention) (cx : Context) :
    w.linkEach [m] cx = cx.linkType w.file (some m.scope) m.written m.pos m.link := by
  rw [linkEach_cons, linkEach, List.foldl_nil]

theorem linkEach_append (types more : List Mention) (cx : Context) :
    w.linkEach (types ++ more) cx = w.linkEach more (w.linkEach types cx) := List.foldl_append

theorem linkVariables_eq_linkEach (scope : ScopeRef) (declarators : List Declarator)
    (ids : List VariableId) (cx : Context) : w.linkVariables scope declarators ids cx
      = w.linkEach (Mention.declared scope declarators ids) cx := by
  rw [linkVariables, linkEach, Mention.declared, List.foldl_map]

theorem linkThrown_eq_linkEach (id : MethodId) (pos : Position) (index : Nat) (throws : List String)
    (cx : Context) :
    w.linkThrown id pos index throws cx = w.linkEach (Mention.thrown id pos index throws) cx := by
  induction throws generalizing index cx with
  | nil => rfl
  | cons written rest ih =>
    rw [linkThrown, ih, Mention.thrown, Mention.thrown, List.zipIdx_cons, List.map_cons, linkEach_cons]

/-- The types of a method are linked in the order in which its signature lists them. -/
theorem linkSignature_eq_linkEach (id : MethodId) (pos : Position) (decl : MethodDecl)
    (params : List Declarator) (ids : List VariableId) (cx : Context) :
    w.linkSignature id pos decl params ids cx
      = w.linkEach (Mention.signature id pos decl ++ Mention.declared (.method id) params ids) cx := by
  rw [linkSignature, Mention.signature, linkEach_append, linkEach_append, ← linkVariables_eq_linkEach,
    ← linkThrown_eq_linkEach]
  cases decl.returnType with
  | none => rfl
  | some written => rw [Option.map_some, Option.toList_some, linkEach_singleton]

/-- The type is due to be linked: its scope and its place are open, and a node writes it. -/
structure IsDue (places : Link → Prop) (t : SymbolTable) (m : Mention) : Prop where
  scopeOpen : t.IsOpen m.scope
  openPlace : t.OpenPlace m.link
  placed : places m.link
  said : w.arena.Writes m.link m.written m.pos

variable {w} in
theorem IsDue.later {t u : SymbolTable} {m : Mention} (due : w.IsDue places t m) (grows : t.Grows u) :
    w.IsDue places u m :=
  ⟨grows.isOpen due.scopeOpen, grows.openPlace due.openPlace, due.placed, due.said⟩

theorem linkEach_errands {types : List Mention} (due : ∀ m ∈ types, w.IsDue places cx.table m)
    (more : List Mention) : w.Errands places (types ++ more) cx more (w.linkEach types cx) := by
  induction types generalizing cx with
  | nil => exact .rest more cx
  | cons m rest ih =>
    obtain ⟨scopeOpen, openPlace, placed, said⟩ := due m List.mem_cons_self
    have first : w.Errand places (m :: rest ++ more) cx (rest ++ more)
        (cx.linkType w.file (some m.scope) m.written m.pos m.link) :=
      .link scopeOpen openPlace placed said
    have grows := first.deed.steps.precedes.table
    have later : ∀ m' ∈ rest, w.IsDue places
        (cx.linkType w.file (some m.scope) m.written m.pos m.link).table m' :=
      fun m' isIn => (due m' (List.mem_cons_of_mem _ isIn)).later grows
    rw [linkEach_cons]
    exact .next first (ih later)

theorem linkEach_course {types : List Mention} (due : ∀ m ∈ types, w.IsDue places cx.table m) :
    Course cx (w.linkEach types cx) := (w.linkEach_errands due []).course

/-- Types are written between the states, and are due to be linked. No other slot changes, and nothing
happens to references. -/
structure WritesTypes (places : Link → Prop) (a : Context) (types : List Mention × Context) : Prop where
  errands : w.Errands places [] a types.1 types.2
  due : ∀ m ∈ types.1, w.IsDue places types.2.table m
  others : ∀ link, link ∉ types.1.map (·.link) → types.2.table.slot? link = a.table.slot? link
  history : types.2.history = a.history

variable {w} in
/-- With that nothing is left to be linked. -/
theorem WritesTypes.linked {types : List Mention × Context} (writes : w.WritesTypes places a types) :
    w.Errands places [] a [] (w.linkEach types.1 types.2) := by
  have linked := w.linkEach_errands writes.due []
  rw [List.append_nil] at linked
  exact writes.errands.trans linked

/-! ## Declarations -/

/-- Declarators are entered in a scope: their variables have slots for the types, and the names that
collide are among theirs. -/
structure Enters (t : SymbolTable) (scope : ScopeRef) (declarators : List Declarator)
    (entry : Declared × SymbolTable) : Prop extends t.Enters entry where
  writes : t.Writes (Mention.declared scope declarators entry.1.ids) entry.2
  duplicates : ∀ name ∈ entry.1.duplicates, name ∈ declarators.map (·.name)

section

variable (t : SymbolTable) {declarators : List Declarator}

theorem declare_duplicates (seen : List String) {vars : List Variable}
    (named : vars.map (·.name) = declarators.map (·.name)) :
    ∀ name ∈ (t.declare seen vars).1.duplicates, name ∈ declarators.map (·.name) := by
  rw [SymbolTable.declare_fst, named]
  exact fun name isIn => (SymbolTable.mem_collisions.1 isIn).2.1

theorem writtenVars_slots (declarators : List Declarator) (scope : ScopeRef) (force : Bool) :
    (writtenVars declarators scope force).map Variable.slot
      = declarators.map fun d => { type := .unresolved d.type, scope } := by
  rw [writtenVars, List.map_map]
  refine List.map_congr_left fun d _ => ?_
  cases force <;> rfl

theorem writtenVars_names (declarators : List Declarator) (scope : ScopeRef) (force : Bool) :
    (writtenVars declarators scope force).map (·.name) = declarators.map (·.name) := by
  rw [writtenVars, List.map_map]
  refine List.map_congr_left fun d _ => ?_
  cases force <;> rfl

theorem enters_fields {id : SymbolId} (isOpen : t.IsOpen (.symbol id)) (force : Bool) :
    Enters t (.symbol id) declarators (t.addFields id (writtenVars declarators (.symbol id) force)) where
  toEnters := SymbolTable.addFields_enters isOpen (writtenVars_areNew declarators _ force)
  writes := .addFields t id (writtenVars_slots declarators _ force)
  duplicates := declare_duplicates t _ (writtenVars_names declarators _ force)

theorem enters_locals {body : BodyId} (isOpen : t.IsOpen body.scope) (force : Bool)
    (policy : DuplicateScope) : Enters t body.scope declarators
      (t.addVars body (writtenVars declarators body.scope force) policy) where
  toEnters := SymbolTable.addVars_enters isOpen (writtenVars_areNew declarators _ force) policy
  writes := .addVars t body (writtenVars_slots declarators _ force) policy
  duplicates := by
    have declared := declare_duplicates t (t.namesInBody body policy)
      (writtenVars_names declarators body.scope force)
    cases body <;> exact declared

theorem enters_params {id : MethodId} (isOpen : t.IsOpen (.method id))
    (only : (t.method id).vars = (t.method id).params) : Enters t (.method id) declarators
      (t.addParams id (declarators.map (·.variable (.method id)))) where
  toEnters := SymbolTable.addParams_enters isOpen only (params_areNew declarators id)
  writes := .addParams t id (writtenVars_slots declarators (.method id) false)
  duplicates := declare_duplicates t _ (writtenVars_names declarators (.method id) false)

end

/-- Variables have been entered in a scope; the names that collide are reported, and the types are to be
linked. -/
def writeVariables (scope : ScopeRef) (written : List Declarator) (pos : Position)
    (problem : String → Problem) (entry : Declared × SymbolTable) (cx : Context) :
    List Mention × Context :=
  (Mention.declared scope written entry.1.ids,
    w.reportDuplicates written pos problem entry.1.duplicates { cx with table := entry.2 })

theorem declareVariables_eq_linkEach (scope : ScopeRef) (written : List Declarator) (pos : Position)
    (problem : String → Problem) (entry : Declared × SymbolTable) (cx : Context) :
    w.declareVariables scope written pos problem entry cx
      = w.linkEach (w.writeVariables scope written pos problem entry cx).1
          (w.writeVariables scope written pos problem entry cx).2 :=
  w.linkVariables_eq_linkEach ..

/-- Variables are entered, after other types that are to be linked. -/
theorem writeVariables_errands (todo : List Mention) {scope : ScopeRef} {declarators : List Declarator}
    {entry : Declared × SymbolTable} (enters : Enters cx.table scope declarators entry)
    (said : ∀ d ∈ declarators, w.Writes d) (pos : Position) {problem : String → Problem}
    (isNaming : ∀ name, (problem name).IsNaming) :
    w.Errands Link.IsAside todo cx (todo ++ Mention.declared scope declarators entry.1.ids)
      (w.writeVariables scope declarators pos problem entry cx).2 := by
  have entered : w.Errand Link.IsAside todo cx (todo ++ Mention.declared scope declarators entry.1.ids)
      { cx with table := entry.2 } := by
    refine .write enters.step enters.writes fun m isIn => ?_
    obtain ⟨e, -, rfl⟩ := List.mem_map.1 isIn
    trivial
  exact .next entered (w.reportDuplicates_errands said pos isNaming enters.duplicates _)

/-- The types of variables are due once these have been entered. -/
theorem writeVariables_due {scope : ScopeRef} (isOpen : cx.table.IsOpen scope)
    {declarators : List Declarator} {entry : Declared × SymbolTable}
    (enters : Enters cx.table scope declarators entry) (said : ∀ d ∈ declarators, w.Writes d)
    (pos : Position) (problem : String → Problem) :
    ∀ m ∈ Mention.declared scope declarators entry.1.ids,
      w.IsDue Link.IsAside (w.writeVariables scope declarators pos problem entry cx).2.table m := by
  intro m isIn
  have table : (w.writeVariables scope declarators pos problem entry cx).2.table = entry.2 :=
    w.reportDuplicates_table ..
  obtain ⟨⟨d, id⟩, isPair, rfl⟩ := List.mem_map.1 isIn
  obtain ⟨isDeclarator, isId⟩ := List.of_mem_zip isPair
  rw [table]
  exact ⟨enters.step.grows.isOpen isOpen, enters.known id isId, trivial, said d isDeclarator id⟩

theorem writeVariables_writes {scope : ScopeRef} (isOpen : cx.table.IsOpen scope)
    {declarators : List Declarator} {entry : Declared × SymbolTable}
    (enters : Enters cx.table scope declarators entry) (said : ∀ d ∈ declarators, w.Writes d)
    (pos : Position) {problem : String → Problem} (isNaming : ∀ name, (problem name).IsNaming) :
    w.WritesTypes Link.IsAside cx (w.writeVariables scope declarators pos problem entry cx) := by
  obtain ⟨log, changes⟩ := w.reportDuplicates_changes declarators pos problem entry.1.duplicates
    { cx with table := entry.2 }
  refine ⟨w.writeVariables_errands [] enters said pos isNaming,
    w.writeVariables_due isOpen enters said pos problem, fun link other => ?_, ?_⟩
  all_goals simp only [writeVariables, changes]
  exact enters.writes.others link other

/-- Fields have been entered. -/
def writeFields (id : SymbolId) (written : List Declarator) (force : Bool) (cx : Context) :
    List Mention × Context :=
  w.writeVariables (.symbol id) written .nowhere .duplicateField
    (cx.table.addFields id (writtenVars written (.symbol id) force)) cx

/-- Local variables have been entered. -/
def writeLocals (body : BodyId) (written : List Declarator) (pos : Position) (force : Bool)
    (cx : Context) : List Mention × Context :=
  w.writeVariables body.scope written pos (fun _ => .duplicateVariable)
    (cx.table.addVars body (writtenVars written body.scope force) cx.options.duplicateScope) cx

theorem declareFields_eq_linkEach (id : SymbolId) (written : List Declarator) (force : Bool)
    (cx : Context) : w.declareFields id written force cx
      = w.linkEach (w.writeFields id written force cx).1 (w.writeFields id written force cx).2 :=
  w.declareVariables_eq_linkEach ..

theorem declareLocals_eq_linkEach (body : BodyId) (written : List Declarator) (pos : Position)
    (force : Bool) (cx : Context) : w.declareLocals body written pos force cx
      = w.linkEach (w.writeLocals body written pos force cx).1
          (w.writeLocals body written pos force cx).2 := w.declareVariables_eq_linkEach ..

/-- A method has been entered with its parameters, and the types of its signature and those of its
parameters are to be linked. -/
def writeMethod (owner : SymbolId) (pos : Position) (decl : MethodDecl) (cx : Context) :
    List Mention × Context :=
  let added := cx.table.addMethod (decl.record owner)
  let named := w.reportAll pos (constructorProblem? (added.2.symbol owner) decl).toList
    { cx with table := added.2 }
  let params := decl.params.filterMap w.param?
  let entered := w.writeVariables (.method added.1) params pos (fun _ => .duplicateParameter)
    (named.table.addParams added.1 (params.map (·.variable (.method added.1)))) named
  (Mention.signature added.1 pos decl ++ entered.1, entered.2)

theorem enterMethod_eq_linkEach (owner : SymbolId) (pos : Position) (decl : MethodDecl)
    (cx : Context) : (w.enterMethod owner pos decl cx).2
      = w.linkEach (w.writeMethod owner pos decl cx).1 (w.writeMethod owner pos decl cx).2 :=
  w.linkSignature_eq_linkEach ..

theorem constructorProblem_isNaming (owner : Symbol) (decl : MethodDecl) :
    ∀ p ∈ (constructorProblem? owner decl).toList, p.IsNaming := by
  intro p isIn
  unfold constructorProblem? at isIn
  split at isIn
  · obtain rfl := List.mem_singleton.1 isIn
    trivial
  · cases isIn

/-- The parameters that are read are written by nodes. -/
theorem param_writes {idx : NodeIndex} {d : Declarator} (isParam : w.param? idx = some d) :
    w.Writes d := by
  intro id
  rw [param?] at isParam
  cases found : w.arena.get? idx with
  | none => simp [found] at isParam
  | some node =>
    simp only [found, Option.bind_eq_bind, Option.bind_some] at isParam
    split at isParam
    · next is =>
      cases isParam
      exact ⟨idx, node, found, rfl, by rw [is]; rfl⟩
    · cases isParam

theorem declarator_writes {flags : Nat} {idx : NodeIndex} {entry : Declarator × Option NodeIndex}
    (isDeclarator : w.declarator? flags idx = some entry) : w.Writes entry.1 := by
  intro id
  rw [declarator?] at isDeclarator
  cases found : w.arena.get? idx with
  | none => simp [found] at isDeclarator
  | some node =>
    simp only [found, Option.bind_eq_bind, Option.bind_some] at isDeclarator
    split at isDeclarator
    · next is =>
      cases isDeclarator
      exact ⟨idx, node, found, rfl, by rw [is]; rfl⟩
    · cases isDeclarator

theorem declarators_write (modifiers : List Modifier) (nodes : List NodeIndex) :
    ∀ d ∈ (w.declarators modifiers nodes).map (·.1), w.Writes d := by
  intro d isIn
  obtain ⟨entry, isEntry, rfl⟩ := List.mem_map.1 isIn
  obtain ⟨idx, -, is⟩ := List.mem_filterMap.1 isEntry
  exact w.declarator_writes is

theorem writeFields_writes {id : SymbolId} (isOpen : cx.table.IsOpen (.symbol id))
    {declarators : List Declarator} (said : ∀ d ∈ declarators, w.Writes d) (force : Bool) :
    w.WritesTypes Link.IsAside cx (w.writeFields id declarators force cx) :=
  w.writeVariables_writes isOpen (enters_fields cx.table isOpen force) said .nowhere
    fun name => show (Problem.duplicateField name).IsNaming from trivial

theorem writeLocals_writes (body : BodyId) (isOpen : cx.table.IsOpen body.scope)
    {declarators : List Declarator} (said : ∀ d ∈ declarators, w.Writes d) (pos : Position)
    (force : Bool) :
    w.WritesTypes Link.IsAside cx (w.writeLocals body declarators pos force cx) :=
  w.writeVariables_writes isOpen (enters_locals cx.table isOpen force _) said pos
    fun _ => show Problem.duplicateVariable.IsNaming from trivial

/-- The types of a signature are due once the method has been entered. -/
theorem signature_due {t : SymbolTable} {id : MethodId} (isOpen : t.IsOpen (.method id))
    {idx : NodeIndex} {node : Node} (found : w.arena.get? idx = some node) {decl : MethodDecl}
    (is : node.data.methodDecl? = some decl) :
    ∀ m ∈ Mention.signature id node.pos decl, w.IsDue Link.IsAside t m := by
  intro m isIn
  obtain ⟨link, scope, written, pos⟩ := m
  obtain ⟨inMethod, isAt, ⟨isReturn, isWritten⟩ | ⟨i, isThrown, isWritten⟩⟩ :=
    Mention.mem_signature.1 isIn
  · simp only at inMethod isAt isReturn isWritten
    subst inMethod isAt isReturn
    refine ⟨isOpen, isOpen, trivial, idx, node, found, rfl, ?_⟩
    rw [NodeData.typeAt?, is, Option.bind_some, isWritten]
  · simp only at inMethod isAt isThrown isWritten
    subst inMethod isAt isThrown
    refine ⟨isOpen, isOpen, trivial, idx, node, found, rfl, ?_⟩
    rw [NodeData.typeAt?, is, Option.bind_some, isWritten]

theorem writeMethod_writes {owner : SymbolId} (isOpen : cx.table.IsOpen (.symbol owner))
    {idx : NodeIndex} {node : Node} (found : w.arena.get? idx = some node) {decl : MethodDecl}
    (is : node.data.methodDecl? = some decl) :
    w.WritesTypes Link.IsAside cx (w.writeMethod owner node.pos decl cx) := by
  have isNew := addMethod_isNew cx.table (decl.record owner)
  have entered : w.Errand Link.IsAside [] cx
      (Mention.signature (cx.table.addMethod (decl.record owner)).1 node.pos decl)
      { cx with table := (cx.table.addMethod (decl.record owner)).2 } :=
    .first (.method isOpen decl.name (Modifier.flags decl.modifiers) decl.typeParams decl.returnType
      decl.throws decl.isConstructor) (.addMethod cx.table owner node.pos decl)
      fun m isIn => (w.signature_due isNew.1 found is m isIn).placed
  have areSaid : ∀ d ∈ decl.params.filterMap w.param?, w.Writes d := by
    intro d isIn
    obtain ⟨param, -, isParam⟩ := List.mem_filterMap.1 isIn
    exact w.param_writes isParam
  have added := SymbolTable.Writes.addMethod cx.table owner node.pos decl
  rw [writeMethod]
  generalize cx.table.addMethod (decl.record owner) = addition at *
  obtain ⟨id, t⟩ := addition
  simp only at isNew entered added ⊢
  -- the name of a constructor is checked, which leaves the table alone
  have named : w.Errands Link.IsAside (Mention.signature id node.pos decl) { cx with table := t } _ _ :=
    w.reportAll_errands (Arena.hasNodeAt_of_get found) (constructorProblem_isNaming (t.symbol owner) decl)
      { cx with table := t }
  have reported := w.reportAll_eq { cx with table := t } node.pos
    (constructorProblem? (t.symbol owner) decl).toList
  generalize w.reportAll node.pos _ _ = a at *
  have sameTable : a.table = t := by rw [reported]
  have sameHistory : a.history = cx.history := by rw [reported]
  have inside : a.table.IsOpen (.method id) := sameTable ▸ isNew.1
  have only : (a.table.method id).vars = (a.table.method id).params := by
    rw [sameTable, isNew.2]
    rfl
  have enters : Enters a.table (.method id) (decl.params.filterMap w.param?) _ :=
    enters_params a.table inside only
  have written := w.writeVariables_errands (Mention.signature id node.pos decl) enters areSaid node.pos
    fun _ => show Problem.duplicateParameter.IsNaming from trivial
  obtain ⟨-, due, others, history⟩ := w.writeVariables_writes inside enters areSaid node.pos
    fun _ => show Problem.duplicateParameter.IsNaming from trivial
  refine ⟨.next entered (named.trans written), fun m isIn => ?_, fun link other => ?_, ?_⟩
  · rcases List.mem_append.1 isIn with inSignature | isParam
    · exact w.signature_due (written.precedes.table.isOpen inside) found is m inSignature
    · exact due m isParam
  · rw [List.map_append, List.mem_append, not_or] at other
    rw [others link other.2, sameTable]
    exact added.others link other.1
  · exact history.trans sameHistory

theorem inBlock_errands {ref : ScopeRef} (isOpen : cx.table.IsOpen ref) :
    w.Errands places [] cx [] (inBlock ref cx) :=
  .single (.first (.block isOpen) (.of_same (.addBlock cx.table ref)) nofun)

end

/-- An admitted node enters types in the table besides those that a class extends; they are linked from
the state on. -/
inductive EntersTypes (w : Walk) (scope : WalkScope) (node : Node) (force : Bool) (a : Context) :
    List Mention × Context → Prop where
  | method {decl : MethodDecl} {owner : SymbolId} (is : node.data.methodDecl? = some decl)
      (inClass : scope = .classBody owner) :
      EntersTypes w scope node force a (w.writeMethod owner node.pos decl a)
  | fields {modifiers : List Modifier} {nodes : List NodeIndex} {id : SymbolId}
      (is : node.data = .variableDeclaration modifiers nodes) (inClass : scope = .classBody id) :
      EntersTypes w scope node force a
        (w.writeFields id ((w.declarators modifiers nodes).map (·.1)) force a)
  | locals {modifiers : List Modifier} {nodes : List NodeIndex} {body : BodyId}
      (is : node.data = .variableDeclaration modifiers nodes) (inBody : scope = .body body) :
      EntersTypes w scope node force a
        (w.writeLocals body ((w.declarators modifiers nodes).map (·.1)) .nowhere force a)
  | exception {exception handler : NodeIndex} {outer : BodyId} {d : Declarator}
      (is : node.data = .catchBlock exception handler) (inBody : scope = .body outer)
      (isParam : w.param? exception = some d) :
      EntersTypes w scope node force a (w.writeLocals (.block (a.table.addBlock outer.scope).1) [d] d.pos
        false (inBlock outer.scope a))

section

variable {mode : BlockMode} {scope : WalkScope} {idx : NodeIndex} {node : Node} {force : Bool}

theorem EntersTypes.writes (isOpen : scope.IsOpenIn a.table) (found : w.arena.get? idx = some node)
    {types : List Mention × Context} (enters : w.EntersTypes scope node force a types) :
    w.WritesTypes Link.IsAside a types := by
  cases enters with
  | method is inClass =>
    subst inClass
    exact w.writeMethod_writes (isOpen _ rfl) found is
  | fields is inClass =>
    subst inClass
    exact w.writeFields_writes (isOpen _ rfl) (w.declarators_write _ _) force
  | @locals _ _ body is inBody =>
    subst inBody
    exact w.writeLocals_writes body (isOpen _ rfl) (w.declarators_write _ _) .nowhere force
  | @exception _ _ outer d is inBody isParam =>
    subst inBody
    -- the block of the handler is opened first
    have same := SymbolTable.SameSlots.addBlock a.table outer.scope
    have writes : w.WritesTypes Link.IsAside (inBlock outer.scope a) _ := w.writeLocals_writes (.block _)
      (addBlock_isOpen a.table outer.scope) (List.forall_mem_singleton.2 (w.param_writes isParam)) d.pos
      false
    obtain ⟨errands, due, others, history⟩ := writes
    exact ⟨(w.inBlock_errands (isOpen _ rfl)).trans errands, due,
      fun link other => (others link other).trans (same.slot? link), history⟩

/-- The types that an admitted node enters are linked when the walk goes on. -/
theorem EntersTypes.calls {types : List Mention × Context}
    (enters : w.EntersTypes scope node force a types) (mode : BlockMode) :
    ∃ inner nodes, w.Calls mode scope node force a inner nodes (w.linkEach types.1 types.2) := by
  cases enters with
  | method is inClass =>
    rw [← enterMethod_eq_linkEach]
    exact ⟨_, _, .method is inClass⟩
  | fields is inClass =>
    rw [← declareFields_eq_linkEach]
    exact ⟨_, _, .fields is inClass⟩
  | locals is inBody =>
    rw [← declareLocals_eq_linkEach]
    exact ⟨_, _, .locals is inBody⟩
  | exception is inBody isParam =>
    have calls : w.Calls mode scope node force a _ _ _ := .handler is inBody
    rw [enterException_eq, isParam] at calls
    rw [← declareLocals_eq_linkEach]
    exact ⟨_, _, calls⟩

/-- What a node calls for is that types are entered and linked, that a class is mentioned, or errands
that have nothing to do with types. -/
theorem Calls.links {inner : WalkScope} {nodes : List (BlockMode × NodeIndex)}
    (isOpen : scope.IsOpenIn a.table) (found : w.arena.get? idx = some node)
    (calls : w.Calls mode scope node force a inner nodes b) :
    (∃ types, w.EntersTypes scope node force a types ∧ b = w.linkEach types.1 types.2)
      ∨ (∃ type, node.data.mentioned? = some type
        ∧ b = a.linkType w.file scope.ref? type node.pos .existence)
      ∨ w.Errands Link.IsAside [] a [] b ∧ a.table.SameSlots b.table ∧ b.history = a.history := by
  have inBlock {ref : ScopeRef} (inScope : scope.ref? = some ref) :
      w.Errands Link.IsAside [] a [] (inBlock ref a)
        ∧ a.table.SameSlots (inBlock ref a).table ∧ (inBlock ref a).history = a.history :=
    ⟨w.inBlock_errands (isOpen _ inScope), .addBlock a.table ref, rfl⟩
  cases calls with
  | header is => exact .inr (.inr ⟨.single (.header found is), .refl _, rfl⟩)
  | method is inClass => exact .inl ⟨_, .method is inClass, w.enterMethod_eq_linkEach _ _ _ a⟩
  | fields is inClass => exact .inl ⟨_, .fields is inClass, w.declareFields_eq_linkEach _ _ _ a⟩
  | locals is inBody => exact .inl ⟨_, .locals is inBody, w.declareLocals_eq_linkEach _ _ _ _ a⟩
  | block is mode inScope => exact .inr (.inr (inBlock inScope))
  | initializer is inClass =>
    subst inClass
    exact .inr (.inr (inBlock rfl))
  | @handler exception _ outer is inBody =>
    rw [enterException_eq]
    split
    · subst inBody
      exact .inr (.inr (inBlock rfl))
    · next isParam => exact .inl ⟨_, .exception is inBody isParam, w.declareLocals_eq_linkEach _ _ _ _ _⟩
  | loop is inScope => exact .inr (.inr (inBlock inScope))
  | mention is => exact .inr (.inl ⟨_, is, rfl⟩)
  | statements | innerInitializer | fileLoop | anonymousAtFile | children | stray =>
    exact .inr (.inr ⟨.rest [] a, .refl _, rfl⟩)

/-- What a node calls for is done by errands, none of which writes a supertype. -/
theorem Calls.errands {inner : WalkScope} {nodes : List (BlockMode × NodeIndex)}
    (isOpen : scope.IsOpenIn a.table) (found : w.arena.get? idx = some node)
    (calls : w.Calls mode scope node force a inner nodes b) :
    w.Errands Link.IsAside [] a [] b := by
  rcases calls.links isOpen found with ⟨types, enters, after⟩ | ⟨type, is, after⟩ | ⟨errands, -⟩
  · rw [after]
    exact (enters.writes isOpen found).linked
  · rw [after]
    exact .single (.mention isOpen ⟨idx, node, found, rfl, is⟩)
  · exact errands

end

end Walk

/-! ## Supertypes -/

/-- The place belongs to the class, and is for a type that it extends. -/
def Link.IsParentOf (id : SymbolId) : Link → Prop
  | .superclass child => child = id
  | .interface child _ => child = id
  | _ => False

/-- The declaration of a class begins without a change to what is linked. -/
theorem Opens.sameSlots {a b : Context} {id : SymbolId} (opens : Opens a id b) :
    a.table.SameSlots b.table := by
  obtain ⟨begun, isHead, -, -⟩ := opens
  obtain ⟨t, started, rfl⟩ := Context.beginClass_some begun
  exact (SymbolTable.SameSlots.beginDefinition started).trans (.enterClass t id _ isHead)

/-- A class extends nothing as its declaration begins. -/
theorem Context.Untouched.bare {a b : Context} (untouched : a.Untouched) {id : SymbolId}
    (opens : Opens a id b) : (b.table.symbol id).parents = (none, []) := by
  obtain ⟨referred, -, -⟩ := opens.state
  rw [opens.sameSlots.parents id, untouched.blank id referred]
  rfl

/-- Linking a type leaves what classes extend as it is written. -/
theorem Context.linkType_parents (cx : Context) (file : FileId) (scope : Option ScopeRef)
    (written : String) (pos : Position) {link : Link} (direct : link.IsDirect) (id : SymbolId) :
    ((cx.linkType file scope written pos link).table.symbol id).written.parents
      = (cx.table.symbol id).written.parents := by
  cases cx.linkType_linking file scope written pos link with
  | none is => rw [is]
  | @now f target inRun found is =>
    have read (t : SymbolTable) :
        (t.written.symbols.getD id.val default).parents = (t.symbol id).written.parents :=
      congrArg Symbol.parents (getD_map t.symbols Symbol.written id.val default)
    rw [is, Context.apply_table, ← read, ← read]
    exact congrArg (fun t => (t.symbols.getD id.val default).parents)
      (cx.table.written_fill direct target)
  | @later f r inRun met waits undeclared is =>
    have same := (SymbolTable.SameSlots.getOrAddPlaceholder cx.table r.key).parents id
    have parents (s : Symbol) : s.written.parents
        = (s.parents.1.map (·.written), s.parents.2.map (·.written)) := rfl
    rw [is, parents, parents]
    exact congrArg (fun p => (p.1.map (·.written), p.2.map (·.written))) same

theorem Context.linkType_interfaces (cx : Context) (file : FileId) (scope : Option ScopeRef)
    (written : String) (pos : Position) {link : Link} (direct : link.IsDirect) (id : SymbolId) :
    ((cx.linkType file scope written pos link).table.symbol id).interfaces.length
      = (cx.table.symbol id).interfaces.length := by
  have same := congrArg (·.2.length) (cx.linkType_parents file scope written pos direct id)
  simpa [Symbol.written, Symbol.parents] using same

namespace Walk

variable {w : Walk} {cx : Context} {id : SymbolId}

/-- A superclass has been entered in a class, and is to be linked. -/
def writeSuperclass (id : SymbolId) (written : String) (pos : Position) (cx : Context) :
    List Mention × Context :=
  ([{ link := .superclass id, scope := .symbol id, written, pos }], cx.modifyTable fun t =>
    t.modifySymbol id fun s => { s with superclass := some (.unresolved written) })

/-- An interface has been entered in a class, and is to be linked. -/
def writeInterface (id : SymbolId) (index : Nat) (written : String) (pos : Position) (cx : Context) :
    List Mention × Context :=
  ([{ link := .interface id index, scope := .symbol id, written, pos }], cx.modifyTable fun t =>
    t.modifySymbol id fun s => { s with interfaces := s.interfaces ++ [.unresolved written] })

/-- A single type of a class has been written. -/
theorem WritesTypes.single {m : Mention} {t : SymbolTable} (isOpen : cx.table.IsOpen (.symbol id))
    (step : TableStep cx.table t) (writes : cx.table.Writes [m] t) (inClass : m.scope = .symbol id)
    (isParent : m.link.IsParentOf id) (said : w.arena.Writes m.link m.written m.pos) :
    w.WritesTypes (Link.IsParentOf id) cx ([m], { cx with table := t }) := by
  have isOpen' : t.IsOpen (.symbol id) := step.grows.isOpen isOpen
  have openPlace : t.OpenPlace m.link := by
    cases place : m.link with
    | superclass | interface =>
      rw [place] at isParent
      obtain rfl : _ = id := isParent
      exact isOpen'
    | _ =>
      rw [place] at isParent
      exact isParent.elim
  have due : w.IsDue (Link.IsParentOf id) t m := ⟨inClass ▸ isOpen', openPlace, isParent, said⟩
  have one {m' : Mention} (isIn : m' ∈ [m]) : w.IsDue (Link.IsParentOf id) t m' := by
    obtain rfl := List.mem_singleton.1 isIn
    exact due
  exact ⟨.single (.first step writes fun m' isIn => (one isIn).placed), fun m' isIn => one isIn,
    writes.others, rfl⟩

theorem writeInterface_writes (isOpen : cx.table.IsOpen (.symbol id)) {pos : Position} {index : Nat}
    (count : (cx.table.symbol id).interfaces.length = index) {written : String}
    (said : w.arena.Writes (.interface id index) written pos) :
    w.WritesTypes (Link.IsParentOf id) cx (writeInterface id index written pos cx) := by
  have writes := SymbolTable.Writes.interface cx.table isOpen.1 written pos
  rw [count] at writes
  exact .single isOpen (.interface isOpen written) writes rfl rfl said

theorem linkInterfaces_cons (id : SymbolId) (pos : Position) (index : Nat) (written : String)
    (rest : List String) (cx : Context) : w.linkInterfaces id pos index (written :: rest) cx
      = w.linkInterfaces id pos (index + 1) rest (w.linkEach (writeInterface id index written pos cx).1
          (writeInterface id index written pos cx).2) := by
  rw [linkInterfaces, writeInterface, linkEach_singleton]

theorem linkInterfaces_append (id : SymbolId) (pos : Position) (index : Nat)
    (before after : List String) (cx : Context) :
    w.linkInterfaces id pos index (before ++ after) cx
      = w.linkInterfaces id pos (index + before.length) after
          (w.linkInterfaces id pos index before cx) := by
  induction before generalizing index cx with
  | nil => rfl
  | cons written rest ih =>
    rw [List.cons_append, linkInterfaces_cons, ih, linkInterfaces_cons, List.length_cons,
      Nat.add_right_comm, Nat.add_assoc]

/-- With an interface that is linked, a class has one more. -/
theorem linkInterface_length (isOpen : cx.table.IsOpen (.symbol id)) (index : Nat) (written : String)
    (pos : Position) : ((w.linkEach (writeInterface id index written pos cx).1
        (writeInterface id index written pos cx).2).table.symbol id).interfaces.length
      = (cx.table.symbol id).interfaces.length + 1 := by
  have entered := SymbolTable.view_modifySymbol_known cx.table isOpen.1
    (fun s => { s with interfaces := s.interfaces ++ [.unresolved written] })
    (fun s => s.interfaces.length) id
  rw [writeInterface, linkEach_singleton,
    Context.linkType_interfaces _ _ _ _ _ (show (Link.interface id index).IsDirect from trivial)]
  exact entered.trans (by simp)

theorem linkInterfaces_errands (isOpen : cx.table.IsOpen (.symbol id)) {pos : Position} {index : Nat}
    (count : (cx.table.symbol id).interfaces.length = index) {interfaces : List String}
    (said : ∀ i type, interfaces[i]? = some type →
      w.arena.Writes (.interface id (index + i)) type pos) :
    w.Errands (Link.IsParentOf id) [] cx [] (w.linkInterfaces id pos index interfaces cx)
      ∧ ((w.linkInterfaces id pos index interfaces cx).table.symbol id).interfaces.length
        = index + interfaces.length := by
  induction interfaces generalizing index cx with
  | nil => exact ⟨.rest [] cx, count⟩
  | cons written rest ih =>
    have writes := writeInterface_writes isOpen count (said 0 written rfl)
    have grown := linkInterface_length (w := w) isOpen index written pos
    rw [count] at grown
    obtain ⟨later, length⟩ := ih (writes.linked.precedes.table.isOpen isOpen) grown fun i type given => by
      rw [Nat.add_assoc, Nat.add_comm 1 i]
      exact said (i + 1) type given
    rw [linkInterfaces_cons]
    refine ⟨writes.linked.trans later, length.trans ?_⟩
    rw [List.length_cons, Nat.add_assoc, Nat.add_comm 1]

/-- The superclass is entered beside the interfaces. -/
theorem linkSuperclass_interfaces (id : SymbolId) (pos : Position) (qualified : String)
    (decl : TypeDecl) (cx : Context) (other : SymbolId) :
    ((w.linkSuperclass id pos qualified decl cx).table.symbol other).interfaces.length
      = (cx.table.symbol other).interfaces.length := by
  have entered (type : TypeRef) : ((cx.table.modifySymbol id fun s =>
        { s with superclass := some type }).symbol other).interfaces.length
      = (cx.table.symbol other).interfaces.length :=
    congrArg List.length
      (SymbolTable.view_modifySymbol cx.table id other Symbol.interfaces fun _ => rfl)
  rw [linkSuperclass]
  split
  · rw [Context.linkType_interfaces _ _ _ _ _ (show (Link.superclass id).IsDirect from trivial)]
    exact entered _
  · split
    · rfl
    · exact entered _

/-- A superclass that is written is entered and linked. -/
theorem linkSuperclass_eq_linkEach {decl : TypeDecl} {written : String}
    (isWritten : decl.superclass = some written) (pos : Position) (qualified : String) (cx : Context) :
    w.linkSuperclass id pos qualified decl cx
      = w.linkEach (writeSuperclass id written pos cx).1 (writeSuperclass id written pos cx).2 := by
  rw [linkSuperclass, isWritten, writeSuperclass, linkEach_singleton]

section

variable {idx : NodeIndex} {node : Node} (found : w.arena.get? idx = some node) {decl : TypeDecl}
  (is : node.data.typeDecl? = some decl)
include found is

/-- The interfaces are written by the node of the class, each with its index. -/
theorem interfaces_said {before after : List String} (are : decl.interfaces = before ++ after) (i : Nat)
    (type : String) (given : after[i]? = some type) :
    w.arena.Writes (.interface id (before.length + i)) type node.pos := by
  refine ⟨idx, node, found, rfl, ?_⟩
  rw [NodeData.typeAt?, is, Option.bind_some, are, List.getElem?_append_right (Nat.le_add_right _ _),
    Nat.add_sub_cancel_left]
  exact given

variable (isOpen : cx.table.IsOpen (.symbol id)) (bare : (cx.table.symbol id).parents = (none, []))
include isOpen bare

theorem writeSuperclass_writes {written : String} (isWritten : decl.superclass = some written) :
    w.WritesTypes (Link.IsParentOf id) cx (writeSuperclass id written node.pos cx) := by
  have noSuperclass : (cx.table.symbol id).superclass = none := congrArg Prod.fst bare
  refine .single isOpen (.superclass isOpen (.inl rfl))
    (.superclass cx.table isOpen.1 noSuperclass written node.pos) rfl rfl ⟨idx, node, found, rfl, ?_⟩
  rw [NodeData.typeAt?, is, Option.bind_some, isWritten]

theorem linkSuperclass_errands (qualified : String) :
    w.Errands (Link.IsParentOf id) [] cx [] (w.linkSuperclass id node.pos qualified decl cx) := by
  have noSuperclass : (cx.table.symbol id).superclass = none := congrArg Prod.fst bare
  cases isWritten : decl.superclass with
  | some written =>
    rw [linkSuperclass_eq_linkEach isWritten]
    exact (writeSuperclass_writes found is isOpen bare isWritten).linked
  | none =>
    rw [linkSuperclass, isWritten]
    dsimp only
    split
    · exact .rest [] cx
    · exact .single (.root isOpen noSuperclass rfl)

/-- The types that a class extends are written and linked by errands, in a class that extends nothing
yet. When some interfaces have been linked, as many have been written. -/
theorem linkSomeParents_errands (qualified : String) {before after : List String}
    (are : decl.interfaces = before ++ after) :
    w.Errands (Link.IsParentOf id) [] cx []
        (w.linkInterfaces id node.pos 0 before (w.linkSuperclass id node.pos qualified decl cx))
      ∧ ((w.linkInterfaces id node.pos 0 before
          (w.linkSuperclass id node.pos qualified decl cx)).table.symbol id).interfaces.length
        = before.length := by
  have first := linkSuperclass_errands found is isOpen bare qualified
  have count : ((w.linkSuperclass id node.pos qualified decl cx).table.symbol id).interfaces.length
      = 0 := by
    rw [linkSuperclass_interfaces]
    exact congrArg (·.2.length) bare
  have said (i : Nat) (type : String) (given : before[i]? = some type) :
      w.arena.Writes (.interface id (0 + i)) type node.pos := by
    have whole : decl.interfaces = [] ++ (before ++ after) := are
    refine interfaces_said found is whole i type ?_
    rw [List.getElem?_append_left (List.getElem?_eq_some_iff.1 given).1]
    exact given
  obtain ⟨linked, length⟩ := linkInterfaces_errands (first.precedes.table.isOpen isOpen) count said
  exact ⟨first.trans linked, length.trans (Nat.zero_add _)⟩

theorem linkParents_errands (qualified : String) :
    w.Errands (Link.IsParentOf id) [] cx [] (w.linkParents id node.pos qualified decl cx) :=
  (linkSomeParents_errands found is isOpen bare qualified (List.append_nil _).symm).1

end

end Walk

end LevelCheck
