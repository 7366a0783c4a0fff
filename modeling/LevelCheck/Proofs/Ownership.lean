import LevelCheck.Proofs.ForestGrowth
import LevelCheck.Proofs.Settling
import LevelCheck.Proofs.Waiting
import LevelCheck.Proofs.WalkRun
set_option autoImplicit false

/-! # Who owns the records of a run

Whatever an analyzer is asked to do, and whatever the trees look like, its table stays a forest of
scopes, and every class that a type was found to name and every place that a waiting reference is
to fill are there. -/

namespace LevelCheck

/-! ## Types that name classes of the table -/

/-- The class that the type was found to name, if any, is one of the first `n`. -/
def TypeRef.IsIn (r : TypeRef) (n : Nat) : Prop := ∀ id ∈ r.resolved, id.val < n

/-- The types that a class mentions name classes among the first `n`. -/
structure Symbol.RefsIn (s : Symbol) (n : Nat) : Prop where
  superclass : ∀ r ∈ s.superclass, r.IsIn n
  interfaces : ∀ r ∈ s.interfaces, r.IsIn n

/-- The types that a method mentions name classes among the first `n`. -/
structure Method.RefsIn (m : Method) (n : Nat) : Prop where
  returnType : ∀ r ∈ m.returnType, r.IsIn n
  thrown : ∀ r ∈ m.thrown, r.IsIn n

/-- Every type of the table that was found to name a class names one of the table. -/
structure SymbolTable.RefsKnown (t : SymbolTable) : Prop where
  symbols : ∀ id, (t.symbol id).RefsIn t.size
  methods : ∀ id, (t.method id).RefsIn t.size
  vars : ∀ id, (t.var id).type.IsIn t.size

theorem TypeRef.isIn_unresolved (name : String) (n : Nat) : (TypeRef.unresolved name).IsIn n := nofun

theorem TypeRef.IsIn.mono {r : TypeRef} {n m : Nat} (isIn : r.IsIn n) (le : n ≤ m) : r.IsIn m :=
  fun id resolved => (isIn id resolved).trans_le le

theorem Symbol.RefsIn.mono {s : Symbol} {n m : Nat} (isIn : s.RefsIn n) (le : n ≤ m) : s.RefsIn m :=
  ⟨fun r is => (isIn.superclass r is).mono le, fun r is => (isIn.interfaces r is).mono le⟩

theorem Method.RefsIn.mono {s : Method} {n m : Nat} (isIn : s.RefsIn n) (le : n ≤ m) : s.RefsIn m :=
  ⟨fun r is => (isIn.returnType r is).mono le, fun r is => (isIn.thrown r is).mono le⟩

/-- A method as it is declared names no classes yet. -/
theorem Method.refsIn_declared (name : String) (owner : SymbolId) (modifiers : Nat)
    (typeParams : List String) (returnType : Option String) (throws : List String)
    (isConstructor : Bool) (n : Nat) :
    (Method.declared name owner modifiers typeParams returnType throws isConstructor).RefsIn n := by
  refine ⟨fun r is => ?_, fun r is => ?_⟩
  · obtain ⟨written, _, rfl⟩ := Option.map_eq_some_iff.1 is
    exact TypeRef.isIn_unresolved written n
  · obtain ⟨written, _, rfl⟩ := List.mem_map.1 is
    exact TypeRef.isIn_unresolved written n

namespace SymbolTable

namespace RefsKnown

variable {t : SymbolTable} (refs : t.RefsKnown)
include refs

theorem modifySymbol {id : SymbolId} {f : Symbol → Symbol}
    (keeps : ∀ s, s.RefsIn t.size → (f s).RefsIn t.size) : (t.modifySymbol id f).RefsKnown := by
  refine ⟨fun s => ?_, fun m => ?_, fun v => ?_⟩
  · rw [size_modifySymbol, symbol_modifySymbol]
    split
    · exact keeps _ (refs.symbols s)
    · exact refs.symbols s
  · rw [size_modifySymbol]
    exact refs.methods m
  · rw [size_modifySymbol]
    exact refs.vars v

theorem modifyMethod {id : MethodId} {f : Method → Method}
    (keeps : ∀ m, m.RefsIn t.size → (f m).RefsIn t.size) : (t.modifyMethod id f).RefsKnown := by
  refine ⟨refs.symbols, fun m => ?_, refs.vars⟩
  rw [method_modifyMethod]
  split
  · exact keeps _ (refs.methods m)
  · exact refs.methods m

theorem modifyVariable {id : VariableId} {f : Variable → Variable}
    (keeps : ∀ v, v.type.IsIn t.size → (f v).type.IsIn t.size) :
    (t.modifyVariable id f).RefsKnown := by
  refine ⟨refs.symbols, refs.methods, fun v => ?_⟩
  rw [var_modifyVariable]
  split
  · exact keeps _ (refs.vars v)
  · exact refs.vars v

theorem modifyBlock {id : BlockId} (f : Block → Block) : (t.modifyBlock id f).RefsKnown :=
  ⟨refs.symbols, refs.methods, refs.vars⟩

theorem getOrAddPlaceholder (name : String) : (t.getOrAddPlaceholder name).2.RefsKnown := by
  cases found : t.lookup? name with
  | some id => rw [getOrAddPlaceholder_of_some found]; exact refs
  | none =>
    rw [getOrAddPlaceholder_of_none found]
    have more : t.size ≤ (t.addSymbol (.placeholder name)).2.size := by simp
    refine ⟨fun s => ?_, fun m => (refs.methods m).mono more, fun v => (refs.vars v).mono more⟩
    rw [symbol_addSymbol]
    split
    · exact ⟨nofun, nofun⟩
    · exact (refs.symbols s).mono more

theorem pushMethod {m : Method} (isIn : m.RefsIn t.size) :
    ({ t with methods := t.methods.push m } : SymbolTable).RefsKnown := by
  refine ⟨refs.symbols, fun id => ?_, refs.vars⟩
  rw [method, getD_push]
  split
  · exact isIn
  · exact refs.methods id

theorem pushBlock (b : Block) : ({ t with blocks := t.blocks.push b } : SymbolTable).RefsKnown :=
  ⟨refs.symbols, refs.methods, refs.vars⟩

theorem appendVars {vs : List Variable} (areNew : ∀ v ∈ vs, v.type.resolved = none) :
    (t.appendVars vs).RefsKnown := by
  refine ⟨refs.symbols, refs.methods, fun id => ?_⟩
  -- a variable is an older one, or a new one, or beyond the end as before
  have read : (t.appendVars vs).var id = t.var id ∨ (t.appendVars vs).var id ∈ vs := by
    rw [var, SymbolTable.appendVars, Array.getD_eq_getD_getElem?]
    by_cases older : id.val < t.vars.size
    · rw [Array.getElem?_append_left older, var, Array.getD_eq_getD_getElem?]
      exact .inl rfl
    · rw [Array.getElem?_append_right (Nat.not_lt.1 older), List.getElem?_toArray]
      cases found : vs[id.val - t.vars.size]? with
      | none =>
        rw [var, Array.getD_eq_getD_getElem?, Array.getElem?_eq_none (Nat.not_lt.1 older)]
        exact .inl rfl
      | some v => exact .inr (List.mem_of_getElem? found)
  rcases read with old | new
  · rw [old]
    exact refs.vars id
  · intro target resolved
    rw [areNew _ new] at resolved
    cases resolved

/-- Filling the place of a reference with a class of the table. -/
theorem fill {target : SymbolId} (known : target.val < t.size) (link : Link) :
    (t.fill link target).RefsKnown := by
  -- a place holds one reference, or none, or one of a list of them
  have resolved (name : String) : ({ name, resolved := some target } : TypeRef).IsIn t.size := by
    intro id is
    obtain rfl := Option.some.inj is
    exact known
  have optional (type : Option TypeRef) :
      ∀ r ∈ resolveOptional type target, r.IsIn t.size := by
    intro r is
    obtain ⟨before, _, rfl⟩ := Option.map_eq_some_iff.1 is
    exact resolved before.name
  have listed {types : List TypeRef} (isIn : ∀ r ∈ types, r.IsIn t.size) (index : Nat) :
      ∀ r ∈ resolveAt types index target, r.IsIn t.size := by
    intro r is
    obtain ⟨i, found⟩ := List.mem_iff_getElem?.1 is
    rw [resolveAt, List.getElem?_modify] at found
    obtain ⟨before, there, rfl⟩ := Option.map_eq_some_iff.1 found
    split
    · exact resolved before.name
    · exact isIn before (List.mem_of_getElem? there)
  cases link with
  | superclass child => exact refs.modifySymbol fun _ isIn => ⟨optional _, isIn.interfaces⟩
  | interface child index =>
    exact refs.modifySymbol fun s isIn => ⟨isIn.superclass, listed isIn.interfaces index⟩
  | variableType declared => exact refs.modifyVariable fun v _ => resolved _
  | returnType method => exact refs.modifyMethod fun m isIn => ⟨optional _, isIn.thrown⟩
  | thrownType method index =>
    exact refs.modifyMethod fun m isIn => ⟨isIn.returnType, listed isIn.thrown index⟩
  | existence => exact refs
  | anonymousBase child =>
    rw [SymbolTable.fill]
    split
    · -- the base is an interface, and the superclass is the builtin one
      refine refs.modifySymbol fun s isIn => ⟨fun r is => ?_, fun r is => ?_⟩
      · obtain rfl := Option.some.inj is
        exact fun id found => (lookup_eq_some found).1
      · rcases List.mem_append.1 is with before | base
        · exact isIn.interfaces r before
        · rw [List.mem_singleton.1 base]
          exact resolved _
    · refine refs.modifySymbol fun s isIn => ⟨fun r is => ?_, isIn.interfaces⟩
      obtain rfl := Option.some.inj is
      exact resolved _

theorem step {t' : SymbolTable} (step : TableStep t t') : t'.RefsKnown := by
  cases step with
  | number isOpen => exact refs.modifySymbol fun s isIn => ⟨isIn.superclass, isIn.interfaces⟩
  | superclass isOpen known =>
    refine refs.modifySymbol fun s isIn => ⟨fun r is => ?_, isIn.interfaces⟩
    obtain rfl := Option.some.inj is
    -- a superclass that is given at once is a builtin class
    rcases known with unresolved | rfl
    · intro id resolved
      rw [unresolved] at resolved
      cases resolved
    · exact fun id found => (lookup_eq_some found).1
  | interface isOpen written =>
    refine refs.modifySymbol fun s isIn => ⟨isIn.superclass, fun r is => ?_⟩
    rcases List.mem_append.1 is with before | new
    · exact isIn.interfaces r before
    · rw [List.mem_singleton.1 new]
      exact TypeRef.isIn_unresolved written t.size
  | method isOpen =>
    exact (refs.pushMethod (Method.refsIn_declared ..)).modifySymbol fun s isIn =>
      ⟨isIn.superclass, isIn.interfaces⟩
  | params isOpen only areNew =>
    rw [addParams_table]
    exact (refs.appendVars fun v new => (areNew v new).2).modifyMethod fun m isIn =>
      ⟨isIn.returnType, isIn.thrown⟩
  | fields isOpen areNew =>
    rw [addFields_table]
    exact (refs.appendVars fun v new => (areNew v new).2).modifySymbol fun s isIn =>
      ⟨isIn.superclass, isIn.interfaces⟩
  | @locals body isOpen vars areNew policy =>
    rw [addVars_table]
    have appended := refs.appendVars fun v new => (areNew v new).2
    cases body with
    | method id => exact appended.modifyMethod fun m isIn => ⟨isIn.returnType, isIn.thrown⟩
    | block id => exact appended.modifyBlock _
  | @block scope isOpen =>
    rw [addBlock_table]
    have pushed := refs.pushBlock { outer := scope, vars := [], blocks := [] }
    cases scope with
    | symbol id => exact pushed.modifySymbol fun s isIn => ⟨isIn.superclass, isIn.interfaces⟩
    | method id => exact pushed.modifyMethod fun m isIn => ⟨isIn.returnType, isIn.thrown⟩
    | block id => exact pushed.modifyBlock _

theorem setState {id : SymbolId} (state : SymbolState) :
    (t.modifySymbol id fun s => { s with state }).RefsKnown :=
  refs.modifySymbol fun _ isIn => ⟨isIn.superclass, isIn.interfaces⟩

theorem enterClass (id : SymbolId) (outer : Option ScopeRef) {head : Symbol → Symbol}
    (isHead : Symbol.IsHead head) : (t.enterClass id outer head).RefsKnown := by
  have first : (t.modifySymbol id fun s => { head s with outer }).RefsKnown := by
    refine refs.modifySymbol fun s isIn => ?_
    rw [isHead s]
    exact ⟨isIn.superclass, isIn.interfaces⟩
  cases outer with
  | none => exact first
  | some scope => exact first.modifySymbol fun s isIn => ⟨isIn.superclass, isIn.interfaces⟩

end RefsKnown

end SymbolTable

/-! ## What a run keeps -/

namespace SymbolTable

/-- Each way in which a walk changes the table on its own keeps the forest. -/
theorem Forest.step {t t' : SymbolTable} (forest : t.Forest) (step : TableStep t t') : t'.Forest := by
  cases step with
  | number isOpen => exact forest.quiet (.numberLocalClass _ _)
  | superclass isOpen known => exact forest.quiet (.modifySymbol _ _ (fun _ => rfl) fun _ => rfl)
  | interface isOpen written => exact forest.quiet (.modifySymbol _ _ (fun _ => rfl) fun _ => rfl)
  | method isOpen => exact forest.addMethod isOpen rfl rfl rfl
  | params isOpen only areNew => exact forest.addParams isOpen only fun v new => (areNew v new).1
  | fields isOpen areNew => exact forest.addFields isOpen fun v new => (areNew v new).1
  | locals isOpen areNew policy => exact forest.addVars isOpen (fun v new => (areNew v new).1) policy
  | block isOpen => exact forest.addBlock isOpen

end SymbolTable

namespace Context

/-- The records of the run are a forest, and the ids that types and waiting references hold are
those of records. -/
structure Owned (cx : Context) : Prop where
  forest : cx.table.Forest
  refs : cx.table.RefsKnown
  waiting : ∀ r ∈ cx.pending.all, cx.table.HasPlace r.link ∧ r.file.val < cx.files.size

theorem Precedes.files_size {a b : Context} (precedes : a.Precedes b) :
    b.files.size = a.files.size := by
  have sizes := congrArg Array.size precedes.files
  simpa using sizes

namespace Owned

variable {cx : Context} (owned : cx.Owned)
include owned

/-- Whatever leaves the waiting references alone and keeps the table in order. -/
theorem next {next : Context} (precedes : cx.Precedes next) (forest : next.table.Forest)
    (refs : next.table.RefsKnown) (waiting : ∀ r ∈ next.pending.all, r ∈ cx.pending.all) :
    next.Owned where
  forest := forest
  refs := refs
  waiting r waits := by
    obtain ⟨hasPlace, inRun⟩ := owned.waiting r (waiting r waits)
    rw [precedes.files_size]
    exact ⟨precedes.table.hasPlace hasPlace, inRun⟩

theorem apply {target : SymbolId} (known : target.val < cx.table.size) (file : FileId)
    (pos : Position) (link : Link) : (cx.apply file pos link target).Owned := by
  have table := apply_table cx file pos link target
  refine owned.next (.apply cx file pos link target) ?_ ?_ ?_
  · rw [table]
    exact owned.forest.quiet (.fill _ _ _)
  · rw [table]
    exact owned.refs.fill known link
  · rw [Context.apply]
    split
    · exact fun r waits => waits
    · exact fun r waits => waits

theorem resume {r : PendingReference} {target : SymbolId} (known : target.val < cx.table.size) :
    (Context.resume r target cx).Owned :=
  (owned.next (.happened cx _) owned.forest owned.refs fun _ waits => waits).apply known _ _ _

/-- The references that wait for a class are linked to it, one after the other. -/
theorem resumeAll {target : SymbolId} (known : target.val < cx.table.size)
    (released : List PendingReference) :
    (released.foldl (fun cx r => Context.resume r target cx) cx).Owned := by
  induction released generalizing cx with
  | nil => exact owned
  | cons r rest ih =>
    exact ih (owned.resume known) (known.trans_le (Precedes.resume cx r target).table.symbols)

theorem linkType (file : FileId) (scope : Option ScopeRef) (written : String) (pos : Position)
    {link : Link} (hasPlace : cx.table.HasPlace link) :
    (cx.linkType file scope written pos link).Owned := by
  have precedes := Precedes.linkType cx file scope written pos link
  cases cx.linkType_linking file scope written pos link with
  | none is => rw [is]; exact owned
  | now inRun found is =>
    rw [is]
    have known := Resolution.ofName_known found
    exact (owned.next (.happened cx _) owned.forest owned.refs fun _ waits => waits).apply known _ _ _
  | @later f r inRun met waits undeclared is =>
    rw [is] at precedes ⊢
    refine ⟨owned.forest.getOrAddPlaceholder _, owned.refs.getOrAddPlaceholder _, fun p isPending => ?_⟩
    have requested := (cx.pending.request_perm r.waiting).mem_iff.1 isPending
    rcases List.mem_cons.1 requested with rfl | before
    · -- the reference that has just begun to wait fills the same place as the one that was met
      refine ⟨precedes.table.hasPlace ?_, ?_⟩
      · rw [met]
        exact hasPlace
      · rw [met]
        exact (Array.getElem?_eq_some_iff.1 inRun).1
    · obtain ⟨hasPlace, known⟩ := owned.waiting p before
      exact ⟨precedes.table.hasPlace hasPlace, known⟩

theorem act {next : Context} (act : Act cx next) : next.Owned := by
  have precedes := act.precedes
  cases act with
  | note e => exact ⟨owned.forest, owned.refs, owned.waiting⟩
  | report file pos isLocal => exact ⟨owned.forest, owned.refs, owned.waiting⟩
  | prune file node pos isLocal => exact ⟨owned.forest, owned.refs, owned.waiting⟩
  | refuse e pos => exact ⟨owned.forest, owned.refs, owned.waiting⟩
  | header file keeps => exact owned.next precedes owned.forest owned.refs fun _ waits => waits
  | enter step =>
    exact owned.next precedes (owned.forest.step step) (owned.refs.step step) fun _ waits => waits
  | link file isOpen written pos hasPlace => exact owned.linkType file _ written pos hasPlace

theorem opens {next : Context} {id : SymbolId} (opens : Opens cx id next) : next.Owned := by
  have precedes := opens.precedes
  obtain @⟨qualified, outer, head, begun, isHead, around, named⟩ := opens
  obtain ⟨t, started, is⟩ := beginClass_some begun
  have grows := SymbolTable.Grows.beginDefinition started
  obtain ⟨forest, free⟩ := owned.forest.beginDefinition started
  obtain ⟨known, isNamed, visiting⟩ := SymbolTable.beginDefinition_named started
  have isOpen : t.IsOpen (.symbol id) := by
    refine ⟨known, ?_⟩
    rw [Symbol.isDeclared, visiting]
    rfl
  -- a class that is first declared here has been added, but refers to nothing yet
  have refs : t.RefsKnown := by
    obtain ⟨t', placed, _, rfl⟩ := SymbolTable.beginDefinition_ok started
    have refs' := owned.refs.getOrAddPlaceholder qualified
    rw [placed] at refs'
    exact refs'.setState _
  subst is
  refine owned.next precedes ?_ (refs.enterClass id _ isHead) fun _ waits => waits
  refine forest.enterClass isOpen free (fun s isIn => grows.isOpen (around s isIn)) isHead
    fun s isIn => ?_
  -- the class around the scope had its name before
  obtain ⟨own, isQualified⟩ := named s isIn
  have parentOpen := owned.forest.scopes.enclosingSymbol_isOpen (around s isIn)
  refine ⟨own, ?_⟩
  rw [isNamed, isQualified, owned.forest.scopes.enclosingSymbol_of_grows grows (around s isIn),
    grows.name _ parentOpen.1]

/-- The references are linked, each to its own class. -/
theorem resumeEach {ready : List (PendingReference × SymbolId)}
    (known : ∀ e ∈ ready, e.2.val < cx.table.size) :
    (ready.foldl (fun cx e => Context.resume e.1 e.2 cx) cx).Owned := by
  induction ready generalizing cx with
  | nil => exact owned
  | cons e rest ih =>
    have grows := (Precedes.resume cx e.1 e.2).table
    refine ih (owned.resume (known e List.mem_cons_self)) fun e' isIn => ?_
    exact (known e' (List.mem_cons_of_mem _ isIn)).trans_le grows.symbols

theorem abandonEach (stuck : List PendingReference) : (stuck.foldl abandon cx).Owned := by
  induction stuck generalizing cx with
  | nil => exact owned
  | cons r rest ih => exact ih ⟨owned.forest, owned.refs, owned.waiting⟩

/-- A class is completed, and the references that wait for it are released. -/
theorem release (id : SymbolId) : ({ cx with
    table := cx.table.finishDefinition id, pending := (cx.waitingFor id).2 } : Context).Owned :=
  owned.next ⟨SymbolTable.Grows.finishDefinition _ id, List.prefix_rfl, rfl, rfl⟩
    (owned.forest.setState id nofun) (owned.refs.setState _) fun _ waits =>
      Pending.mem_release (.inr waits)

theorem defineComplete {id : SymbolId} (isOpen : cx.table.IsOpen (.symbol id)) :
    (cx.defineComplete id).Owned := by
  rw [defineComplete_eq]
  exact (owned.release id).resumeAll
    (isOpen.1.trans_le (SymbolTable.Grows.finishDefinition _ id).symbols) _

theorem run {next : Context} (run : Run cx next) : next.Owned :=
  run.keeps (fun step owned => owned.act step) (fun begins owned => owned.opens begins)
    (fun isOpen owned => owned.defineComplete isOpen) owned

theorem addFile (name : String) (level : Level) : (cx.addFile name level).2.Owned := by
  refine ⟨owned.forest, owned.refs, fun r waits => ?_⟩
  obtain ⟨hasPlace, inRun⟩ := owned.waiting r waits
  refine ⟨hasPlace, ?_⟩
  simp only [Context.addFile, Array.size_push]
  omega

theorem settle : cx.settle.Owned := by
  rw [settle_eq]
  have emptied : ({ cx with pending := .empty } : Context).Owned :=
    ⟨owned.forest, owned.refs, nofun⟩
  exact (emptied.resumeEach fun e isIn => Pending.ready_known isIn).abandonEach _

theorem perform (request : Request) : (cx.perform request).Owned := by
  cases request with
  | analyze unit => exact (owned.addFile _ _).run (cx.analyzeFile_run unit)
  | settle => exact owned.settle

theorem performAll (requests : List Request) : (cx.performAll requests).Owned := by
  induction requests generalizing cx with
  | nil => exact owned
  | cons request rest ih => exact ih (owned.perform request)

end Owned

/-- The builtin classes mention none but each other. -/
theorem seeded_refsKnown : SymbolTable.seeded.RefsKnown := by
  have within : ∀ s ∈ SymbolTable.seeded.symbols.toList, ∀ r ∈ s.superclass.toList ++ s.interfaces,
      ∀ id ∈ r.resolved, id.val < SymbolTable.seeded.size := by decide +kernel
  have noMethods : SymbolTable.seeded.methods = #[] := rfl
  have noVars : SymbolTable.seeded.vars = #[] := rfl
  refine ⟨fun id => ?_, fun m => ?_, fun v => ?_⟩
  · rw [SymbolTable.symbol, Array.getD_eq_getD_getElem?]
    cases found : SymbolTable.seeded.symbols[id.val]? with
    | none => exact ⟨by rintro _ ⟨⟩, by rintro _ ⟨⟩⟩
    | some s =>
      have isIn := within s (Array.mem_toList_iff.2 (Array.mem_of_getElem? found))
      exact ⟨fun r is => isIn r (List.mem_append_left _ (Option.mem_toList.2 is)),
        fun r is => isIn r (List.mem_append_right _ is)⟩
  · rw [SymbolTable.method, noMethods]
    exact ⟨by rintro _ ⟨⟩, by rintro _ ⟨⟩⟩
  · rw [SymbolTable.var, noVars]
    rintro _ ⟨⟩

theorem owned_start (options : Options) : (Context.start options).Owned :=
  ⟨SymbolTable.seeded_forest, seeded_refsKnown, nofun⟩

end Context

/-! ## The forest, read from the table -/

/-- The records of the table are a forest of scopes, and all ids that they hold are those of
records. -/
structure SymbolTable.IsOwnershipForest (t : SymbolTable) : Prop where
  /-- Names and classes correspond one to one. -/
  lookup : ∀ name id, t.lookup? name = some id ↔ id.val < t.size ∧ (t.symbol id).name = name
  /-- A method is listed once, by the class around it. -/
  methods : ∀ owner id, (t.symbol owner).methods.count id
    = if id.val < t.methods.size ∧ (t.method id).outer = .symbol owner then 1 else 0
  /-- A block is listed once, by the scope around it. -/
  blocks : ∀ scope id, (t.blocksOf scope).count id
    = if id.val < t.blocks.size ∧ (t.block id).outer = scope then 1 else 0
  /-- A variable is listed once, by the scope that declares it. -/
  vars : ∀ scope id, (t.varsOf scope).count id
    = if id.val < t.vars.size ∧ (t.var id).enclosing = scope then 1 else 0
  params : ∀ id, (t.method id).params <+: (t.method id).vars
  /-- A class with a scope around it is listed once, by the class around that scope; any other class
  is not listed. -/
  innerClasses : ∀ outer id, (t.symbol outer).innerClasses.count id
    = if (t.symbol id).outer.map t.enclosingSymbol = some outer then 1 else 0
  methodOuter : ∀ id, id.val < t.methods.size → t.IsOpen (t.method id).outer
  blockOuter : ∀ id, id.val < t.blocks.size → t.IsOpen (t.block id).outer
  varScope : ∀ id, id.val < t.vars.size → t.IsOpen (t.var id).enclosing
  classOuter : ∀ id, ∀ scope ∈ (t.symbol id).outer, t.IsOpen scope
  refs : t.RefsKnown
  /-- The way outward from a block ends at the class around it. -/
  outward : ∀ id, id.val < t.blocks.size →
    t.enclosingSymbol (.block id) = t.enclosingSymbol (t.block id).outer
  inward : ∀ id outer, id.val < t.blocks.size → (t.block id).outer = .block outer →
    outer.val < id.val
  /-- No class lies in itself, for its name continues that of the class around it. -/
  nested : ∀ id, ∀ scope ∈ (t.symbol id).outer, ∃ own,
    (t.symbol id).name = Resolution.memberName (t.symbol (t.enclosingSymbol scope)).name own

theorem SymbolTable.Forest.isOwnershipForest {t : SymbolTable} (forest : t.Forest)
    (refs : t.RefsKnown) : t.IsOwnershipForest where
  lookup := forest.classes.names.lookup_iff
  methods owner id := by
    have count := forest.scopes.methods owner id
    -- the owner of a method is the scope around it, which is a class
    simpa only [methodOwner?, Option.ite_none_right_eq_some, Option.some.injEq, Method.outer,
      ScopeRef.symbol.injEq] using count
  blocks scope id := by
    have count := forest.scopes.blocks scope id
    simpa only [blockOuter?, Option.ite_none_right_eq_some, Option.some.injEq] using count
  vars scope id := by
    have count := forest.vars.lists scope id
    simpa only [varScope?, Option.ite_none_right_eq_some, Option.some.injEq] using count
  params := forest.vars.params
  innerClasses := forest.classes.inner
  methodOuter id known := forest.scopes.methodOpen id _ (if_pos known)
  blockOuter id known := forest.scopes.blockOpen id _ (if_pos known)
  varScope id known := forest.vars.varOpen id _ (if_pos known)
  classOuter id scope is := forest.classes.outerOpen id scope is
  refs := refs
  outward id known := forest.scopes.enclosingSymbol_block known
  inward id outer known is := forest.scopes.inward id outer (is ▸ if_pos known)
  nested id scope is := forest.classes.named id _ (by rw [outerClass?, is, Option.map_some])

/-- Whatever an analyzer is asked to do, its table is a forest of scopes, and the references that
still wait fill places of the table on behalf of files of the run. -/
theorem Context.performAll_ownership (options : Options) (requests : List Request) :
    ((start options).performAll requests).table.IsOwnershipForest
      ∧ ∀ r ∈ ((start options).performAll requests).pending.all,
        ((start options).performAll requests).table.HasPlace r.link
          ∧ r.file.val < ((start options).performAll requests).files.size := by
  have owned := (owned_start options).performAll requests
  exact ⟨owned.forest.isOwnershipForest owned.refs, owned.waiting⟩

end LevelCheck
