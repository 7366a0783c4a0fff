import LevelCheck.Proofs.ScopeEntries
set_option autoImplicit false

/-! # The table mirrors the source

Where no record of a run keeps the children of a node from being visited, the walk has come to all that
is written. Then the methods of the table are the methods and constructors that the walk came to in
classes, one by one, each with the variables and the scopes that are written in it. The induction is on
the journey of the walk: what it has left for good is mirrored by the table, and the bodies that it is
still in have gained what has been visited of them. -/

namespace LevelCheck

/-! ## Logs that prune nothing -/

namespace ErrorLog

variable {log next : ErrorLog}

/-- No record keeps the children of a node from being visited. -/
def PrunesNothing (log : ErrorLog) : Prop := ∀ d ∈ log.diagnostics.toList, d.prunes = false

instance (log : ErrorLog) : Decidable log.PrunesNothing :=
  inferInstanceAs (Decidable (∀ d ∈ log.diagnostics.toList, d.prunes = false))

theorem PrunesNothing.of_grown (clean : next.PrunesNothing)
    (grown : log.diagnostics.toList <+: next.diagnostics.toList) : log.PrunesNothing :=
  fun d isIn => clean d (grown.subset isIn)

/-- Where nodes have been pruned, a record says so. -/
def Accounts (log : ErrorLog) : Prop := log.PrunesNothing → log.pruned = []

theorem Accounts.of_grown (accounts : log.Accounts) (pruned : next.pruned = log.pruned)
    (grown : log.diagnostics.toList <+: next.diagnostics.toList) : next.Accounts :=
  fun clean => pruned.trans (accounts (clean.of_grown grown))

theorem not_prunesNothing_addPruning (log : ErrorLog) (file : FileId) (node : NodeIndex)
    (d : Diagnostic) : ¬ (log.addPruning file node d).PrunesNothing := by
  intro clean
  have kept := clean d.pruning (by simp [addPruning])
  cases kept

end ErrorLog

namespace Context

variable {a b : Context}

/-- Whatever a walk does, the log says of every pruned node that it is. -/
theorem accounts_steps (steps : Steps a b) (accounts : a.log.Accounts) : b.log.Accounts := by
  have silent {a b : Context} (silent : a.Silent b) (precedes : a.Precedes b)
      (accounts : a.log.Accounts) : b.log.Accounts := accounts.of_grown silent.pruned precedes.log
  refine steps.keeps (P := fun cx => cx.log.Accounts) (fun {a b} act accounts => ?_)
    (fun {a b id} opens accounts => ?_) (fun isOpen accounts => ?_) accounts
  · have precedes := act.precedes
    cases act with
    | note | header | enter => exact accounts
    | report => exact accounts.of_grown rfl precedes.log
    | prune | refuse =>
      exact fun clean => (ErrorLog.not_prunesNothing_addPruning _ _ _ _ clean).elim
    | link => exact silent (.linkType ..) precedes accounts
  · obtain ⟨begun⟩ := opens
    obtain ⟨t, -, is⟩ := beginClass_some begun
    rw [is]
    exact accounts
  · exact silent (.defineComplete isOpen) (.defineComplete ..) accounts

end Context

/-! ## Methods that are visited -/

/-- The method or constructor that a node declares, and its file, if the walk came to it in a class. -/
def Encounter.method? (e : Encounter) : Option (FileId × Walk.MethodDecl) :=
  e.offer.bind fun o =>
    if o.scope = .classBody then o.node.data.methodDecl?.map (e.file, ·) else none

/-- The methods and constructors that the walk came to in classes, in order. -/
def Context.visitedMethods (cx : Context) : List (FileId × Walk.MethodDecl) :=
  cx.trail.toList.filterMap Encounter.method?

namespace SymbolTable

variable {t u : SymbolTable}

/-- The methods of the table, in the order in which they were entered. -/
def methodIds (t : SymbolTable) : List MethodId := (List.range t.methods.size).map MethodId.mk

theorem mem_methodIds {id : MethodId} : id ∈ t.methodIds ↔ id.val < t.methods.size := by
  simp only [methodIds, List.mem_map, List.mem_range]
  exact ⟨fun ⟨i, below, is⟩ => is ▸ below, fun below => ⟨id.val, below, rfl⟩⟩

theorem nodup_methodIds (t : SymbolTable) : t.methodIds.Nodup :=
  List.Nodup.map (fun _ _ same => MethodId.mk.inj same) List.nodup_range

theorem methodIds_of_size (size : u.methods.size = t.methods.size) : u.methodIds = t.methodIds := by
  rw [methodIds, methodIds, size]

theorem methodIds_succ (size : u.methods.size = t.methods.size + 1) :
    u.methodIds = t.methodIds ++ [⟨t.methods.size⟩] := by
  rw [methodIds, methodIds, size, List.range_succ, List.map_append, List.map_singleton]

end SymbolTable

namespace Walk

variable {w : Walk}

/-- The methods that are new in the table are the ones that the walk has come to, as they are
written. -/
inductive WritesMethods (w : Walk) (a b : Context) : Prop where
  | intro {visited : List (FileId × MethodDecl)} {ids : List MethodId}
      (visits : b.visitedMethods = a.visitedMethods ++ visited)
      (enters : b.table.methodIds = a.table.methodIds ++ ids)
      (written : List.Forall₂ (fun m id => m.1 = w.file ∧ w.IsWritten b.table m.2 id) visited ids)

namespace WritesMethods

variable {a b c : Context}

/-- Nothing is entered, and no method is visited. -/
theorem of_same (visits : b.visitedMethods = a.visitedMethods)
    (enters : b.table.methodIds = a.table.methodIds) : w.WritesMethods a b :=
  .intro (visits.trans (List.append_nil _).symm) (enters.trans (List.append_nil _).symm) .nil

/-- Methods that have been left are still as they are written after more has been visited in a scope
that was open before them. -/
theorem trans (first : w.WritesMethods a b) (owned : a.Owned) (owned' : b.Owned)
    (grows : a.table.Grows b.table) (scope : Option ScopeRef)
    (isOpen : ∀ s ∈ scope, a.table.IsOpen s) (spares : b.table.Spares c.table scope)
    (second : w.WritesMethods b c) : w.WritesMethods a c := by
  obtain @⟨visited, ids, visits, enters, written⟩ := first
  obtain ⟨visits', enters', written'⟩ := second
  have still (id : MethodId) (isIn : id ∈ ids) (decl : MethodDecl)
      (isWritten : w.IsWritten b.table decl id) : w.IsWritten c.table decl id := by
    have known : id ∈ b.table.methodIds := by
      rw [enters]
      exact List.mem_append_right _ isIn
    have closed : ¬ a.table.IsOpen (.method id) := by
      intro older
      have distinct := b.table.nodup_methodIds
      rw [enters] at distinct
      exact List.disjoint_of_nodup_append distinct (SymbolTable.mem_methodIds.2 older) isIn
    have below (b : BlockId) (is : scope = some (.block b)) : b.val < a.table.blocks.size :=
      isOpen _ is
    refine spares.isWritten owned'.forest.scopes below (SymbolTable.mem_methodIds.1 known)
      (fun is => closed (isOpen _ is.symm)) (fun b isIn => ?_) isWritten
    exact owned.forest.scopes.new_of_mem_blocksOf owned'.forest.scopes grows closed isIn
  have kept := List.forall₂_iff_zip.2 ⟨written.length_eq, fun {m id} isIn => by
    obtain ⟨file, isWritten⟩ := List.forall₂_zip written isIn
    exact And.intro file (still id (List.of_mem_zip isIn).2 m.2 isWritten)⟩
  refine .intro ?_ ?_ (List.rel_append kept written')
  · rw [visits', visits, List.append_assoc]
  · rw [enters', enters, List.append_assoc]

end WritesMethods

/-! ## What a journey charts -/

/-- What has been visited in a scope is in the table: the methods, and what nodes of a body add. -/
structure Charts (w : Walk) (scope : WalkScope) (nodes : List (BlockMode × NodeIndex))
    (a b : Context) : Prop where
  spares : a.table.Spares b.table scope.ref?
  writes : w.WritesMethods a b
  gains : ∀ body, scope = .body body → w.Gains body nodes a.table b.table

namespace Charts

variable {scope inner : WalkScope} {nodes more : List (BlockMode × NodeIndex)} {a b c d : Context}

theorem append (first : w.Charts scope nodes a b) (owned : a.Owned) (owned' : b.Owned)
    (isOpen : scope.IsOpenIn a.table) (second : w.Charts scope more b c) :
    w.Charts scope (nodes ++ more) a c where
  spares := first.spares.trans second.spares
  writes := first.writes.trans owned owned' first.spares.grows _ isOpen second.spares second.writes
  gains body inside := by
    subst inside
    exact (first.gains body rfl).append first.spares.grows owned'.forest.scopes (isOpen _ rfl)
      second.spares (second.gains body rfl)

/-- What is done elsewhere adds nothing to a body. -/
theorem of_elsewhere (spares : a.table.Spares b.table none) (writes : w.WritesMethods a b)
    (isOpen : scope.IsOpenIn a.table) : w.Charts scope [] a b := by
  refine ⟨spares.weaken _, writes, fun body inside => ?_⟩
  subst inside
  obtain ⟨vars, blocks⟩ := spares.lists body (isOpen _ rfl) nofun
  exact .intro .nil (vars.trans (List.append_nil _).symm) .nil
    (blocks.trans (List.append_nil _).symm) .nil nofun

end Charts

/-! ### Visiting a node -/

/-- What the calls of a node do comes to no other node. -/
theorem Calls.trail {mode : BlockMode} {scope inner : WalkScope} {node : Node} {force : Bool}
    {nodes : List (BlockMode × NodeIndex)} {a b : Context}
    (calls : w.Calls mode scope node force a inner nodes b) : b.trail = a.trail := by
  cases calls with
  | header => rfl
  | method => simp
  | fields => simp [declareFields]
  | locals => simp [declareLocals]
  | handler => simp
  | mention => simp
  | block | statements | initializer | innerInitializer | loop | fileLoop | anonymousAtFile | children
  | stray => rfl

theorem visitedMethods_push {a b : Context} {e : Encounter} (trail : b.trail = a.trail.push e) :
    b.visitedMethods = a.visitedMethods ++ e.method?.toList := by
  rw [Context.visitedMethods, trail, Array.toList_push, List.filterMap_append,
    ← Context.visitedMethods]
  cases found : e.method? <;> simp [found]

section

variable {scope inner : WalkScope} {mode : BlockMode} {idx : NodeIndex} {node : Node}
  {remaining : Nat} {admission : Admission} {nodes : List (BlockMode × NodeIndex)}
  {a b c d : Context}

/-- An admitted node is put on the trail as it is offered to the policy, and the table stays. -/
theorem admits_table
    (admits : w.inspect remaining scope idx node a = (some admission, b)) :
    b.table = a.table ∧ b.visitedMethods = a.visitedMethods
      ++ (if scope.kind = .classBody then node.data.methodDecl?.map (w.file, ·) else none).toList := by
  have fresh := w.fresh_of_admits admits
  obtain ⟨log, is⟩ := w.inspect_changes a remaining scope idx node
  rw [admits] at is
  simp only at is
  refine ⟨by rw [is], ?_⟩
  rw [visitedMethods_push (show b.trail = _ by rw [is])]
  simp [Encounter.method?, inspected, encounter, fresh, offer]

/-- A node is visited: it is inspected, and does what it calls for, and the next nodes are visited. -/
theorem Charts.entered (isOpen : scope.IsOpenIn a.table) (found : w.arena.get? idx = some node)
    (admits : w.inspect remaining scope idx node a = (some admission, b))
    (entry : w.Entry mode scope node b inner nodes c) (trail : c.trail = b.trail)
    (inside : w.Charts inner nodes c d) : w.Charts scope [(mode, idx)] a d := by
  obtain ⟨sameTable, visits⟩ := admits_table admits
  have visits : c.visitedMethods = _ := (by rw [Context.visitedMethods, trail]; rfl :
    c.visitedMethods = b.visitedMethods).trans visits
  rw [WalkScope.IsOpenIn, ← sameTable] at isOpen
  obtain ⟨sparesInside, ⟨visits', enters', written'⟩, gains⟩ := inside
  cases entry with
  | stays noMethod methods spares joins =>
    have none : (if scope.kind = .classBody then node.data.methodDecl?.map (w.file, ·)
        else Option.none) = Option.none := by
      split
      · next inClass => rw [noMethod inClass]; rfl
      · rfl
    rw [none, Option.toList_none, List.append_nil] at visits
    refine ⟨?_, .intro (visits' ▸ visits ▸ rfl) ?_ written', fun body inBody => ?_⟩
    · rw [← sameTable]
      exact spares.trans sparesInside
    · rw [enters', SymbolTable.methodIds_of_size methods, sameTable]
    · subst inBody
      obtain ⟨own, is, appends⟩ := joins body rfl
      rw [← sameTable]
      exact (gains body rfl).joins found is appends spares.grows sparesInside
  | @opens ref id own _ _ noMethod methods inScope isNew spares vars blocks starts opens =>
    have around := isOpen ref inScope
    have closed : ¬ b.table.IsOpen (.block id) := fun below => by
      rw [SymbolTable.IsOpen, isNew] at below
      exact Nat.lt_irrefl _ below
    have none : (if scope.kind = .classBody then node.data.methodDecl?.map (w.file, ·)
        else Option.none) = Option.none := by rw [noMethod, Option.map_none, ite_self]
    rw [none, Option.toList_none, List.append_nil] at visits
    refine ⟨?_, .intro (visits' ▸ visits ▸ rfl) ?_ written', fun body inBody => ?_⟩
    · rw [← sameTable, inScope]
      exact spares.inside closed sparesInside
    · rw [enters', SymbolTable.methodIds_of_size methods, sameTable]
    · subst inBody
      obtain rfl : body.scope = ref := Option.some.inj inScope
      -- what is visited in the block leaves the body around it as it is
      obtain ⟨sameVars, sameBlocks⟩ := sparesInside.lists body (spares.grows.isOpen around)
        fun is => closed (by rwa [Option.some.inj is] at around)
      rw [← sameTable]
      exact Gains.opens found (opens body rfl) isNew (sameVars.trans vars) (sameBlocks.trans blocks)
        ((gains (.block id) rfl).fills sparesInside starts)
  | @method decl owner id _ is inClass isNew methods spares name isConstructor starts =>
    subst inClass
    have closed : ¬ b.table.IsOpen (.method id) := fun below => by
      rw [SymbolTable.IsOpen, isNew] at below
      exact Nat.lt_irrefl _ below
    have known : id.val < c.table.methods.size := by omega
    have newId : id = ⟨b.table.methods.size⟩ := MethodId.ext isNew
    obtain ⟨sameName, sameKind⟩ := sparesInside.method id known
    have written : w.IsWritten d.table decl id :=
      ⟨sameName.trans name, sameKind.trans isConstructor,
        (gains (.method id) rfl).fills sparesInside starts⟩
    rw [is, WalkScope.kind, if_pos rfl] at visits
    have all : List.Forall₂ (fun m id => m.1 = w.file ∧ w.IsWritten d.table m.2 id)
        ((w.file, decl) :: _) (id :: _) := .cons ⟨rfl, written⟩ written'
    refine ⟨?_, .intro ?_ ?_ all, by rintro _ ⟨⟩⟩
    · rw [← sameTable]
      exact (spares.inside closed sparesInside).weaken _
    · rw [visits', visits, List.append_assoc]
      rfl
    · rw [enters', SymbolTable.methodIds_succ methods, sameTable, List.append_assoc, newId,
        sameTable]
      rfl

end

/-! ### Declaring a class -/

/-- Something is done that leaves bodies alone, enters no method and comes to no node. -/
structure Aside (a b : Context) : Prop where
  spares : a.table.Spares b.table none
  methods : b.table.methods.size = a.table.methods.size
  trail : b.trail = a.trail

namespace Aside

variable {a b c : Context}

theorem of_written (written : a.table.SameWriting b.table) (grows : a.table.Grows b.table)
    (trail : b.trail = a.trail) : Aside a b :=
  ⟨.of_written written grows, written.methods_size, trail⟩

theorem of_silent (silent : a.Silent b) (trail : b.trail = a.trail) : Aside a b :=
  of_written silent.written silent.table.grows trail

theorem trans (first : Aside a b) (second : Aside b c) : Aside a c :=
  ⟨first.spares.trans second.spares, second.methods.trans first.methods,
    second.trail.trans first.trail⟩

theorem writes (aside : Aside a b) : w.WritesMethods a b :=
  .of_same (by rw [Context.visitedMethods, aside.trail]; rfl)
    (SymbolTable.methodIds_of_size aside.methods)

theorem numbered (ref : ScopeRef) (cx : Context) : Aside cx (numbered ref cx) :=
  of_written (.numberLocalClass _ _) (SymbolTable.Quiet.numberLocalClass _ _).grows rfl

theorem qualifiedName (scope : WalkScope) (simple : String) (cx : Context) :
    Aside cx (w.qualifiedName scope simple cx).2 := by
  have rest : Aside cx cx := of_silent (.refl cx) rfl
  cases scope with
  | file =>
    rw [Walk.qualifiedName]
    split <;> exact rest
  | classBody id => exact rest
  | body id =>
    exact of_written (.numberLocalClass _ _) (SymbolTable.Quiet.numberLocalClass _ _).grows rfl

theorem beginClass {qualified : String} {outer : Option ScopeRef} {head : Symbol → Symbol}
    {id : SymbolId} (begun : a.beginClass? qualified outer head = some (id, b))
    (isHead : Symbol.IsHead head) : Aside a b := by
  have grows := (Context.Precedes.beginClass begun isHead).table
  exact of_written (Context.beginClass_written begun isHead) grows (Context.beginClass_trail a begun)

end Aside

section

variable {scope : WalkScope} {mode : BlockMode} {node : Node} {id : SymbolId} {ref : ScopeRef}
  {nodes : List (BlockMode × NodeIndex)} {a b c : Context}

/-- A class is declared and completed around the visits of its members. -/
theorem Charts.class (owned : a.Owned) (isOpen : scope.IsOpenIn a.table) (steps : Steps a b)
    (begins : Aside a b) (inClass : b.table.IsOpen (.symbol id)) (run : Run b c)
    (members : w.Charts (.classBody id) nodes b c) : w.Charts scope [] a (c.defineComplete id) := by
  have stillOpen := run.precedes.table.isOpen inClass
  have completes : Aside c (c.defineComplete id) :=
    .of_silent (.defineComplete stillOpen) (c.defineComplete_trail id)
  have owned' := owned.steps steps
  have inside := members.spares.of_symbol
  have spares := begins.spares.trans inside
  have writes := begins.writes.trans owned owned' begins.spares.grows none nofun inside
    members.writes
  exact .of_elsewhere (spares.trans completes.spares) (writes.trans owned (owned'.steps run.steps)
    spares.grows none nofun completes.spares completes.writes) isOpen

/-- A class that a node declares is begun, and its parents are linked. -/
theorem declares_aside {decl : TypeDecl} (isOpen : scope.IsOpenIn a.table)
    (begun : (w.qualifiedName scope decl.name a).2.beginClass? (w.qualifiedName scope decl.name a).1
      scope.ref? decl.head = some (id, b)) (pos : Position) (qualified : String) :
    Steps a (w.linkParents id pos qualified decl b) ∧ Aside a (w.linkParents id pos qualified decl b)
      ∧ (w.linkParents id pos qualified decl b).table.IsOpen (.symbol id) := by
  have opens := opens_declared isOpen begun
  have linked := w.linkParents_run opens.isOpen pos qualified decl
  refine ⟨((w.qualifiedName_run isOpen decl.name).steps.opens opens).trans linked.steps, ?_,
    linked.precedes.table.isOpen opens.isOpen⟩
  have entered := (Aside.qualifiedName scope decl.name a).trans (.beginClass begun decl.head_isHead)
  exact entered.trans (.of_silent (w.linkParents_silent ..) (by simp [linkParents]))

/-- An anonymous class is begun, and its base is linked. -/
theorem declaresAnonymous_aside (isOpen : a.table.IsOpen ref)
    (begun : (numbered ref a).beginClass? (anonymousName ref a) (some ref) (fun s => s)
      = some (id, b)) (type : String) (pos : Position) :
    Steps a (b.linkType w.file (some ref) type pos (.anonymousBase id))
      ∧ Aside a (b.linkType w.file (some ref) type pos (.anonymousBase id))
      ∧ (b.linkType w.file (some ref) type pos (.anonymousBase id)).table.IsOpen (.symbol id) := by
  have opens := anonymous_opens isOpen begun
  have counted : Steps a (numbered ref a) := .single (.enter (.number isOpen))
  have stillAround := opens.precedes.table.isOpen (counted.precedes.table.isOpen isOpen)
  have linked := w.linkType_run stillAround type pos (.anonymousBase id) opens.isOpen
  refine ⟨(counted.opens opens).trans linked.steps, ?_, linked.precedes.table.isOpen opens.isOpen⟩
  have entered := (Aside.numbered ref a).trans (.beginClass begun fun _ => rfl)
  exact entered.trans (.of_silent (.linkType ..) (by simp))

/-- A class is no part of the body that it is declared in. -/
theorem portion_typeDecl {decl : TypeDecl} (is : node.data.typeDecl? = some decl) :
    node.data.methodDecl? = none ∧ w.portion mode node.data = .joins [] [] := by
  cases data : node.data with
  | classDef | interfaceDef => exact ⟨rfl, rfl⟩
  | _ =>
    rw [data] at is
    cases is

/-- A node of which nothing but further nodes lies in the scope. -/
theorem Entry.passes (noMethod : node.data.methodDecl? = none)
    (is : w.portion mode node.data = .joins [] nodes) : w.Entry mode scope node a scope nodes a :=
  .stays (fun _ => noMethod) rfl (.refl _ _) fun _ _ => ⟨[], is, .refl _ _⟩

end

/-! ### The whole journey -/

section

variable {idx : NodeIndex} {node : Node} {a b : Context} (accounts : a.log.Accounts)
include accounts

/-- A node that is nested too deeply is recorded. -/
theorem refuseDepth_prunes : ¬ (w.refuseDepth idx node a).log.PrunesNothing := by
  intro clean
  rw [refuseDepth_eq] at clean
  by_cases pruned : a.log.isPruned w.file idx
  · simp only [pruned, if_true] at clean
    rw [ErrorLog.isPruned, accounts clean] at pruned
    cases pruned
  · simp only [pruned, Bool.false_eq_true, if_false] at clean
    exact ErrorLog.not_prunesNothing_addPruning _ _ _ _ clean

/-- A node that is skipped has been recorded, or is recorded now. -/
theorem skips_prunes {remaining : Nat} {scope : WalkScope}
    (skips : w.inspect remaining scope idx node a = (none, b)) : ¬ b.log.PrunesNothing := by
  intro clean
  have inspection := w.inspect_inspection a remaining scope idx node
  rw [skips] at inspection
  cases inspection with
  | skipped pruned is =>
    obtain ⟨-, rfl⟩ := Prod.mk.inj is
    have fresh : a.log.pruned = [] := accounts clean
    rw [ErrorLog.isPruned, fresh] at pruned
    cases pruned
  | @refused first rest _ _ _ is =>
    obtain ⟨-, rfl⟩ := Prod.mk.inj is
    let pruned := (w.offered remaining scope idx node a).reportPruning w.file idx node.pos first
    have grown : pruned.log.diagnostics.toList
        <+: (w.reportAll node.pos rest pruned).log.diagnostics.toList := by
      rw [reportAll_eq, Array.toList_append]
      exact List.prefix_append _ _
    exact ErrorLog.not_prunesNothing_addPruning _ _ _ _ (clean.of_grown grown)
  | admitted _ _ is => cases is

end

/-- A journey without records that prune charts all that it visits. -/
theorem Journey.charts {scope : WalkScope} {nodes : List (BlockMode × NodeIndex)} {a b : Context}
    (journey : w.Journey scope nodes a b) (owned : a.Owned) (accounts : a.log.Accounts)
    (clean : b.log.PrunesNothing) : w.Charts scope nodes a b := by
  have before {scope : WalkScope} {nodes : List (BlockMode × NodeIndex)} {a b : Context}
      (journey : w.Journey scope nodes a b) (clean : b.log.PrunesNothing) : a.log.PrunesNothing :=
    clean.of_grown journey.run.precedes.log
  have later {a b : Context} (steps : Steps a b) (known : a.Owned ∧ a.log.Accounts) :
      b.Owned ∧ b.log.Accounts := ⟨known.1.steps steps, Context.accounts_steps steps known.2⟩
  have known : a.Owned ∧ a.log.Accounts := ⟨owned, accounts⟩
  clear owned accounts
  induction journey with
  | done scope a => exact ⟨.refl _ _, .of_same rfl rfl, fun body _ => .nil w body _⟩
  | absent missing _ ih =>
    obtain ⟨spares, writes, gains⟩ := ih clean known
    exact ⟨spares, writes, fun body inBody => (gains body inBody).absent missing⟩
  | refused _ _ after => exact absurd (before after clean) (refuseDepth_prunes known.2)
  | skipped _ _ skips after => exact absurd (before after clean) (skips_prunes known.2 skips)
  | @entered scope _ _ idx node remaining _ _ _ a b _ d _ isOpen found admits calls inside after
      ihInside ihAfter =>
    have isOpen' := Journeys.isOpen_inspected isOpen admits
    have first : Steps a b := by
      have steps := w.inspect_steps a remaining scope idx node
      rwa [admits] at steps
    have knownB := later first known
    have knownC := later (calls.run isOpen').1.steps knownB
    have knownD := later inside.run.steps knownC
    have head := Charts.entered isOpen found admits (calls.entry knownB.1 isOpen') calls.trail
      (ihInside (before after clean) knownC)
    exact head.append known.1 knownD.1 isOpen (ihAfter clean knownD)
  | duplicate _ _ _ _ after =>
    exact absurd (before after clean) (ErrorLog.not_prunesNothing_addPruning _ _ _ _)
  | @declared scope _ idx node remaining _ decl id _ a b c d _ isOpen found admits is begun inside
      after members ihAfter =>
    have isOpen' := Journeys.isOpen_inspected isOpen admits
    have first : Steps a b := by
      have steps := w.inspect_steps a remaining scope idx node
      rwa [admits] at steps
    obtain ⟨begins, aside, inClass⟩ :=
      w.declares_aside isOpen' begun node.pos (w.qualifiedName scope decl.name b).1
    have knownB := later first known
    have knownC := later begins knownB
    have knownE := later (.completes (.rest _) (inside.run.precedes.table.isOpen inClass))
      (later inside.run.steps knownC)
    have cleanE := before after clean
    have cleanD := cleanE.of_grown (Context.Precedes.defineComplete d id).log
    obtain ⟨noMethod, passed⟩ := w.portion_typeDecl is
    have head := Charts.entered isOpen found admits (.passes noMethod passed) rfl
      (.class knownB.1 isOpen' begins aside inClass inside.run (members cleanD knownC))
    exact head.append known.1 knownE.1 isOpen (ihAfter clean knownE)
  | anonymousDuplicate _ _ _ _ _ _ after =>
    exact absurd (before after clean) (ErrorLog.not_prunesNothing_addPruning _ _ _ _)
  | @anonymous scope ref mode idx node remaining _ outer type arguments _ id _ a b c d e _ isOpen found
      admits is inScope first begun inside after ihFirst members ihAfter =>
    have isOpen' := Journeys.isOpen_inspected isOpen admits
    have entered : Steps a b := by
      have steps := w.inspect_steps a remaining scope idx node
      rwa [admits] at steps
    have around := first.run.precedes.isOpenIn isOpen'
    obtain ⟨begins, aside, inClass⟩ :=
      w.declaresAnonymous_aside (around ref inScope) begun type node.pos
    have knownB := later entered known
    have knownC := later first.run.steps knownB
    have knownD := later begins knownC
    have knownE := later (.completes (.rest _) (inside.run.precedes.table.isOpen inClass))
      (later inside.run.steps knownD)
    have cleanE := before after clean
    have cleanD := cleanE.of_grown (Context.Precedes.defineComplete e id).log
    have cleanC := (before inside cleanD).of_grown begins.precedes.log
    have built := (ihFirst cleanC knownB).append knownB.1 knownC.1 isOpen'
      (.class knownC.1 around begins aside inClass inside.run (members cleanD knownD))
    rw [List.append_nil] at built
    have passes : w.Entry mode scope node b scope _ b :=
      .passes (by rw [is]; rfl) (by rw [is]; rfl)
    have head := Charts.entered isOpen found admits passes rfl built
    exact head.append known.1 knownE.1 isOpen (ihAfter clean knownE)

end Walk

end LevelCheck
