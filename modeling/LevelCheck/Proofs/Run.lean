import LevelCheck.Proofs.Growth
import LevelCheck.Proofs.Inspection
set_option autoImplicit false

/-! # What a walk can do to the state of a run

A walk changes the state of its run in few ways: it enters a method, variables or a block in an open
scope, writes a supertype, numbers a local class, links a type reference, records a problem, reads
the header of a file, and notes the nodes it comes to. A class is entered, then whatever happens
inside it, and last it is completed. `Steps` holds between two states when such acts lead from one to
the other: what each act keeps, all steps keep. A walk itself goes by deeds, which are few acts in a
row of which more is known: where problems come from, and which places are to be filled. `Run` holds
between two states when deeds lead from one to the other, with every class that is entered completed
in its turn. -/

namespace LevelCheck

/-- The variable lies in the scope, and its type has not been linked. -/
def Variable.IsNewIn (v : Variable) (scope : ScopeRef) : Prop :=
  v.enclosing = scope ∧ v.type.resolved = none

/-- The ways in which a walk changes the symbol table on its own. -/
inductive TableStep (t : SymbolTable) : SymbolTable → Prop where
  | number {scope : ScopeRef} (isOpen : t.IsOpen scope) :
      TableStep t (t.numberLocalClass (t.enclosingSymbol scope)).2
  | superclass {id : SymbolId} (isOpen : t.IsOpen (.symbol id)) {type : TypeRef}
      (known : type.resolved = none ∨ type = t.objectRef) :
      TableStep t (t.modifySymbol id fun s => { s with superclass := some type })
  | interface {id : SymbolId} (isOpen : t.IsOpen (.symbol id)) (written : String) :
      TableStep t (t.modifySymbol id fun s =>
        { s with interfaces := s.interfaces ++ [.unresolved written] })
  | method {owner : SymbolId} (isOpen : t.IsOpen (.symbol owner)) (name : String)
      (modifiers : Nat) (typeParams : List String) (returnType : Option String)
      (throws : List String) (isConstructor : Bool) :
      TableStep t (t.addMethod
        (.declared name owner modifiers typeParams returnType throws isConstructor)).2
  /-- Parameters are entered before any other variable of the method. -/
  | params {id : MethodId} (isOpen : t.IsOpen (.method id))
      (only : (t.method id).vars = (t.method id).params) {vars : List Variable}
      (areNew : ∀ v ∈ vars, v.IsNewIn (.method id)) : TableStep t (t.addParams id vars).2
  | fields {id : SymbolId} (isOpen : t.IsOpen (.symbol id)) {vars : List Variable}
      (areNew : ∀ v ∈ vars, v.IsNewIn (.symbol id)) : TableStep t (t.addFields id vars).2
  | locals {body : BodyId} (isOpen : t.IsOpen body.scope) {vars : List Variable}
      (areNew : ∀ v ∈ vars, v.IsNewIn body.scope) (policy : DuplicateScope) :
      TableStep t (t.addVars body vars policy).2
  | block {scope : ScopeRef} (isOpen : t.IsOpen scope) : TableStep t (t.addBlock scope).2

/-- The function changes what a file says about names, but not which file it is. -/
def FileScope.KeepsIdentity (f : FileScope → FileScope) : Prop :=
  ∀ file, (f file).name = file.name ∧ (f file).id = file.id ∧ (f file).level = file.level

/-- One act of a walk, the entering of a class and its completion apart. -/
inductive Act : Context → Context → Prop where
  | note (cx : Context) (e : Encounter) : Act cx { cx with trail := cx.trail.push e }
  | report (cx : Context) (file : FileId) (pos : Position) {p : Problem} (isLocal : p.IsLocal) :
      Act cx (cx.report file pos p)
  | prune (cx : Context) (file : FileId) (node : NodeIndex) (pos : Position) {p : Problem}
      (isLocal : p.IsLocal) : Act cx (cx.reportPruning file node pos p)
  /-- A node is nested too deeply. -/
  | refuse (cx : Context) (e : Encounter) (pos : Position) :
      Act cx (({ cx with trail := cx.trail.push e }).reportPruning e.file e.node pos
        (.nestingTooDeep cx.options.maxDepth))
  | header (cx : Context) (file : FileId) {f : FileScope → FileScope}
      (keeps : FileScope.KeepsIdentity f) : Act cx (cx.modifyFile file f)
  | enter {cx : Context} {t : SymbolTable} (step : TableStep cx.table t) :
      Act cx { cx with table := t }
  | link {cx : Context} (file : FileId) {scope : Option ScopeRef}
      (isOpen : ∀ s ∈ scope, cx.table.IsOpen s) (written : String) (pos : Position) {link : Link}
      (hasPlace : cx.table.HasPlace link) : Act cx (cx.linkType file scope written pos link)

/-- The declaration of a class begins. A class in a scope carries the name of the class around it
and a name of its own. -/
inductive Opens (cx : Context) (id : SymbolId) (next : Context) : Prop where
  | intro {qualified : String} {outer : Option ScopeRef} {head : Symbol → Symbol}
      (begun : cx.beginClass? qualified outer head = some (id, next))
      (isHead : Symbol.IsHead head) (around : ∀ s ∈ outer, cx.table.IsOpen s)
      (named : ∀ s ∈ outer, ∃ own, qualified
        = Resolution.memberName (cx.table.symbol (cx.table.enclosingSymbol s)).name own)

/-! ## Linking a reference -/

namespace Resolution

variable {t : SymbolTable} {f : FileScope} {enclosing : Option SymbolId} {name : String}

/-- The name that a reference waits for is one of the names it may denote. -/
theorem waitingName_mem_candidates : waitingName f name ∈ candidates t f enclosing name := by
  rw [candidates, List.mem_eraseDups, waitingName]
  by_cases dotted : isDotted name
  · simp [dotted, dottedCandidates]
  · simp only [dotted, Bool.false_eq_true, if_false, simpleCandidates]
    cases found : f.imports.find? fun i => Text.afterLast '.' i == name with
    | none => simp
    | some i =>
      -- the import that the name is taken from is among those that are tried
      have ends := List.find?_some found
      have imported : i ∈ f.imports.filter fun i => Text.afterLast '.' i == name :=
        List.mem_filter.2 ⟨List.mem_of_find?_eq_some found, ends⟩
      simp only [List.mem_append]
      exact .inl (.inl (.inl (.inr imported)))

/-- What a name resolves to, through the names it is tried as. -/
theorem ofName_found {id : SymbolId} (found : ofName t f enclosing name = .found id) :
    (names t f enclosing name).findSome? t.lookupDeclared? = some id
      ∨ Builtin.isPrimitive name ∧ t.lookup? name = some id := by
  have fromCandidates (h : ofCandidates t f enclosing name = .found id) :
      (candidates t f enclosing name).findSome? t.lookupDeclared? = some id := by
    rw [ofCandidates] at h
    split at h
    · cases h; assumption
    · cases h
  rw [ofName] at found
  by_cases primitive : Builtin.isPrimitive name
  · rw [if_pos primitive] at found
    split at found
    · cases found
      exact .inr ⟨primitive, by assumption⟩
    · next absent =>
      refine .inl ?_
      rw [names, absent]
      simpa using fromCandidates found
  · rw [if_neg primitive] at found
    refine .inl ?_
    simpa [names, primitive] using fromCandidates found

/-- What a name resolves to is a class of the table. -/
theorem ofName_known {id : SymbolId} (found : ofName t f enclosing name = .found id) :
    id.val < t.size := by
  rcases ofName_found found with candidate | ⟨-, primitive⟩
  · obtain ⟨tried, -, denoted⟩ := List.exists_of_findSome?_eq_some candidate
    exact (SymbolTable.lookup_eq_some (Option.filter_eq_some_iff.1 denoted).1).1
  · exact (SymbolTable.lookup_eq_some primitive).1

theorem ofName_pending {key : String} {alternatives : List String}
    (pending : ofName t f enclosing name = .pending key alternatives) :
    key = waitingName f name
      ∧ alternatives = (names t f enclosing name).filter (· != key)
      ∧ waitingName f name ∈ names t f enclosing name
      ∧ ∀ n ∈ names t f enclosing name, t.lookupDeclared? n = none := by
  -- a primitive name is tried as a candidate only if no class carries it
  have tried : names t f enclosing name = candidates t f enclosing name
      ∧ ofCandidates t f enclosing name = .pending key alternatives := by
    rw [ofName] at pending
    by_cases primitive : Builtin.isPrimitive name
    · rw [if_pos primitive] at pending
      split at pending
      · cases pending
      · next absent => exact ⟨by simp [names, absent], pending⟩
    · rw [if_neg primitive] at pending
      exact ⟨by simp [names, primitive], pending⟩
  obtain ⟨tried, pending⟩ := tried
  rw [ofCandidates] at pending
  split at pending
  · cases pending
  · next undeclared =>
    cases pending
    rw [tried]
    exact ⟨rfl, rfl, waitingName_mem_candidates, List.findSome?_eq_none_iff.1 undeclared⟩

end Resolution

/-- What linking a written type leads to: it refers to no class, or to one that is declared, or it
has to wait for one. -/
inductive Linking (cx : Context) (file : FileId) (scope : Option ScopeRef) (written : String)
    (pos : Position) (link : Link) (next : Context) : Prop where
  | none (is : next = cx)
  | now {f : FileScope} {target : SymbolId} (inRun : cx.file? file = some f)
      (found : Resolution.ofName cx.table f (scope.map cx.table.enclosingSymbol)
        (baseTypeName written) = .found target)
      (is : next = (cx.happened (.linked (cx.reference f file scope (baseTypeName written) pos link)
        target)).apply file pos link target)
  | later {f : FileScope} {r : Reference} (inRun : cx.file? file = some f)
      (met : r = cx.reference f file scope (baseTypeName written) pos link)
      (waits : r.key ∈ r.candidates)
      (undeclared : ∀ n ∈ r.candidates, cx.table.lookupDeclared? n = .none)
      (is : next = { cx.happened (.deferred r) with
        table := (cx.table.getOrAddPlaceholder r.key).2
        pending := cx.pending.request r.waiting })

theorem Context.linkType_linking (cx : Context) (file : FileId) (scope : Option ScopeRef)
    (written : String) (pos : Position) (link : Link) :
    Linking cx file scope written pos link (cx.linkType file scope written pos link) := by
  simp only [Context.linkType]
  split
  · exact .none rfl
  · cases inRun : cx.file? file with
    | none => exact .none rfl
    | some f =>
      simp only
      split
      · next target found => exact .now inRun found rfl
      · next key alternatives pending =>
        obtain ⟨isKey, others, waits, undeclared⟩ := Resolution.ofName_pending pending
        rw [others, isKey]
        refine .later inRun rfl ?_ ?_ ?_
        · simpa only [Context.reference] using waits
        · simpa only [Context.reference] using undeclared
        · simp only [Context.reference, Reference.waiting, Context.modifyTable, Context.happened]

/-! ## What a run keeps -/

namespace Context

/-- The second state comes after the first in a run: its table and its log have grown, and its files
and options are the same ones. -/
structure Precedes (a b : Context) : Prop where
  table : a.table.Grows b.table
  log : a.log.diagnostics.toList <+: b.log.diagnostics.toList
  options : b.options = a.options
  files : b.files.map (fun f => (f.name, f.id, f.level)) = a.files.map fun f => (f.name, f.id, f.level)

theorem Precedes.refl (cx : Context) : cx.Precedes cx := ⟨.refl _, List.prefix_rfl, rfl, rfl⟩

theorem Precedes.trans {a b c : Context} (first : a.Precedes b) (second : b.Precedes c) :
    a.Precedes c :=
  ⟨first.table.trans second.table, first.log.trans second.log,
    second.options.trans first.options, second.files.trans first.files⟩

theorem Precedes.happened (cx : Context) (e : Event) : cx.Precedes (cx.happened e) :=
  ⟨.refl _, List.prefix_rfl, rfl, rfl⟩

theorem Precedes.logged (cx : Context) {log : ErrorLog} {d : Diagnostic}
    (pushed : log.diagnostics = cx.log.diagnostics.push d) : cx.Precedes { cx with log } where
  table := .refl _
  log := by rw [pushed, Array.toList_push]; exact List.prefix_append _ _
  options := rfl
  files := rfl

theorem Precedes.report (cx : Context) (file : FileId) (pos : Position) (p : Problem) :
    cx.Precedes (cx.report file pos p) := .logged cx rfl

theorem Precedes.apply (cx : Context) (file : FileId) (pos : Position) (link : Link)
    (target : SymbolId) : cx.Precedes (cx.apply file pos link target) := by
  have filled : cx.Precedes (cx.modifyTable fun t => t.fill link target) :=
    ⟨(SymbolTable.Quiet.fill _ _ _).grows, List.prefix_rfl, rfl, rfl⟩
  rw [Context.apply]
  split
  · exact filled.trans (.report _ _ _ _)
  · exact filled

theorem Precedes.resume (cx : Context) (r : PendingReference) (target : SymbolId) :
    cx.Precedes (Context.resume r target cx) :=
  (Precedes.happened cx (.resumed r target)).trans (.apply _ r.file r.position r.link target)

theorem Precedes.resumeAll (cx : Context) (released : List PendingReference) (target : SymbolId) :
    cx.Precedes (released.foldl (fun cx r => Context.resume r target cx) cx) := by
  induction released generalizing cx with
  | nil => exact .refl cx
  | cons r rest ih =>
    rw [List.foldl_cons]
    exact (Precedes.resume cx r target).trans (ih _)

theorem Precedes.linkType (cx : Context) (file : FileId) (scope : Option ScopeRef)
    (written : String) (pos : Position) (link : Link) :
    cx.Precedes (cx.linkType file scope written pos link) := by
  cases cx.linkType_linking file scope written pos link with
  | none is => rw [is]; exact .refl cx
  | now inRun found is => rw [is]; exact (Precedes.happened cx _).trans (.apply _ _ _ _ _)
  | later inRun met waits undeclared is =>
    rw [is]
    exact ⟨SymbolTable.Grows.getOrAddPlaceholder _ _, List.prefix_rfl, rfl, rfl⟩

/-- The references that wait for a class when it is completed. -/
def waitingFor (cx : Context) (id : SymbolId) : List PendingReference × Pending :=
  cx.pending.release ((cx.table.finishDefinition id).symbol id).name

theorem defineComplete_eq (cx : Context) (id : SymbolId) :
    cx.defineComplete id
      = (cx.waitingFor id).1.foldl (fun cx r => Context.resume r id cx)
          { cx with table := cx.table.finishDefinition id, pending := (cx.waitingFor id).2 } := rfl

theorem Precedes.defineComplete (cx : Context) (id : SymbolId) :
    cx.Precedes (cx.defineComplete id) := by
  rw [defineComplete_eq]
  refine Precedes.trans ?_ (Precedes.resumeAll _ _ id)
  exact ⟨SymbolTable.Grows.finishDefinition _ id, List.prefix_rfl, rfl, rfl⟩

theorem beginClass_some {cx next : Context} {qualified : String} {outer : Option ScopeRef}
    {head : Symbol → Symbol} {id : SymbolId}
    (begun : cx.beginClass? qualified outer head = some (id, next)) :
    ∃ t, cx.table.beginDefinition qualified = .ok (id, t)
      ∧ next = { cx.happened (.began qualified) with table := t.enterClass id outer head } := by
  rw [beginClass?] at begun
  split at begun
  · cases begun
  · next t started =>
    cases begun
    exact ⟨t, started, rfl⟩

end Context

theorem TableStep.grows {t t' : SymbolTable} (step : TableStep t t') : t.Grows t' := by
  cases step with
  | number isOpen => exact (SymbolTable.Quiet.numberLocalClass _ _).grows
  | superclass isOpen known => exact .modifySymbol _ _ (fun _ => rfl) (fun _ h => h)
  | interface isOpen written => exact .modifySymbol _ _ (fun _ => rfl) (fun _ h => h)
  | method isOpen => exact .addMethod _ _
  | params isOpen only areNew => exact .addParams _ _ _
  | fields isOpen areNew => exact .addFields _ _ _
  | locals isOpen areNew policy => exact .addVars _ _ _ _
  | block isOpen => exact .addBlock _ _

theorem Act.precedes {a b : Context} (act : Act a b) : a.Precedes b := by
  cases act with
  | note e => exact ⟨.refl _, List.prefix_rfl, rfl, rfl⟩
  | report file pos isLocal => exact .report _ _ _ _
  | prune file node pos isLocal => exact .logged a rfl
  | refuse e pos => exact ⟨.refl _, by simp [Context.reportPruning, ErrorLog.addPruning], rfl, rfl⟩
  | header file keeps =>
    refine ⟨.refl _, List.prefix_rfl, rfl, ?_⟩
    exact map_modify _ _ _ (fun f : FileScope => (f.name, f.id, f.level))
      fun f => by rw [(keeps f).1, (keeps f).2.1, (keeps f).2.2]
  | enter step => exact ⟨step.grows, List.prefix_rfl, rfl, rfl⟩
  | link file isOpen written pos hasPlace => exact .linkType _ _ _ _ _ _

theorem Context.Precedes.beginClass {cx next : Context} {qualified : String}
    {outer : Option ScopeRef} {head : Symbol → Symbol} {id : SymbolId}
    (begun : cx.beginClass? qualified outer head = some (id, next)) (isHead : Symbol.IsHead head) :
    cx.Precedes next := by
  obtain ⟨t, started, rfl⟩ := Context.beginClass_some begun
  exact ⟨(SymbolTable.Grows.beginDefinition started).trans (.enterClass t id _ isHead),
    List.prefix_rfl, rfl, rfl⟩

theorem Opens.precedes {a b : Context} {id : SymbolId} (opens : Opens a id b) : a.Precedes b := by
  obtain ⟨begun, isHead, -, -⟩ := opens
  exact .beginClass begun isHead

/-- A class that is entered is open. -/
theorem Context.beginClass_isOpen {cx next : Context} {qualified : String}
    {outer : Option ScopeRef} {head : Symbol → Symbol} {id : SymbolId}
    (begun : cx.beginClass? qualified outer head = some (id, next)) (isHead : Symbol.IsHead head) :
    next.table.IsOpen (.symbol id) := by
  obtain ⟨t, started, rfl⟩ := Context.beginClass_some begun
  obtain ⟨known, -, visiting⟩ := SymbolTable.beginDefinition_named started
  refine (SymbolTable.Grows.enterClass t id _ isHead).isOpen ⟨known, ?_⟩
  rw [Symbol.isDeclared, visiting]
  decide

theorem Opens.isOpen {a b : Context} {id : SymbolId} (opens : Opens a id b) :
    b.table.IsOpen (.symbol id) := by
  obtain ⟨begun, isHead, -, -⟩ := opens
  exact Context.beginClass_isOpen begun isHead

/-! ## Steps -/

/-- The walk comes from the first state to the second, possibly inside of classes that it has entered
and not completed. -/
inductive Steps : Context → Context → Prop where
  | rest (a : Context) : Steps a a
  | act {a b c : Context} (before : Steps a b) (act : Act b c) : Steps a c
  | opens {a b c : Context} {id : SymbolId} (before : Steps a b) (opens : Opens b id c) : Steps a c
  | completes {a b : Context} {id : SymbolId} (before : Steps a b)
      (isOpen : b.table.IsOpen (.symbol id)) : Steps a (b.defineComplete id)

namespace Steps

theorem single {a b : Context} (act : Act a b) : Steps a b := .act (.rest a) act

theorem trans {a b c : Context} (first : Steps a b) (second : Steps b c) : Steps a c := by
  induction second with
  | rest => exact first
  | act _ act ih => exact .act ih act
  | opens _ opens ih => exact .opens ih opens
  | completes _ isOpen ih => exact .completes ih isOpen

theorem precedes {a b : Context} (steps : Steps a b) : a.Precedes b := by
  induction steps with
  | rest => exact .refl a
  | act _ act ih => exact ih.trans act.precedes
  | opens _ opens ih => exact ih.trans opens.precedes
  | completes _ isOpen ih => exact ih.trans (Context.Precedes.defineComplete _ _)

/-- What every act keeps, and what the beginning and the completion of a class keep, holds in every
state that a walk comes to. -/
theorem keeps {P : Context → Prop} (act : ∀ {a b : Context}, Act a b → P a → P b)
    (opens : ∀ {a b : Context} {id : SymbolId}, Opens a id b → P a → P b)
    (completes : ∀ {cx : Context} {id : SymbolId}, cx.table.IsOpen (.symbol id) → P cx →
      P (cx.defineComplete id))
    {a b : Context} (steps : Steps a b) (holds : P a) : P b := by
  induction steps with
  | rest => exact holds
  | act _ step ih => exact act step ih
  | opens _ begins ih => exact opens begins ih
  | completes _ isOpen ih => exact completes isOpen ih

end Steps

/-! ## Deeds -/

namespace Walk

variable (w : Walk) (cx : Context)

theorem reportAll_steps (pos : Position) {problems : List Problem}
    (areLocal : ∀ p ∈ problems, p.IsLocal) : Steps cx (w.reportAll pos problems cx) := by
  induction problems generalizing cx with
  | nil => exact .rest cx
  | cons p rest ih =>
    have first : Steps cx (cx.report w.file pos p) :=
      .single (.report cx w.file pos (areLocal p List.mem_cons_self))
    exact first.trans (ih _ fun p isIn => areLocal p (List.mem_cons_of_mem _ isIn))

theorem inspect_steps (remaining : Nat) (scope : WalkScope) (idx : NodeIndex) (node : Node) :
    Steps cx (w.inspect remaining scope idx node cx).2 := by
  have areLocal := fun p isIn => (w.rulingOn_isRuled cx scope node p isIn).isLocal
  have noted : Steps cx (w.offered remaining scope idx node cx) := .single (.note cx _)
  cases w.inspect_inspection cx remaining scope idx node with
  | skipped pruned is =>
    rw [is]
    exact .single (.note cx _)
  | @refused p rest fresh _ raised is =>
    -- the first problem prunes the node, and the others follow
    rw [raised] at areLocal
    have pruned := noted.act (.prune _ w.file idx node.pos (areLocal p List.mem_cons_self))
    rw [is]
    exact pruned.trans (w.reportAll_steps _ node.pos
      fun p isIn => areLocal p (List.mem_cons_of_mem _ isIn))
  | admitted fresh _ is =>
    rw [is]
    exact noted.trans (w.reportAll_steps _ node.pos areLocal)

theorem refuseDepth_steps (idx : NodeIndex) (node : Node) :
    Steps cx (w.refuseDepth idx node cx) := by
  rw [refuseDepth]
  split
  · exact .single (.note cx _)
  · exact .single (.refuse cx _ node.pos)

end Walk

/-- One deed of a walk, the entering of a class and its completion apart. The problems that a policy
raises are recorded with the inspection of a node. Of those recorded otherwise, none is a policy's.
A reference to a supertype is one of a class that is declared. -/
inductive Deed : Context → Context → Prop where
  | inspect (cx : Context) (w : Walk) (remaining : Nat) (scope : WalkScope) (idx : NodeIndex)
      (node : Node) : Deed cx (w.inspect remaining scope idx node cx).2
  | refuse (cx : Context) (w : Walk) (idx : NodeIndex) (node : Node) :
      Deed cx (w.refuseDepth idx node cx)
  | report (cx : Context) (file : FileId) (pos : Position) {p : Problem} (isOwn : p.IsOwn) :
      Deed cx (cx.report file pos p)
  | prune (cx : Context) (file : FileId) (node : NodeIndex) (pos : Position) {p : Problem}
      (isOwn : p.IsOwn) : Deed cx (cx.reportPruning file node pos p)
  | header (cx : Context) (file : FileId) {f : FileScope → FileScope}
      (keeps : FileScope.KeepsIdentity f) : Deed cx (cx.modifyFile file f)
  | enter {cx : Context} {t : SymbolTable} (step : TableStep cx.table t) :
      Deed cx { cx with table := t }
  | link {cx : Context} (file : FileId) {scope : Option ScopeRef}
      (isOpen : ∀ s ∈ scope, cx.table.IsOpen s) (written : String) (pos : Position) {link : Link}
      (openPlace : cx.table.OpenPlace link) : Deed cx (cx.linkType file scope written pos link)

theorem Deed.steps {a b : Context} (deed : Deed a b) : Steps a b := by
  cases deed with
  | inspect w remaining scope idx node => exact w.inspect_steps a remaining scope idx node
  | refuse w idx node => exact w.refuseDepth_steps a idx node
  | report file pos isOwn => exact .single (.report a file pos isOwn.isLocal)
  | prune file node pos isOwn => exact .single (.prune a file node pos isOwn.isLocal)
  | header file keeps => exact .single (.header a file keeps)
  | enter step => exact .single (.enter step)
  | link file isOpen written pos openPlace =>
    exact .single (.link file isOpen written pos openPlace.hasPlace)

/-- Deeds of a walk in a row, each class that is entered being completed before the walk leaves it. -/
inductive Run : Context → Context → Prop where
  | rest (cx : Context) : Run cx cx
  | deed {a b : Context} (deed : Deed a b) : Run a b
  | trans {a b c : Context} (first : Run a b) (second : Run b c) : Run a c
  | declare {a b c : Context} {id : SymbolId} (opens : Opens a id b) (inside : Run b c) :
      Run a (c.defineComplete id)

/-- Deeds of a walk in a row, possibly inside of classes that it has entered and not completed. -/
inductive Course : Context → Context → Prop where
  | rest (a : Context) : Course a a
  | deed {a b c : Context} (before : Course a b) (deed : Deed b c) : Course a c
  | opens {a b c : Context} {id : SymbolId} (before : Course a b) (opens : Opens b id c) : Course a c
  | completes {a b : Context} {id : SymbolId} (before : Course a b)
      (isOpen : b.table.IsOpen (.symbol id)) : Course a (b.defineComplete id)

theorem Run.steps {a b : Context} (run : Run a b) : Steps a b := by
  induction run with
  | rest cx => exact .rest cx
  | deed deed => exact deed.steps
  | trans _ _ first second => exact first.trans second
  | declare opens _ inside =>
    have isOpen := inside.precedes.table.isOpen opens.isOpen
    exact .completes ((Steps.opens (.rest _) opens).trans inside) isOpen

theorem Run.precedes {a b : Context} (run : Run a b) : a.Precedes b := run.steps.precedes

namespace Course

theorem trans {a b c : Context} (first : Course a b) (second : Course b c) : Course a c := by
  induction second with
  | rest => exact first
  | deed _ deed ih => exact .deed ih deed
  | opens _ opens ih => exact .opens ih opens
  | completes _ isOpen ih => exact .completes ih isOpen

theorem of_run {a b : Context} (run : Run a b) : Course a b := by
  induction run with
  | rest cx => exact .rest cx
  | deed deed => exact .deed (.rest _) deed
  | trans _ _ first second => exact first.trans second
  | declare opens inside ih =>
    have isOpen := inside.precedes.table.isOpen opens.isOpen
    exact .completes ((Course.opens (.rest _) opens).trans ih) isOpen

theorem steps {a b : Context} (course : Course a b) : Steps a b := by
  induction course with
  | rest => exact .rest a
  | deed _ deed ih => exact ih.trans deed.steps
  | opens _ opens ih => exact .opens ih opens
  | completes _ isOpen ih => exact .completes ih isOpen

theorem precedes {a b : Context} (course : Course a b) : a.Precedes b := course.steps.precedes

/-- What every deed keeps, and what the beginning and the completion of a class keep, holds in every
state that a walk comes to. -/
theorem keeps {P : Context → Prop} (deed : ∀ {a b : Context}, Deed a b → P a → P b)
    (opens : ∀ {a b : Context} {id : SymbolId}, Opens a id b → P a → P b)
    (completes : ∀ {cx : Context} {id : SymbolId}, cx.table.IsOpen (.symbol id) → P cx →
      P (cx.defineComplete id))
    {a b : Context} (course : Course a b) (holds : P a) : P b := by
  induction course with
  | rest => exact holds
  | deed _ step ih => exact deed step ih
  | opens _ begins ih => exact opens begins ih
  | completes _ isOpen ih => exact completes isOpen ih

end Course

/-- What every act keeps, and what the beginning and the completion of a class keep, a run keeps. -/
theorem Run.keeps {P : Context → Prop} (act : ∀ {a b : Context}, Act a b → P a → P b)
    (opens : ∀ {a b : Context} {id : SymbolId}, Opens a id b → P a → P b)
    (completes : ∀ {cx : Context} {id : SymbolId}, cx.table.IsOpen (.symbol id) → P cx →
      P (cx.defineComplete id))
    {a b : Context} (run : Run a b) (holds : P a) : P b :=
  run.steps.keeps act opens completes holds

end LevelCheck
