import LevelCheck.Proofs.RunHistory
set_option autoImplicit false

/-! # What becomes of references

At the end of a run every reference to a class has had one of three fates: it was linked as soon as
it was met, it waited and was linked later, or it was recorded as unresolved. The last happens when
no class that it may denote is builtin or declared anywhere in the batch. -/

namespace LevelCheck

/-- A waiting reference may denote what it might denote when it was met. -/
theorem Reference.mem_waiting {r : Reference} (waits : r.key ∈ r.candidates) (name : String) :
    name ∈ r.waiting.name :: r.waiting.alternatives ↔ name ∈ r.candidates := by
  simp only [Reference.waiting, List.mem_cons, List.mem_filter, bne_iff_ne]
  by_cases is : name = r.key
  · simp [is, waits]
  · simp [is]

namespace Context

/-- The records of references that were never resolved. -/
def unresolvedRecords (cx : Context) : List Diagnostic :=
  cx.log.diagnostics.toList.filter fun d => d.code == 2001

/-! ## Resuming and abandoning -/

/-- The references of the entries have been linked, and nothing else has happened. -/
structure Resumed (a b : Context) (entries : List (PendingReference × SymbolId)) : Prop where
  precedes : a.Precedes b
  roll : b.table.roll = a.table.roll
  pending : b.pending = a.pending
  history : b.history.toList = a.history.toList ++ entries.map fun e => .resumed e.1 e.2
  records : b.unresolvedRecords = a.unresolvedRecords

theorem unresolvedRecords_push {a b : Context} {d : Diagnostic}
    (is : b.log.diagnostics = a.log.diagnostics.push d) :
    b.unresolvedRecords = a.unresolvedRecords ++ if d.code == 2001 then [d] else [] := by
  rw [unresolvedRecords, unresolvedRecords, is, Array.toList_push, List.filter_append,
    List.filter_cons, List.filter_nil]

theorem apply_records (cx : Context) (file : FileId) (pos : Position) (link : Link)
    (target : SymbolId) : (cx.apply file pos link target).pending = cx.pending
      ∧ (cx.apply file pos link target).history = cx.history
      ∧ (cx.apply file pos link target).unresolvedRecords = cx.unresolvedRecords := by
  have isOwn := linkProblem_isOwn (cx.modifyTable fun t => t.fill link target).table link target
  rw [apply]
  split
  · next p found =>
    have other : (p.code == 2001) = false := beq_eq_false_iff_ne.2 (isOwn p found).isLocal.code_ne.2
    refine ⟨rfl, rfl, (unresolvedRecords_push rfl).trans ?_⟩
    rw [Diagnostic.ofProblem, Diagnostic.error, other]
    exact List.append_nil _
  · exact ⟨rfl, rfl, rfl⟩

theorem resume_resumed (r : PendingReference) (target : SymbolId) (cx : Context) :
    cx.Resumed (resume r target cx) [(r, target)] := by
  obtain ⟨pending, history, records⟩ :=
    apply_records (cx.happened (.resumed r target)) r.file r.position r.link target
  refine ⟨.resume cx r target, apply_roll _ _ _ _ _, pending, ?_, records⟩
  rw [resume, history, happened, Array.toList_push, List.map_cons, List.map_nil]

theorem resumeEach_resumed (entries : List (PendingReference × SymbolId)) (cx : Context) :
    cx.Resumed (entries.foldl (fun cx e => resume e.1 e.2 cx) cx) entries := by
  induction entries generalizing cx with
  | nil => exact ⟨.refl cx, rfl, rfl, (List.append_nil _).symm, rfl⟩
  | cons e rest ih =>
    have first := resume_resumed e.1 e.2 cx
    have later := ih (resume e.1 e.2 cx)
    refine ⟨first.precedes.trans later.precedes, later.roll.trans first.roll,
      later.pending.trans first.pending, ?_, later.records.trans first.records⟩
    rw [List.foldl_cons, later.history, first.history, List.append_assoc]
    rfl

theorem Precedes.fileName {a b : Context} (precedes : a.Precedes b) (file : FileId) :
    b.fileName file = a.fileName file := by
  have same := congrArg (fun files => files[file.val]?.map (·.1)) precedes.files
  simp only [Array.getElem?_map, Option.map_map, Function.comp_def] at same
  rw [Context.fileName, Context.fileName, file?, file?]
  cases here : b.files[file.val]? <;> cases there : a.files[file.val]? <;> simp_all

/-- The references have been recorded as unresolved, each for its own file, and nothing else has
happened. -/
structure Abandoned (a b : Context) (stuck : List PendingReference) : Prop where
  precedes : a.Precedes b
  table : b.table = a.table
  pending : b.pending = a.pending
  history : b.history.toList = a.history.toList ++ stuck.map .abandoned
  records : b.unresolvedRecords = a.unresolvedRecords
    ++ stuck.map fun r => r.unresolvedDiagnostic (a.fileName r.file)

theorem abandon_abandoned (cx : Context) (r : PendingReference) :
    cx.Abandoned (abandon cx r) [r] := by
  have pushed : (abandon cx r).log.diagnostics
      = cx.log.diagnostics.push (r.unresolvedDiagnostic (cx.fileName r.file)) := rfl
  refine ⟨(Precedes.happened cx (.abandoned r)).trans (.logged _ pushed), rfl, rfl, ?_, ?_⟩
  · rw [abandon, happened, Array.toList_push, List.map_cons, List.map_nil]
  · rw [unresolvedRecords_push pushed]
    rfl

theorem abandonEach_abandoned (stuck : List PendingReference) (cx : Context) :
    cx.Abandoned (stuck.foldl abandon cx) stuck := by
  induction stuck generalizing cx with
  | nil => exact ⟨.refl cx, rfl, rfl, (List.append_nil _).symm, (List.append_nil _).symm⟩
  | cons r rest ih =>
    have first := abandon_abandoned cx r
    have later := ih (abandon cx r)
    refine ⟨first.precedes.trans later.precedes, later.table.trans first.table,
      later.pending.trans first.pending, ?_, ?_⟩
    · rw [List.foldl_cons, later.history, first.history, List.append_assoc]
      rfl
    · rw [List.foldl_cons, later.records, first.records, List.append_assoc]
      rfl

/-- What settling a run does. -/
structure Settles (a b : Context) : Prop where
  precedes : a.Precedes b
  roll : b.table.roll = a.table.roll
  pending : b.pending = .empty
  history : b.history.toList = a.history.toList
    ++ ((a.pending.ready a.table).map (fun e => .resumed e.1 e.2)
      ++ (a.pending.stuck a.table).map .abandoned)
  records : b.unresolvedRecords = a.unresolvedRecords
    ++ (a.pending.stuck a.table).map fun r => r.unresolvedDiagnostic (b.fileName r.file)

theorem settle_settles (cx : Context) : cx.Settles cx.settle := by
  rw [settle_eq]
  have resumed := resumeEach_resumed (cx.pending.ready cx.table) { cx with pending := .empty }
  generalize List.foldl _ _ (cx.pending.ready cx.table) = next at *
  have abandoned := abandonEach_abandoned (cx.pending.stuck cx.table) next
  generalize List.foldl abandon next _ = last at *
  -- the pending references are set aside first, which no growth depends on
  have precedes : cx.Precedes next :=
    ⟨resumed.precedes.table, resumed.precedes.log, resumed.precedes.options,
      resumed.precedes.files⟩
  refine ⟨precedes.trans abandoned.precedes, ?_, abandoned.pending.trans resumed.pending, ?_, ?_⟩
  · rw [abandoned.table, resumed.roll]
  · rw [abandoned.history, resumed.history, List.append_assoc]
  · rw [abandoned.records, resumed.records]
    simp only [abandoned.precedes.fileName]
    rfl

/-! ## The fates of references -/

/-- The class of the name has been visited. -/
def visits (cx : Context) (name : String) : Bool := (cx.table.lookupComplete? name).isSome

/-- Some class that the reference may denote has been visited. -/
def resolves (cx : Context) (r : Reference) : Bool := r.candidates.any cx.visits

/-- The class has been visited, and carries one of the names. -/
def IsClassOf (cx : Context) (target : SymbolId) (names : List String) : Prop :=
  target.val < cx.table.size ∧ (cx.table.symbol target).isComplete
    ∧ (cx.table.symbol target).name ∈ names

/-- A class that a reference is linked to has been visited under its name. -/
theorem IsClassOf.visits {cx : Context} (unique : cx.table.UniqueNames) {target : SymbolId}
    {names : List String} (isClass : cx.IsClassOf target names) :
    cx.visits (cx.table.symbol target).name :=
  (unique.lookupComplete_isSome _).2 ⟨target, isClass.1, rfl, isClass.2.1⟩

/-- The account of a settled run. Each reference that was met has been linked at once, or resumed, or
abandoned, and the last exactly if nothing that it may denote has been visited. -/
structure Settled (cx : Context) : Prop where
  /-- No reference is left waiting. -/
  pending : cx.pending = .empty
  /-- A reference that was linked at once is linked to one of its candidates. -/
  linked : ∀ e ∈ cx.linkedRefs, cx.IsClassOf e.2 e.1.candidates
  /-- The references that were resumed are those that had to wait and can be resolved. -/
  resumed : (cx.resumedRefs.map (·.1)).Perm ((cx.deferredRefs.filter cx.resolves).map Reference.waiting)
  /-- A reference that was resumed is linked to one of its candidates. -/
  target : ∀ e ∈ cx.resumedRefs, cx.IsClassOf e.2 (e.1.name :: e.1.alternatives)
  /-- The references that were abandoned are those that had to wait and cannot be resolved. -/
  abandoned : cx.abandonedRefs.Perm
    ((cx.deferredRefs.filter fun r => !cx.resolves r).map Reference.waiting)
  /-- Every abandoned reference is recorded, for its own file and position, and nothing else is
  recorded as unresolved. -/
  records : cx.unresolvedRecords
    = cx.abandonedRefs.map fun r => r.unresolvedDiagnostic (cx.fileName r.file)
  /-- The files of abandoned references are those of the run. -/
  files : ∀ r ∈ cx.abandonedRefs, ∃ f, cx.file? r.file = some f
  /-- The names that waiting references may denote are the candidates. -/
  candidates : ∀ r ∈ cx.deferredRefs, ∀ name,
    name ∈ r.waiting.name :: r.waiting.alternatives ↔ name ∈ r.candidates
  /-- What has been visited is builtin or declared by some file of the run. -/
  visited : ∀ name, cx.visits name ↔ name ∈ Builtin.names ∨ .began name ∈ cx.history.toList

/-- A reference that had to wait and can be resolved has been linked. -/
theorem Settled.exists_resumed {cx : Context} (settled : cx.Settled) {r : Reference}
    (deferred : r ∈ cx.deferredRefs) (resolves : cx.resolves r) :
    ∃ target, (r.waiting, target) ∈ cx.resumedRefs := by
  have waited : r.waiting ∈ cx.resumedRefs.map (·.1) :=
    settled.resumed.mem_iff.2 (List.mem_map_of_mem (List.mem_filter.2 ⟨deferred, resolves⟩))
  obtain ⟨⟨_, target⟩, resumed, rfl⟩ := List.mem_map.1 waited
  exact ⟨target, resumed⟩

theorem target_isSome (r : PendingReference) (cx : Context) :
    (r.target? cx.table).isSome = (r.name :: r.alternatives).any cx.visits := by
  rw [PendingReference.target?, List.isSome_findSome?]
  rfl

/-- A waiting reference denotes a visited class if one of its candidates does. -/
theorem target_waiting_isSome {cx : Context} {r : Reference} (waits : r.key ∈ r.candidates) :
    (r.waiting.target? cx.table).isSome = cx.resolves r := by
  rw [target_isSome, resolves, Bool.eq_iff_iff, List.any_eq_true, List.any_eq_true]
  exact exists_congr fun name => and_congr_left' (Reference.mem_waiting waits name)

/-- Every reference to a class is met: its place is filled at once or it begins to wait, and the account
says so. -/
theorem linkType_meets {cx : Context} {file : FileId} {f : FileScope}
    (inRun : cx.file? file = some f) {scope : Option ScopeRef} {written : String}
    (names : cx.namesNoClass scope (baseTypeName written) = false) (pos : Position) (link : Link)
    {r : Reference} (is : r = cx.reference f file scope (baseTypeName written) pos link) :
    ∃ e, (cx.linkType file scope written pos link).history = cx.history.push e
      ∧ (e = .deferred r
          ∧ (cx.linkType file scope written pos link).pending = cx.pending.request r.waiting
        ∨ ∃ target, e = .linked r target
          ∧ (cx.linkType file scope written pos link).table = cx.table.fill link target) := by
  subst is
  simp only [Context.linkType, names, Bool.false_eq_true, if_false, inRun]
  split
  · next target found =>
    exact ⟨_, (apply_records _ _ _ _ _).2.1, .inr ⟨target, rfl, apply_table _ _ _ _ _⟩⟩
  · next key alternatives pending =>
    obtain ⟨isKey, others, -⟩ := Resolution.ofName_pending pending
    refine ⟨_, rfl, .inl ⟨rfl, ?_⟩⟩
    simp only [reference, Reference.waiting, others, isKey, modifyTable, happened]

namespace Ledger

variable {cx : Context} (ledger : cx.Ledger [])
include ledger

/-- Nothing has been abandoned before a run is settled. -/
theorem abandonedRefs_eq : cx.abandonedRefs = [] := by
  rw [abandonedRefs, List.filterMap_eq_nil_iff]
  intro e happened
  obtain ⟨before, after, is⟩ := List.append_of_mem happened
  cases e with
  | abandoned r => exact (ledger.chronicle.fits before _ after is).elim
  | _ => rfl

theorem unresolvedRecords_eq : cx.unresolvedRecords = [] := by
  rw [unresolvedRecords, List.filter_eq_nil_iff]
  intro d recorded
  rw [beq_iff_eq]
  exact ledger.log d recorded

/-- Of two events, what was linked at once denotes a declared candidate, what waits does so under one
of its candidates, and what was resumed denotes the class it waited for. -/
theorem linked_fits {e : Reference × SymbolId} (linked : e ∈ cx.linkedRefs) :
    cx.table.IsOpen (.symbol e.2) ∧ (cx.table.symbol e.2).name ∈ e.1.candidates := by
  obtain ⟨event, happened, is⟩ := List.mem_filterMap.1 linked
  obtain ⟨before, after, split⟩ := List.append_of_mem happened
  have fits := ledger.chronicle.fits before event after split
  cases event with
  | linked r target =>
    obtain rfl := Option.some.inj is
    exact ⟨fits.1, List.mem_of_find?_eq_some fits.2⟩
  | _ => cases is

theorem deferred_fits {r : Reference} (deferred : r ∈ cx.deferredRefs) : r.key ∈ r.candidates := by
  obtain ⟨event, happened, is⟩ := List.mem_filterMap.1 deferred
  obtain ⟨before, after, split⟩ := List.append_of_mem happened
  have fits := ledger.chronicle.fits before event after split
  cases event with
  | deferred r' =>
    obtain rfl := Option.some.inj is
    exact fits.1
  | _ => cases is

theorem resumed_fits {e : PendingReference × SymbolId} (resumed : e ∈ cx.resumedRefs) :
    cx.table.IsOpen (.symbol e.2) ∧ (cx.table.symbol e.2).name = e.1.name := by
  obtain ⟨event, happened, is⟩ := List.mem_filterMap.1 resumed
  obtain ⟨before, after, split⟩ := List.append_of_mem happened
  have fits := ledger.chronicle.fits before event after split
  cases event with
  | resumed r target =>
    obtain rfl := Option.some.inj is
    exact fits
  | _ => cases is

end Ledger

/-! ## The account of a settled run -/

namespace Settles

variable {a b : Context} (settles : a.Settles b)
include settles

theorem linkedRefs_eq : b.linkedRefs = a.linkedRefs := by
  simp only [linkedRefs, settles.history, List.filterMap_append, List.filterMap_map,
    Function.comp_def, Event.linked?, List.filterMap_none, List.append_nil]

theorem deferredRefs_eq : b.deferredRefs = a.deferredRefs := by
  simp only [deferredRefs, settles.history, List.filterMap_append, List.filterMap_map,
    Function.comp_def, Event.deferred?, List.filterMap_none, List.append_nil]

theorem resumedRefs_eq : b.resumedRefs = a.resumedRefs ++ a.pending.ready a.table := by
  simp only [resumedRefs, settles.history, List.filterMap_append, List.filterMap_map,
    Function.comp_def, Event.resumed?, List.filterMap_none, List.append_nil, Prod.mk.eta,
    List.filterMap_some]

theorem abandonedRefs_eq : b.abandonedRefs = a.abandonedRefs ++ a.pending.stuck a.table := by
  simp only [abandonedRefs, settles.history, List.filterMap_append, List.filterMap_map,
    Function.comp_def, Event.abandoned?, List.filterMap_none, List.nil_append, List.filterMap_some]

theorem target_eq (r : PendingReference) : r.target? b.table = r.target? a.table :=
  SymbolTable.target_of_roll settles.roll r

/-- A class that was open before is visited by the end, under its name. -/
theorem isClassOf (finished : a.Finished) {target : SymbolId}
    (isOpen : a.table.IsOpen (.symbol target)) {names : List String}
    (named : (a.table.symbol target).name ∈ names) : b.IsClassOf target names := by
  refine ⟨?_, ?_, ?_⟩
  · rw [SymbolTable.size_of_roll settles.roll]
    exact isOpen.1
  · rw [Symbol.isComplete, SymbolTable.state_of_roll settles.roll]
    exact finished.isComplete isOpen.2
  · rw [SymbolTable.name_of_roll settles.roll]
    exact named

end Settles

theorem ready_map_fst (p : Pending) (t : SymbolTable) :
    (p.ready t).map (·.1) = p.all.filter fun r => (r.target? t).isSome := by
  rw [Pending.ready]
  induction p.all with
  | nil => rfl
  | cons r rest ih =>
    rw [List.filterMap_cons, List.filter_cons]
    cases found : r.target? t with
    | none => exact ih
    | some id => exact congrArg (r :: ·) ih

/-- A reference that waits can be resolved in the end if it could be resolved before. -/
theorem Settles.target_waiting_isSome {a b : Context} (settles : a.Settles b) {r : Reference}
    (waits : r.key ∈ r.candidates) : (r.waiting.target? a.table).isSome = b.resolves r := by
  rw [← settles.target_eq, Context.target_waiting_isSome waits]

namespace Ledger

variable {cx : Context} (ledger : cx.Ledger [])
include ledger

/-- The references of one kind that had to wait are those that still wait and those that were
resumed. -/
theorem deferred_perm (keep : PendingReference → Bool) :
    ((cx.deferredRefs.filter fun r => keep r.waiting).map Reference.waiting).Perm
      (cx.pending.all.filter keep ++ (cx.resumedRefs.map (·.1)).filter keep) := by
  have account := ledger.account.filter keep
  rw [List.nil_append, List.filter_append, List.filter_map] at account
  exact account

theorem settled_waits : ∀ r ∈ cx.settle.deferredRefs, r.key ∈ r.candidates := by
  rw [cx.settle_settles.deferredRefs_eq]
  exact fun r deferred => ledger.deferred_fits deferred

variable (finished : cx.Finished)
include finished

/-- What a reference was resumed for has been visited by the end. -/
theorem resumed_hasTarget {p : PendingReference} (resumed : p ∈ cx.resumedRefs.map (·.1)) :
    (p.target? cx.table).isSome := by
  obtain ⟨e, happened, rfl⟩ := List.mem_map.1 resumed
  obtain ⟨isOpen, named⟩ := ledger.resumed_fits happened
  rw [target_isSome, List.any_cons, Bool.or_eq_true]
  have unique := ledger.owned.forest.classes.names
  refine .inl ((unique.lookupComplete_isSome _).2 ?_)
  exact ⟨e.2, isOpen.1, named, finished.isComplete isOpen.2⟩

/-- The references that were resumed are those that had to wait and can be resolved. -/
theorem settled_resumed : (cx.settle.resumedRefs.map (·.1)).Perm
    ((cx.settle.deferredRefs.filter cx.settle.resolves).map Reference.waiting) := by
  have settles := cx.settle_settles
  have resolved : (cx.resumedRefs.map (·.1)).filter (fun p => (p.target? cx.table).isSome)
      = cx.resumedRefs.map (·.1) :=
    List.filter_eq_self.2 fun p resumed => ledger.resumed_hasTarget finished resumed
  have same : cx.settle.deferredRefs.filter cx.settle.resolves
      = cx.settle.deferredRefs.filter fun r => (r.waiting.target? cx.table).isSome :=
    List.filter_congr fun r deferred =>
      (settles.target_waiting_isSome (ledger.settled_waits r deferred)).symm
  have split := ledger.deferred_perm fun p => (p.target? cx.table).isSome
  rw [resolved, ← ready_map_fst] at split
  rw [same, settles.deferredRefs_eq, settles.resumedRefs_eq, List.map_append]
  exact (split.trans List.perm_append_comm).symm

/-- The references that were abandoned are those that had to wait and cannot be resolved. -/
theorem settled_abandoned : cx.settle.abandonedRefs.Perm
    ((cx.settle.deferredRefs.filter fun r => !cx.settle.resolves r).map Reference.waiting) := by
  have settles := cx.settle_settles
  -- none of them was resumed, since what was resumed can be resolved
  have none : (cx.resumedRefs.map (·.1)).filter (fun p => (p.target? cx.table).isNone) = [] := by
    refine List.filter_eq_nil_iff.2 fun p resumed absent => ?_
    rw [Option.isNone_iff_eq_none] at absent
    have found := ledger.resumed_hasTarget finished resumed
    rw [absent] at found
    cases found
  have same : cx.settle.deferredRefs.filter (fun r => !cx.settle.resolves r)
      = cx.settle.deferredRefs.filter fun r => (r.waiting.target? cx.table).isNone := by
    refine List.filter_congr fun r deferred => ?_
    rw [← settles.target_waiting_isSome (ledger.settled_waits r deferred), Option.not_isSome]
  have split := ledger.deferred_perm fun p => (p.target? cx.table).isNone
  rw [none, List.append_nil] at split
  rw [same, settles.deferredRefs_eq, settles.abandonedRefs_eq, ledger.abandonedRefs_eq,
    List.nil_append]
  exact split.symm

/-- A reference that was resumed is linked to one of its candidates, by a walk or in the end. -/
theorem settled_target : ∀ e ∈ cx.settle.resumedRefs,
    cx.settle.IsClassOf e.2 (e.1.name :: e.1.alternatives) := by
  have settles := cx.settle_settles
  rw [settles.resumedRefs_eq]
  intro e resumed
  rcases List.mem_append.1 resumed with before | ready
  · obtain ⟨isOpen, named⟩ := ledger.resumed_fits before
    exact settles.isClassOf finished isOpen (named ▸ List.mem_cons_self)
  · obtain ⟨r, _, is⟩ := List.mem_filterMap.1 ready
    obtain ⟨id, found, rfl⟩ := Option.map_eq_some_iff.1 is
    rw [← settles.target_eq] at found
    exact Pending.target_some found

/-- What has been visited in the end is builtin or has been declared by a walk. -/
theorem settled_visits (name : String) : cx.settle.visits name
    ↔ name ∈ Builtin.names ∨ .began name ∈ cx.settle.history.toList := by
  have settles := cx.settle_settles
  have unique := ledger.owned.forest.classes.names
  have began : Event.began name ∈ cx.settle.history.toList
      ↔ Event.began name ∈ cx.history.toList := by
    simp [settles.history]
  rw [visits, SymbolTable.lookupComplete_of_roll settles.roll, unique.lookupComplete_isSome,
    finished.completes_iff, ledger.chronicle.declares, began, declaredBy, Bool.or_eq_true,
    List.contains_iff_mem, List.contains_iff_mem]

theorem settled : cx.settle.Settled := by
  have settles := cx.settle_settles
  have abandoned : cx.settle.abandonedRefs = cx.pending.stuck cx.table := by
    rw [settles.abandonedRefs_eq, ledger.abandonedRefs_eq, List.nil_append]
  refine ⟨settles.pending, ?_, ledger.settled_resumed finished, ledger.settled_target finished,
    ledger.settled_abandoned finished, ?_, ?_, ?_, ledger.settled_visits finished⟩
  · rw [settles.linkedRefs_eq]
    intro e linked
    obtain ⟨isOpen, named⟩ := ledger.linked_fits linked
    exact settles.isClassOf finished isOpen named
  · rw [settles.records, abandoned, ledger.unresolvedRecords_eq, List.nil_append]
  · rw [abandoned]
    intro r stuck
    have known := (ledger.owned.waiting r (List.mem_filter.1 stuck).1).2
    rw [← settles.precedes.files_size] at known
    exact ⟨_, Array.getElem?_eq_getElem known⟩
  · exact fun r deferred name => Reference.mem_waiting (ledger.settled_waits r deferred) name

end Ledger

section

variable (units : List SourceUnit) (options : Options)

/-- The references of a batch are accounted for at the end. -/
theorem ofUnits_fates : (ofUnits units options).Settled :=
  ((ledger_start options).analyzeFiles units).settled ((finished_start options).analyzeFiles units)

theorem ofUnits_uniqueNames : (ofUnits units options).table.UniqueNames :=
  (((ledger_start options).analyzeFiles units).owned.forest.classes.names).of_roll
    ((start options).analyzeFiles units).settle_settles.roll

end

end Context

end LevelCheck
