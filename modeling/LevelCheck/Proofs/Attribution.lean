import LevelCheck.Proofs.WrittenTypes
import LevelCheck.Proofs.Nesting
set_option autoImplicit false

/-! # Where records stand

A record names a file and a position of it, and a node of that file is there: a problem is recorded
while its node is visited, and a reference keeps the file and the position of the type that it was made
for. Whatever is wrong with a reference is recorded when it is linked or given up, which may be while
another file is walked, or at the end. The history tells, record by record, which reference is meant;
the record stands in the file of that reference, and the reference is of the file whose walk has come
to it. -/

namespace LevelCheck

/-- Where a type is written: in a file, at a position, for a place in the table. -/
structure TypeSite where
  file : FileId
  position : Position
  link : Link
  deriving DecidableEq, Repr

/-- Where the type of the reference is written. -/
def Reference.site (r : Reference) : TypeSite := { file := r.file, position := r.position, link := r.link }

/-- Where the type of the reference that waits is written. -/
def PendingReference.site (r : PendingReference) : TypeSite :=
  { file := r.file, position := r.position, link := r.link }

/-- A node of one of the files writes a type at the site. -/
def TypeSite.IsIn (units : List SourceUnit) (site : TypeSite) : Prop :=
  ∃ unit written, units[site.file.val]? = some unit
    ∧ unit.tree.arena.Writes site.link written site.position

namespace Event

/-- The reference that the walk has come to. -/
def met? : Event → Option Reference
  | .linked r _ => some r
  | .deferred r => some r
  | _ => none

/-- The reference that had waited. -/
def waited? : Event → Option PendingReference
  | .resumed r _ => some r
  | .abandoned r => some r
  | _ => none

/-- Where the type of the reference is written that something has happened to. -/
def site? : Event → Option TypeSite
  | .began _ => none
  | .linked r _ => some r.site
  | .deferred r => some r.site
  | .resumed r _ => some r.site
  | .abandoned r => some r.site

end Event

namespace Diagnostic

/-- The record names a position of a file; a node without a line has no position. -/
def IsAt (d : Diagnostic) (unit : SourceUnit) (pos : Position) : Prop :=
  d.file = some unit.tree.fileName
    ∧ (pos.line = 0 → d.line = -1 ∧ d.column = -1)
    ∧ (pos.line ≠ 0 → d.line = pos.line.toInt32 ∧ d.column = pos.column.toInt32)

/-- The record stands at a node of one of the files. -/
def StandsIn (units : List SourceUnit) (d : Diagnostic) : Prop :=
  ∃ unit ∈ units, ∃ idx node, unit.tree.arena.get? idx = some node ∧ d.IsAt unit node.pos

/-- The record was made as the reference was linked or given up, and stands in its file, at the
position of its type. -/
inductive TellsOf (units : List SourceUnit) (d : Diagnostic) : Event → Prop where
  | linked {r : Reference} {target : SymbolId} {unit : SourceUnit} {p : Problem}
      (given : units[r.file.val]? = some unit)
      (record : d = .ofProblem unit.tree.fileName r.position p) : TellsOf units d (.linked r target)
  | resumed {r : PendingReference} {target : SymbolId} {unit : SourceUnit} {p : Problem}
      (given : units[r.file.val]? = some unit)
      (record : d = .ofProblem unit.tree.fileName r.position p) : TellsOf units d (.resumed r target)
  | abandoned {r : PendingReference} {unit : SourceUnit} (given : units[r.file.val]? = some unit)
      (record : d = r.unresolvedDiagnostic unit.tree.fileName) : TellsOf units d (.abandoned r)

variable {units : List SourceUnit}

theorem isAt_ofProblem (unit : SourceUnit) (pos : Position) (p : Problem) :
    (ofProblem unit.tree.fileName pos p).IsAt unit pos := by
  unfold ofProblem error IsAt Position.isNowhere
  by_cases nowhere : pos.line = 0 <;> simp [nowhere]

theorem standsIn_ofProblem {unit : SourceUnit} (isIn : unit ∈ units) {pos : Position}
    (isAt : unit.tree.arena.HasNodeAt pos) (p : Problem) :
    (ofProblem unit.tree.fileName pos p).StandsIn units := by
  obtain ⟨idx, node, found, rfl⟩ := isAt
  exact ⟨unit, isIn, idx, node, found, isAt_ofProblem unit node.pos p⟩

/-- A record that prunes its node stands where it would otherwise. -/
theorem StandsIn.pruning {d : Diagnostic} (stands : d.StandsIn units) : d.pruning.StandsIn units :=
  stands

theorem StandsIn.mono {d : Diagnostic} {more : List SourceUnit} (stands : d.StandsIn units)
    (among : units ⊆ more) : d.StandsIn more := by
  obtain ⟨unit, isIn, at'⟩ := stands
  exact ⟨unit, among isIn, at'⟩

end Diagnostic

/-- The records that tell of references. -/
def ErrorLog.linkings (log : ErrorLog) : List Diagnostic :=
  log.diagnostics.toList.filter Diagnostic.isLinking

theorem ErrorLog.linkings_push {log next : ErrorLog} {d : Diagnostic}
    (pushed : next.diagnostics = log.diagnostics.push d) :
    next.linkings = log.linkings ++ if d.isLinking then [d] else [] := by
  rw [linkings, linkings, pushed, Array.toList_push, List.filter_append, List.filter_singleton]
  cases d.isLinking <;> rfl

theorem Problem.IsNaming.not_isLinking {p : Problem} (isNaming : p.IsNaming) (file : String)
    (pos : Position) : (Diagnostic.ofProblem file pos p).isLinking = false := by
  cases p with
  | duplicateVariable | duplicateClass | duplicateParameter | duplicateField | constructorName => rfl
  | _ => exact isNaming.elim

theorem Problem.IsRuled.not_isLinking {p : Problem} (isRuled : p.IsRuled) (file : String)
    (pos : Position) : (Diagnostic.ofProblem file pos p).isLinking = false := by
  cases p with
  | duplicateVariable | duplicateClass | duplicateParameter | duplicateField | constructorName
  | extendsInterface | implementsClass | nestingTooDeep | unresolved => exact isRuled.elim
  | _ => rfl

namespace Context

/-- Linking a reference records at most one problem, for the file and the position given. -/
theorem apply_log (cx : Context) (file : FileId) (pos : Position) (link : Link) (target : SymbolId) :
    (cx.apply file pos link target).log = cx.log
      ∨ ∃ p, (Diagnostic.ofProblem (cx.fileName file) pos p).isLinking
        ∧ (cx.apply file pos link target).log = cx.log.add (.ofProblem (cx.fileName file) pos p) := by
  rw [apply]
  split
  · next p found => exact .inr ⟨p, linkProblem_isLinking found _ pos, rfl⟩
  · exact .inl rfl

/-- The reference that waits is one that the run has come to. -/
def Deferred (cx : Context) (r : PendingReference) : Prop :=
  ∃ met, .deferred met ∈ cx.history.toList ∧ r = met.waiting

/-- The records and the references of a run are attributed to its files. -/
structure Attributed (units : List SourceUnit) (cx : Context) : Prop where
  files : cx.files.toList.map FileScope.name = units.map (·.tree.fileName)
  records : ∀ d ∈ cx.log.diagnostics.toList, d.StandsIn units
  sites : ∀ e ∈ cx.history.toList, ∀ site ∈ e.site?, site.IsIn units
  waiting : ∀ r ∈ cx.pending.all, cx.Deferred r
  waited : ∀ e ∈ cx.history.toList, ∀ r ∈ e.waited?, cx.Deferred r
  /-- Each record that tells of a reference tells of the one of an event of its own. -/
  telling : ∃ events, events.Sublist cx.history.toList
    ∧ List.Forall₂ (Diagnostic.TellsOf units) cx.log.linkings events

namespace Attributed

variable {units : List SourceUnit} {a b : Context} (attributed : a.Attributed units)
include attributed

omit attributed in
theorem deferred_mono {r : PendingReference} {more : List Event} (deferred : a.Deferred r)
    (history : b.history.toList = a.history.toList ++ more) : b.Deferred r := by
  obtain ⟨met, isIn, is⟩ := deferred
  refine ⟨met, ?_, is⟩
  rw [history]
  exact List.mem_append_left _ isIn

/-- A reference that waits is of a type that a node writes. -/
theorem site_isIn {r : PendingReference} (deferred : a.Deferred r) : r.site.IsIn units := by
  obtain ⟨met, isIn, rfl⟩ := deferred
  exact attributed.sites _ isIn met.site rfl

/-- Nothing is recorded, and nothing happens to a reference. -/
theorem quiet (precedes : a.Precedes b) (log : b.log = a.log) (history : b.history = a.history)
    (pending : ∀ r ∈ b.pending.all, r ∈ a.pending.all) : b.Attributed units where
  files := precedes.names.trans attributed.files
  records := log ▸ attributed.records
  sites := history ▸ attributed.sites
  waiting r isIn := by
    rw [Deferred, history]
    exact attributed.waiting r (pending r isIn)
  waited := by
    simp only [Deferred, history]
    exact attributed.waited
  telling := by
    rw [log, history]
    exact attributed.telling

/-- Something happens that makes no record. -/
theorem happens {e : Event} (precedes : a.Precedes b) (log : b.log = a.log)
    (history : b.history = a.history.push e) (isIn : ∀ site ∈ e.site?, site.IsIn units)
    (waited : ∀ r ∈ e.waited?, a.Deferred r) (waiting : ∀ r ∈ b.pending.all, b.Deferred r) :
    b.Attributed units where
  files := precedes.names.trans attributed.files
  records := log ▸ attributed.records
  sites e' isEvent := by
    rw [history, Array.toList_push, List.mem_append, List.mem_singleton] at isEvent
    rcases isEvent with before | rfl
    · exact attributed.sites e' before
    · exact isIn
  waiting := waiting
  waited e' isEvent r isOf := by
    have appended : b.history.toList = a.history.toList ++ [e] := by rw [history, Array.toList_push]
    refine deferred_mono ?_ appended
    rw [appended, List.mem_append, List.mem_singleton] at isEvent
    rcases isEvent with before | rfl
    · exact attributed.waited e' before r isOf
    · exact waited r isOf
  telling := by
    obtain ⟨events, sublist, telling⟩ := attributed.telling
    rw [log, history, Array.toList_push]
    exact ⟨events, sublist.trans (List.sublist_append_left _ _), telling⟩

/-- A record is made that tells of no reference. -/
theorem records_finding {d : Diagnostic} (precedes : a.Precedes b)
    (pushed : b.log.diagnostics = a.log.diagnostics.push d) (history : b.history = a.history)
    (pending : b.pending = a.pending) (isFinding : d.isLinking = false) (stands : d.StandsIn units) :
    b.Attributed units where
  files := precedes.names.trans attributed.files
  records d' isIn := by
    rw [pushed, Array.toList_push, List.mem_append, List.mem_singleton] at isIn
    rcases isIn with before | rfl
    · exact attributed.records d' before
    · exact stands
  sites := history ▸ attributed.sites
  waiting := by
    simp only [Deferred, history, pending]
    exact attributed.waiting
  waited := by
    simp only [Deferred, history]
    exact attributed.waited
  telling := by
    rw [ErrorLog.linkings_push pushed, isFinding, history]
    simpa using attributed.telling

/-- A reference is linked or given up, and what is wrong with it is recorded. -/
theorem records_linking {d : Diagnostic} {e : Event} (precedes : a.Precedes b)
    (pushed : b.log.diagnostics = a.log.diagnostics.push d) (history : b.history = a.history.push e)
    (pending : b.pending = a.pending) (isLinking : d.isLinking = true)
    (isIn : ∀ site ∈ e.site?, site.IsIn units) (waited : ∀ r ∈ e.waited?, a.Deferred r)
    (stands : d.StandsIn units) (tells : d.TellsOf units e) : b.Attributed units := by
  have noted : (a.happened e).Attributed units :=
    attributed.happens (.happened a e) rfl rfl isIn waited fun r isWaiting =>
      deferred_mono (attributed.waiting r isWaiting) (Array.toList_push ..)
  refine ⟨precedes.names.trans attributed.files, fun d' isRecord => ?_, history ▸ noted.sites,
    ?_, ?_, ?_⟩
  · rw [pushed, Array.toList_push, List.mem_append, List.mem_singleton] at isRecord
    rcases isRecord with before | rfl
    · exact attributed.records d' before
    · exact stands
  · simp only [Deferred, history, pending]
    exact noted.waiting
  · simp only [Deferred, history]
    exact noted.waited
  · obtain ⟨events, sublist, telling⟩ := attributed.telling
    rw [ErrorLog.linkings_push pushed, isLinking, history, Array.toList_push]
    exact ⟨events ++ [e], sublist.append (List.Sublist.refl _), List.rel_append telling (.cons tells .nil)⟩

/-! ## References -/

/-- A reference is linked, at the site of the event that says so. -/
theorem apply {e : Event} (site : TypeSite) (isEnd : e.site? = some site) (isIn : site.IsIn units)
    (waited : ∀ r ∈ e.waited?, a.Deferred r)
    (tells : ∀ {unit : SourceUnit} {p : Problem}, units[site.file.val]? = some unit →
      (Diagnostic.ofProblem unit.tree.fileName site.position p).TellsOf units e) (target : SymbolId) :
    ((a.happened e).apply site.file site.position site.link target).Attributed units := by
  have precedes : a.Precedes ((a.happened e).apply site.file site.position site.link target) :=
    (Precedes.happened a e).trans (.apply _ ..)
  obtain ⟨pending, history, -⟩ :=
    apply_records (a.happened e) site.file site.position site.link target
  have only : ∀ other ∈ e.site?, other.IsIn units := by
    intro other is
    obtain rfl := Option.some.inj (isEnd.symm.trans is)
    exact isIn
  rcases apply_log (a.happened e) site.file site.position site.link target with log | ⟨p, isLinking, log⟩
  · refine attributed.happens precedes log history only waited fun r isWaiting => ?_
    rw [pending] at isWaiting
    refine deferred_mono (attributed.waiting r isWaiting) (show _ = a.history.toList ++ [e] from ?_)
    rw [history, happened, Array.toList_push]
  · obtain ⟨unit, written, given, writes⟩ := isIn
    have named : (a.happened e).fileName site.file = unit.tree.fileName :=
      fileName_of_names attributed.files given
    rw [named] at isLinking log
    exact attributed.records_linking precedes (congrArg ErrorLog.diagnostics log) history pending
      isLinking only waited
      (Diagnostic.standsIn_ofProblem (List.mem_of_getElem? given) writes.hasNodeAt p) (tells given)

theorem resume {r : PendingReference} (deferred : a.Deferred r) (target : SymbolId) :
    (Context.resume r target a).Attributed units := by
  refine attributed.apply (e := .resumed r target) r.site rfl (attributed.site_isIn deferred)
    (fun other is => ?_) (fun given => .resumed given rfl) target
  obtain rfl := Option.some.inj is
  exact deferred

theorem resumeEach (entries : List (PendingReference × SymbolId))
    (areDeferred : ∀ e ∈ entries, a.Deferred e.1) :
    (entries.foldl (fun cx e => Context.resume e.1 e.2 cx) a).Attributed units := by
  induction entries generalizing a with
  | nil => exact attributed
  | cons e rest ih =>
    refine ih (attributed.resume (areDeferred e List.mem_cons_self) e.2) fun e' isIn => ?_
    exact deferred_mono (areDeferred e' (List.mem_cons_of_mem _ isIn))
      (resume_resumed e.1 e.2 a).history

/-- The references that a class releases may be of other files than its own. -/
theorem defineComplete (id : SymbolId) : (a.defineComplete id).Attributed units := by
  let finished : Context :=
    { a with table := a.table.finishDefinition id, pending := (a.waitingFor id).2 }
  have released : finished.Attributed units :=
    attributed.quiet ⟨.finishDefinition a.table id, List.prefix_rfl, rfl, rfl⟩ rfl rfl
      fun r isIn => Pending.mem_release (.inr isIn)
  have resumed := released.resumeEach ((a.waitingFor id).1.map (·, id)) fun e isIn => by
    obtain ⟨r, waits, rfl⟩ := List.mem_map.1 isIn
    exact attributed.waiting r (Pending.mem_release (.inl waits))
  rw [defineComplete_eq]
  rwa [List.foldl_map] at resumed

theorem abandon {r : PendingReference} (deferred : a.Deferred r) :
    (Context.abandon a r).Attributed units := by
  obtain ⟨unit, written, given, writes⟩ := attributed.site_isIn deferred
  have named : a.fileName r.file = unit.tree.fileName := fileName_of_names attributed.files given
  have stands := Diagnostic.standsIn_ofProblem (List.mem_of_getElem? given) writes.hasNodeAt
    (.unresolved r.name)
  refine attributed.records_linking (abandon_abandoned a r).precedes rfl rfl rfl rfl ?_ ?_ ?_ ?_
  · intro site is
    obtain rfl := Option.some.inj is
    exact attributed.site_isIn deferred
  · intro other is
    obtain rfl := Option.some.inj is
    exact deferred
  · rw [named]
    exact stands
  · rw [named]
    exact .abandoned given rfl

theorem abandonEach {stuck : List PendingReference} (areDeferred : ∀ r ∈ stuck, a.Deferred r) :
    (stuck.foldl Context.abandon a).Attributed units := by
  induction stuck generalizing a with
  | nil => exact attributed
  | cons r rest ih =>
    refine ih (attributed.abandon (areDeferred r List.mem_cons_self)) fun r' isIn => ?_
    exact deferred_mono (areDeferred r' (List.mem_cons_of_mem _ isIn)) (abandon_abandoned a r).history

theorem settle : a.settle.Attributed units := by
  have emptied : ({ a with pending := .empty } : Context).Attributed units :=
    attributed.quiet ⟨.refl _, List.prefix_rfl, rfl, rfl⟩ rfl rfl nofun
  have resumed := emptied.resumeEach (a.pending.ready a.table) fun e isIn => by
    obtain ⟨r, waits, is⟩ := List.mem_filterMap.1 isIn
    obtain ⟨id, -, rfl⟩ := Option.map_eq_some_iff.1 is
    exact attributed.waiting r waits
  have still := (resumeEach_resumed (a.pending.ready a.table) { a with pending := .empty }).history
  have stuck : ∀ r ∈ a.pending.stuck a.table, _ := fun r isIn =>
    deferred_mono (attributed.waiting r (List.mem_filter.1 isIn).1) still
  rw [settle_eq]
  exact resumed.abandonEach stuck

theorem linkType {file : FileId} {written : String} {pos : Position} {link : Link}
    (isIn : TypeSite.IsIn units ⟨file, pos, link⟩) (scope : Option ScopeRef) :
    (a.linkType file scope written pos link).Attributed units := by
  have precedes := Precedes.linkType a file scope written pos link
  cases a.linkType_linking file scope written pos link with
  | none is =>
    rw [is]
    exact attributed
  | @now f target inRun found is =>
    let e : Event := .linked (a.reference f file scope (baseTypeName written) pos link) target
    have notWaited : ∀ r ∈ e.waited?, a.Deferred r := nofun
    rw [is]
    exact attributed.apply (e := e) ⟨file, pos, link⟩ rfl isIn notWaited
      (fun given => .linked given rfl) target
  | @later f r inRun met waits undeclared is =>
    rw [is] at precedes ⊢
    have isSite : r.site = ⟨file, pos, link⟩ := by
      rw [met]
      rfl
    refine attributed.happens precedes rfl rfl (fun site isOf => ?_) nofun fun other isWaiting => ?_
    · obtain rfl := Option.some.inj isOf
      rwa [isSite]
    · rcases List.mem_cons.1 ((a.pending.request_perm r.waiting).mem_iff.1 isWaiting) with rfl | before
      · exact ⟨r, Array.mem_toList_iff.2 (Array.mem_push_self ..), rfl⟩
      · exact deferred_mono (attributed.waiting other before) (Array.toList_push ..)

end Attributed

end Context

/-! ## Walks -/

namespace Walk

variable {w : Walk} {units : List SourceUnit} {unit : SourceUnit} {a b : Context}
  {before : List Event}

/-- The references that the walk has come to since the given events are of its own file. -/
def MeetsOwn (w : Walk) (before : List Event) (cx : Context) : Prop :=
  ∃ events, cx.history.toList = before ++ events
    ∧ ∀ r ∈ events.filterMap Event.met?, r.file = w.file

theorem MeetsOwn.append (meets : w.MeetsOwn before a) {more : List Event}
    (history : b.history.toList = a.history.toList ++ more)
    (own : ∀ r ∈ more.filterMap Event.met?, r.file = w.file) : w.MeetsOwn before b := by
  obtain ⟨events, is, areOwn⟩ := meets
  refine ⟨events ++ more, by rw [history, is, List.append_assoc], fun r isIn => ?_⟩
  rw [List.filterMap_append, List.mem_append] at isIn
  rcases isIn with earlier | later
  · exact areOwn r earlier
  · exact own r later

theorem MeetsOwn.same (meets : w.MeetsOwn before a) (history : b.history = a.history) :
    w.MeetsOwn before b :=
  meets.append (show _ = a.history.toList ++ [] by rw [history, List.append_nil]) nofun

theorem MeetsOwn.linkType (meets : w.MeetsOwn before a) (scope : Option ScopeRef) (written : String)
    (pos : Position) (link : Link) :
    w.MeetsOwn before (a.linkType w.file scope written pos link) := by
  have single {e : Event} {r : Reference} (isMet : e.met? = some r) (isOwn : r.file = w.file) :
      ∀ r ∈ [e].filterMap Event.met?, r.file = w.file := by
    simpa [isMet] using isOwn
  cases a.linkType_linking w.file scope written pos link with
  | none is =>
    rw [is]
    exact meets
  | @now f target inRun found is =>
    let r := a.reference f w.file scope (baseTypeName written) pos link
    obtain ⟨-, history, -⟩ := Context.apply_records (a.happened (.linked r target)) w.file pos link target
    rw [is]
    refine meets.append ?_ (single (e := .linked r target) rfl rfl)
    rw [history, Context.happened, Array.toList_push]
  | @later f r inRun met waits undeclared is =>
    rw [is]
    refine meets.append (Array.toList_push ..) (single (e := .deferred r) rfl ?_)
    rw [met]
    rfl

/-- What has been recorded and what has happened so far is attributed to the files of the run. -/
structure Attributes (w : Walk) (units : List SourceUnit) (before : List Event) (cx : Context) :
    Prop where
  run : cx.Attributed units
  own : w.MeetsOwn before cx

namespace Attributes

variable (attributes : w.Attributes units before a)
include attributes

theorem quiet (precedes : a.Precedes b) (log : b.log = a.log) (history : b.history = a.history)
    (pending : b.pending = a.pending) : w.Attributes units before b :=
  ⟨attributes.run.quiet precedes log history fun _ isIn => pending ▸ isIn,
    attributes.own.same history⟩

theorem begins {id : SymbolId} (opens : Opens a id b) : w.Attributes units before b := by
  have precedes := opens.precedes
  obtain @⟨qualified, outer, head, begun, isHead, -, -⟩ := opens
  obtain ⟨t, -, rfl⟩ := Context.beginClass_some begun
  have noSite : ∀ site ∈ (Event.began qualified).site?, site.IsIn units := nofun
  have waiting := fun r isIn => Context.Attributed.deferred_mono (attributes.run.waiting r isIn)
    (b := a.happened (.began qualified)) (Array.toList_push ..)
  exact ⟨attributes.run.happens precedes rfl rfl noSite nofun waiting,
    attributes.own.append (show _ = _ ++ [.began qualified] from Array.toList_push ..) nofun⟩

theorem completes (id : SymbolId) : w.Attributes units before (a.defineComplete id) := by
  refine ⟨attributes.run.defineComplete id,
    attributes.own.append (a.defineComplete_resumed id).history fun _ isIn => ?_⟩
  simp [List.filterMap_map, Function.comp_def, Event.met?] at isIn

section

variable (given : units[w.file.val]? = some unit) (isArena : w.arena = unit.tree.arena)
include given isArena

theorem linkType {written : String} {pos : Position} {link : Link}
    (said : w.arena.Writes link written pos) (scope : Option ScopeRef) :
    w.Attributes units before (a.linkType w.file scope written pos link) := by
  rw [isArena] at said
  exact ⟨attributes.run.linkType ⟨unit, written, given, said⟩ scope,
    attributes.own.linkType scope written pos link⟩

/-- A problem that is recorded at a node of the walk stands there. -/
theorem stands {pos : Position} (isAt : w.arena.HasNodeAt pos) (p : Problem) :
    (Diagnostic.ofProblem (a.fileName w.file) pos p).StandsIn units := by
  rw [isArena] at isAt
  rw [Context.fileName_of_names attributes.run.files given]
  exact Diagnostic.standsIn_ofProblem (List.mem_of_getElem? given) isAt p

theorem report {pos : Position} (isAt : w.arena.HasNodeAt pos) {p : Problem}
    (isFinding : (Diagnostic.ofProblem (a.fileName w.file) pos p).isLinking = false) :
    w.Attributes units before (a.report w.file pos p) :=
  ⟨attributes.run.records_finding (.report a w.file pos p) rfl rfl rfl isFinding
    (attributes.stands given isArena isAt p), attributes.own.same rfl⟩

theorem reportPruning (idx : NodeIndex) {pos : Position} (isAt : w.arena.HasNodeAt pos) {p : Problem}
    (isFinding : (Diagnostic.ofProblem (a.fileName w.file) pos p).isLinking = false) :
    w.Attributes units before (a.reportPruning w.file idx pos p) :=
  ⟨attributes.run.records_finding (.logged a rfl) rfl rfl rfl isFinding
    (attributes.stands given isArena isAt p).pruning, attributes.own.same rfl⟩

theorem reportAll {pos : Position} (isAt : w.arena.HasNodeAt pos) {problems : List Problem}
    (areRuled : ∀ p ∈ problems, p.IsRuled) :
    w.Attributes units before (w.reportAll pos problems a) := by
  induction problems generalizing a with
  | nil => exact attributes
  | cons p rest ih =>
    have isRuled := areRuled p List.mem_cons_self
    exact ih (attributes.report given isArena isAt (isRuled.not_isLinking _ pos))
      fun p isIn => areRuled p (List.mem_cons_of_mem _ isIn)

theorem inspect {idx : NodeIndex} {node : Node} (found : w.arena.get? idx = some node)
    (remaining : Nat) (scope : WalkScope) :
    w.Attributes units before (w.inspect remaining scope idx node a).2 := by
  have isAt := Arena.hasNodeAt_of_get found
  have areRuled := w.rulingOn_isRuled a scope node
  have noted (offer : Option Offer) : w.Attributes units before (w.note idx remaining offer a) :=
    attributes.quiet ⟨.refl _, List.prefix_rfl, rfl, rfl⟩ rfl rfl rfl
  cases w.inspect_inspection a remaining scope idx node with
  | skipped _ is =>
    rw [is]
    exact noted none
  | @refused p rest _ _ raised is =>
    rw [raised] at areRuled
    have isRuled := areRuled p List.mem_cons_self
    have pruned := (noted (some (w.offer scope node a))).reportPruning given isArena idx isAt
      (isRuled.not_isLinking _ _)
    rw [is]
    exact pruned.reportAll given isArena isAt fun p isIn => areRuled p (List.mem_cons_of_mem _ isIn)
  | admitted _ _ is =>
    rw [is]
    exact (noted _).reportAll given isArena isAt areRuled

theorem refuses {idx : NodeIndex} {node : Node} (found : w.arena.get? idx = some node) :
    w.Attributes units before (w.refuseDepth idx node a) := by
  have noted : w.Attributes units before (w.note idx 0 none a) :=
    attributes.quiet ⟨.refl _, List.prefix_rfl, rfl, rfl⟩ rfl rfl rfl
  rw [refuseDepth]
  split
  · exact noted
  · exact noted.reportPruning given isArena idx (Arena.hasNodeAt_of_get found) rfl

theorem errand {places : Link → Prop} {todo todo' : List Mention}
    (errand : w.Errand places todo a todo' b) : w.Attributes units before b := by
  have precedes := errand.deed.steps.precedes
  cases errand with
  | write | root => exact attributes.quiet precedes rfl rfl rfl
  | link _ _ _ said => exact attributes.linkType given isArena said _
  | mention _ said => exact attributes.linkType given isArena said _
  | report isNaming isAt => exact attributes.report given isArena isAt (isNaming.not_isLinking _ _)
  | header => exact attributes.quiet precedes rfl rfl rfl

theorem errands {places : Link → Prop} {todo todo' : List Mention}
    (errands : w.Errands places todo a todo' b) : w.Attributes units before b :=
  errands.keeps (fun _ => True) (P := fun _ cx => w.Attributes units before cx)
    (fun _ _ => trivial) (fun _ errand attributes => attributes.errand given isArena errand) trivial
    attributes

end

end Attributes

/-- The name of a class is found without a change to anything but the table, and to none of its
slots. -/
theorem qualifiedName_changes (w : Walk) (scope : WalkScope) (simple : String) (cx : Context) :
    ∃ table, cx.table.SameSlots table ∧ (w.qualifiedName scope simple cx).2 = { cx with table } := by
  cases scope with
  | file =>
    rw [qualifiedName]
    split <;> exact ⟨cx.table, .refl _, rfl⟩
  | classBody id => exact ⟨cx.table, .refl _, rfl⟩
  | body id => exact ⟨_, .numberLocalClass cx.table _, rfl⟩

theorem Attributes.named (attributes : w.Attributes units before a) {scope : WalkScope}
    (isOpen : scope.IsOpenIn a.table) (simple : String) :
    w.Attributes units before (w.qualifiedName scope simple a).2 := by
  have precedes := (w.qualifiedName_run isOpen simple).precedes
  obtain ⟨table, -, is⟩ := w.qualifiedName_changes scope simple a
  rw [is] at precedes ⊢
  exact attributes.quiet precedes rfl rfl rfl

theorem Attributes.numbered (attributes : w.Attributes units before a) {ref : ScopeRef}
    (isOpen : a.table.IsOpen ref) : w.Attributes units before (Walk.numbered ref a) :=
  attributes.quiet (Act.enter (.number isOpen)).precedes rfl rfl rfl

theorem attributes_keeps (given : units[w.file.val]? = some unit)
    (isArena : w.arena = unit.tree.arena) :
    w.Keeps Context.Lifecycle (w.Attributes units before) where
  steady course lifecycle := lifecycle.course course
  refuses _ found attributes := attributes.refuses given isArena found
  inspects _ _ found attributes := attributes.inspect given isArena found _ _
  calls _ isOpen found calls attributes :=
    attributes.errands given isArena (calls.errands isOpen found)
  refusesName _ isOpen found attributes :=
    (attributes.named isOpen _).reportPruning given isArena _ (Arena.hasNodeAt_of_get found) rfl
  declares {remaining scope idx node admission decl id a b c} lifecycle isOpen found admits is begun
      attributes := by
    have inspected := attributes.inspect given isArena found remaining scope
    have isOpen' := Journeys.isOpen_inspected isOpen admits
    have inspection := Course.deed (.rest a) (.inspect a w remaining scope idx node)
    rw [admits] at inspected inspection
    have opens := opens_declared isOpen' begun
    have course := inspection.trans (.of_run (w.qualifiedName_run isOpen' decl.name))
    exact ((inspected.named isOpen' decl.name).begins opens).errands given isArena
      (linkParents_errands found is opens.isOpen ((lifecycle.course course).untouched.bare opens) _)
  refusesNumber _ isOpen found attributes :=
    (attributes.numbered isOpen).reportPruning given isArena _ (Arena.hasNodeAt_of_get found) rfl
  declaresAnonymous {idx node outer type arguments members ref id a b} _ isOpen found is offered begun
      attributes := by
    have begins := (attributes.numbered isOpen).begins (anonymous_opens isOpen begun)
    refine begins.linkType given isArena ⟨idx, node, found, rfl, ?_⟩ (some ref)
    rw [is]
    rfl
  completes _ _ attributes := attributes.completes _

end Walk

namespace Context

variable {units : List SourceUnit} {cx : Context}

theorem attributed_start (options : Options) : (start options).Attributed [] where
  files := rfl
  records _ isIn := absurd isIn List.not_mem_nil
  sites _ isIn := absurd isIn List.not_mem_nil
  waiting _ isIn := absurd isIn List.not_mem_nil
  waited _ isIn := absurd isIn List.not_mem_nil
  telling := ⟨[], List.nil_sublist _, .nil⟩

theorem Attributed.addFile (attributed : cx.Attributed units) (unit : SourceUnit) :
    (cx.addFile unit.tree.fileName unit.level).2.Attributed (units ++ [unit]) := by
  have still {site : TypeSite} (isIn : site.IsIn units) : site.IsIn (units ++ [unit]) := by
    obtain ⟨given, written, is, writes⟩ := isIn
    exact ⟨given, written, getElem?_further is _, writes⟩
  refine ⟨addFile_names attributed.files unit, fun d isIn => ?_, fun e isIn site is => ?_,
    attributed.waiting, attributed.waited, ?_⟩
  · exact (attributed.records d isIn).mono (List.subset_append_left _ _)
  · exact still (attributed.sites e isIn site is)
  · obtain ⟨events, sublist, telling⟩ := attributed.telling
    refine ⟨events, sublist, telling.imp fun d e tells => ?_⟩
    cases tells with
    | linked is record => exact .linked (getElem?_further is _) record
    | resumed is record => exact .resumed (getElem?_further is _) record
    | abandoned is record => exact .abandoned (getElem?_further is _) record

theorem Attributed.analyzeFile (attributed : cx.Attributed units) (lifecycle : cx.Lifecycle)
    (unit : SourceUnit) : (cx.analyzeFile unit).2.Attributed (units ++ [unit])
      ∧ ∃ events, (cx.analyzeFile unit).2.history.toList = cx.history.toList ++ events
        ∧ ∀ r ∈ events.filterMap Event.met?, r.file.val = units.length := by
  have given := walkOf_given attributed.files unit
  have added : (cx.walkOf unit).Attributes (units ++ [unit]) cx.history.toList
      (cx.addFile unit.tree.fileName unit.level).2 :=
    ⟨attributed.addFile unit, [], (List.append_nil _).symm, nofun⟩
  obtain ⟨run, events, history, own⟩ := (cx.analyzeFile_journey unit).keeps
    (Walk.attributes_keeps given rfl) (lifecycle.addFile _ _) added
  have size : cx.files.size = units.length := by
    have lengths := congrArg List.length attributed.files
    simpa using lengths
  refine ⟨run, events, history, fun r isIn => ?_⟩
  rw [own r isIn]
  exact size

theorem Lifecycle.analyzeFiles (lifecycle : cx.Lifecycle) (more : List SourceUnit) :
    (cx.analyzeFiles more).Lifecycle := by
  induction more generalizing cx with
  | nil => exact lifecycle
  | cons unit rest ih => exact ih ((lifecycle.addFile _ _).run (cx.analyzeFile_run unit))

theorem Attributed.analyzeFiles (attributed : cx.Attributed units) (lifecycle : cx.Lifecycle)
    (more : List SourceUnit) : (cx.analyzeFiles more).Attributed (units ++ more) := by
  induction more generalizing cx units with
  | nil => simpa [Context.analyzeFiles] using attributed
  | cons unit rest ih =>
    have analyzed := ih (attributed.analyzeFile lifecycle unit).1
      ((lifecycle.addFile _ _).run (cx.analyzeFile_run unit))
    rw [List.append_assoc] at analyzed
    exact analyzed

/-- Records are attributed to what they are about. Every record of a batch stands in one of its files,
at a node of it. A record that tells of a reference was made when it was linked or given up, and stands
in the file of the reference, at the position of its type. References that have waited keep file and
position, and the file of a reference is the one whose walk has come to it, at a node that writes the
type, whatever files have been analysed before. -/
theorem ofUnits_attributed (units : List SourceUnit) (options : Options) :
    (∀ d ∈ (ofUnits units options).log.diagnostics.toList, d.StandsIn units)
      ∧ (∃ events, events.Sublist (ofUnits units options).history.toList
        ∧ List.Forall₂ (Diagnostic.TellsOf units) (ofUnits units options).log.linkings events)
      ∧ (∀ r ∈ (ofUnits units options).history.toList.filterMap Event.waited?,
        ∃ met ∈ (ofUnits units options).deferredRefs, r = met.waiting)
      ∧ ∀ before unit,
        ∃ events, ((start options).analyzeFiles (before ++ [unit])).history.toList
            = ((start options).analyzeFiles before).history.toList ++ events
          ∧ ∀ r ∈ events.filterMap Event.met?, r.file.val = before.length
            ∧ ∃ written, unit.tree.arena.Writes r.link written r.position := by
  have attributed (some : List SourceUnit) : ((start options).analyzeFiles some).Attributed some :=
    (attributed_start options).analyzeFiles (lifecycle_start options) some
  have settled : (ofUnits units options).Attributed units := (attributed units).settle
  refine ⟨settled.records, settled.telling, fun r isIn => ?_, fun before unit => ?_⟩
  · obtain ⟨e, isEvent, waited⟩ := List.mem_filterMap.1 isIn
    obtain ⟨met, isMet, rfl⟩ := settled.waited e isEvent r waited
    exact ⟨met, List.mem_filterMap.2 ⟨_, isMet, rfl⟩, rfl⟩
  · have lifecycle := (lifecycle_start options).analyzeFiles before
    have next : (start options).analyzeFiles (before ++ [unit])
        = (((start options).analyzeFiles before).analyzeFile unit).2 := by
      rw [analyzeFiles, List.foldl_append]
      rfl
    obtain ⟨analyzed, events, history, own⟩ := (attributed before).analyzeFile lifecycle unit
    rw [next]
    refine ⟨events, history, fun r isIn => ⟨own r isIn, ?_⟩⟩
    -- the reference is of a type that a node of its file writes, and its file is this one
    obtain ⟨e, isEvent, isMet⟩ := List.mem_filterMap.1 isIn
    have isSite : e.site? = some r.site := by
      cases e with
      | linked | deferred => exact congrArg (Option.map Reference.site) isMet
      | _ => cases isMet
    have happened : e ∈ (((start options).analyzeFiles before).analyzeFile unit).2.history.toList := by
      rw [history]
      exact List.mem_append_right _ isEvent
    obtain ⟨given, written, isUnit, writes⟩ := analyzed.sites e happened r.site isSite
    have isLast : (before ++ [unit])[r.site.file.val]? = some unit := by
      rw [show r.site.file.val = before.length from own r isIn]
      simp
    obtain rfl := Option.some.inj (isUnit.symm.trans isLast)
    exact ⟨written, writes⟩

end Context

end LevelCheck
