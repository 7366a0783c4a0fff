import LevelCheck.Proofs.LandedTypes
import LevelCheck.Proofs.MetReferences
set_option autoImplicit false

/-! # Where references land

The accounts of all places are kept from the start of a run to its end. So the type that a declaration
writes stays in its slot as it is written; the slot is linked once at most, to a class that the type may
denote where it is written; and when nothing waits any longer, a slot without a class is of a type that
refers to none, or of one that is recorded as unresolved, where it is written and under the name that it
has waited for. -/

namespace LevelCheck

/-! ## From the start to the end -/

namespace SymbolTable

/-- The builtin types have no slots but those for the root class. -/
theorem seeded_slot? {place : Link} {slot : Slot} (is : seeded.slot? place = some slot) :
    ∃ id, place = .superclass id ∧ slot = { type := seeded.objectRef, scope := .symbol id } := by
  have builtin : ∀ s ∈ seeded.symbols.toList, s.interfaces = []
      ∧ ∀ type ∈ s.superclass, type = seeded.objectRef := by decide +kernel
  have noVars : seeded.vars = #[] := rfl
  have noMethods (id : MethodId) : seeded.method id = default := rfl
  cases place with
  | superclass id =>
    obtain ⟨type, isType, rfl⟩ := Option.map_eq_some_iff.1 is
    refine ⟨id, rfl, ?_⟩
    rcases seeded_symbol id with isIn | blank
    · rw [(builtin _ isIn).2 type isType]
    · rw [blank] at isType
      cases isType
  | interface id index =>
    have none : (seeded.symbol id).interfaces = [] := by
      rcases seeded_symbol id with isIn | blank
      · exact (builtin _ isIn).1
      · rw [blank]
        rfl
    simp [slot?, none] at is
  | variableType id => simp [slot?, noVars] at is
  | returnType id | thrownType id index =>
    rw [slot?, noMethods] at is
    cases is
  | existence | anonymousBase => cases is

end SymbolTable

namespace Context

theorem inOrder_start (options : Options) : (start options).InOrder :=
  ⟨lifecycle_start options, Pending.keyed_empty⟩

theorem inPlace_start (options : Options) : InPlace [] (start options) .none (start options) := by
  refine ⟨⟨rfl, nofun⟩, .refl _, List.nodup_nil, nofun, fun place _ _ => ?_, fun _ _ _ => False.elim⟩
  have untold : (start options).Untold [] place := ⟨rfl, .refl _⟩
  cases is : (start options).table.slot? place with
  | none => exact .idle untold is
  | some slot =>
    obtain ⟨id, rfl, rfl⟩ := SymbolTable.seeded_slot? is
    exact .root untold is

/-- After any requests every place is accounted for. -/
theorem inPlace_performAll (options : Options) (requests : List Request) :
    InPlace (requests.filterMap Request.unit?) (start options) .none
        ((start options).performAll requests)
      ∧ ((start options).performAll requests).InOrder :=
  (inPlace_start options).performAll (inOrder_start options) requests

/-! ## Records of references that are given up -/

/-- Whatever reference has been given up is recorded, and nothing else is recorded as unresolved. -/
structure RecordsAbandoned (cx : Context) : Prop where
  records : cx.unresolvedRecords
    = cx.abandonedRefs.map fun r => r.unresolvedDiagnostic (cx.fileName r.file)
  known : ∀ r ∈ cx.abandonedRefs, r.file.val < cx.files.size

namespace RecordsAbandoned

variable {a b : Context} (kept : a.RecordsAbandoned)
include kept

theorem same (precedes : a.Precedes b) (abandoned : b.abandonedRefs = a.abandonedRefs)
    (records : b.unresolvedRecords = a.unresolvedRecords) : b.RecordsAbandoned := by
  refine ⟨?_, fun r isIn => ?_⟩
  · rw [records, abandoned, kept.records]
    simp only [precedes.fileName]
  · rw [precedes.files_size]
    exact kept.known r (abandoned ▸ isIn)

/-- A reference is met or linked. -/
theorem happens {e : Event} (precedes : a.Precedes b) (history : b.history = a.history.push e)
    (notAbandoned : e.abandoned? = none) (records : b.unresolvedRecords = a.unresolvedRecords) :
    b.RecordsAbandoned := by
  refine kept.same precedes ?_ records
  rw [abandonedRefs, history, Array.toList_push, List.filterMap_append,
    List.filterMap_cons_none notAbandoned, List.filterMap_nil, List.append_nil, abandonedRefs]

/-- Something else than an unresolved reference is recorded. -/
theorem pushed {d : Diagnostic} (precedes : a.Precedes b) (history : b.history = a.history)
    (pushed : b.log.diagnostics = a.log.diagnostics.push d) (other : d.code ≠ 2001) :
    b.RecordsAbandoned := by
  refine kept.same precedes (by rw [abandonedRefs, history, abandonedRefs]) ?_
  rw [unresolvedRecords_push pushed, beq_eq_false_iff_ne.2 other]
  exact List.append_nil _

/-- Nothing that a walk does on its own gives up a reference. -/
theorem act (act : Act a b) : b.RecordsAbandoned := by
  have precedes := act.precedes
  cases act with
  | note | header | enter => exact kept.same precedes rfl rfl
  | report file pos isLocal => exact kept.pushed precedes rfl rfl isLocal.code_ne.2
  | prune file node pos isLocal => exact kept.pushed precedes rfl rfl isLocal.code_ne.2
  | refuse e pos =>
    have other : (Problem.nestingTooDeep a.options.maxDepth).code ≠ 2001 := by
      simp only [Problem.code]
      decide
    exact kept.pushed precedes rfl rfl other
  | @link file scope isOpen written pos link hasPlace =>
    cases a.linkType_linking file scope written pos link with
    | none is =>
      rw [is]
      exact kept
    | @now f target inRun found is =>
      obtain ⟨-, history, records⟩ := apply_records (a.happened (.linked
        (a.reference f file scope (baseTypeName written) pos link) target)) file pos link target
      rw [← is] at history records
      exact kept.happens precedes history rfl records
    | later inRun met waits undeclared is =>
      rw [is] at precedes ⊢
      exact kept.happens precedes rfl rfl rfl

theorem steps (steps : Steps a b) : b.RecordsAbandoned := by
  refine steps.keeps (P := RecordsAbandoned) (fun act kept => kept.act act) (fun opens kept => ?_)
    (fun {cx id} _ kept => ?_) kept
  · have precedes := opens.precedes
    obtain @⟨qualified, outer, head, begun, -, -, -⟩ := opens
    obtain ⟨t, -, rfl⟩ := beginClass_some begun
    exact kept.happens (e := .began qualified) precedes rfl rfl rfl
  · have resumed := cx.defineComplete_resumed id
    refine kept.same (Precedes.defineComplete cx id) ?_ resumed.records
    simp [abandonedRefs, resumed.history, List.filterMap_map, Function.comp_def, Event.abandoned?]

theorem settle (owned : a.Owned) : a.settle.RecordsAbandoned := by
  have settles := a.settle_settles
  refine ⟨?_, fun r isIn => ?_⟩
  · rw [settles.records, settles.abandonedRefs_eq, List.map_append, kept.records]
    simp only [settles.precedes.fileName]
  · rw [settles.abandonedRefs_eq] at isIn
    rw [settles.precedes.files_size]
    rcases List.mem_append.1 isIn with before | stuck
    · exact kept.known r before
    · exact (owned.waiting r (List.mem_filter.1 stuck).1).2

theorem addFile (unit : SourceUnit) :
    (a.addFile unit.tree.fileName unit.level).2.RecordsAbandoned := by
  have known : ∀ r ∈ a.abandonedRefs, r.file.val < a.files.size := kept.known
  refine ⟨kept.records.trans (List.map_congr_left fun r isIn => ?_), fun r isIn => ?_⟩
  · have same : (a.addFile unit.tree.fileName unit.level).2.fileName r.file = a.fileName r.file := by
      simp only [fileName, file?, Context.addFile, Array.getElem?_push, (known r isIn).ne, if_false]
    rw [same]
  · exact (known r isIn).trans (by simp [Context.addFile])

theorem performAll (lifecycle : a.Lifecycle) (requests : List Request) :
    (a.performAll requests).RecordsAbandoned := by
  induction requests generalizing a with
  | nil => exact kept
  | cons request rest ih =>
    refine ih ?_ (lifecycle.perform request)
    cases request with
    | analyze unit => exact (kept.addFile unit).steps (a.analyzeFile_run unit).steps
    | settle => exact kept.settle lifecycle.owned

end RecordsAbandoned

/-! ## What slots hold -/

section

variable {units : List SourceUnit} {pool : List PendingReference} {cx : Context} {file : FileId}
  {m : Mention} {resolved : Option SymbolId} {unit : SourceUnit} {place : Link}

/-- The times that the place has been filled, with the classes. -/
def fillings (cx : Context) (place : Link) : List (Link × SymbolId) :=
  (cx.history.toList.filterMap Event.filled?).filter (·.1 == place)

/-- The class carries one of the names that the type may denote where it is written. -/
def MayDenote (unit : SourceUnit) (file : FileId) (m : Mention) (target : SymbolId) (cx : Context) :
    Prop :=
  ∃ f, unit.Heads file f ∧ cx.Denotes (Resolution.names cx.table f
    (some (cx.table.enclosingSymbol m.scope)) (baseTypeName m.written)) target

/-- No class has been found for the type: the reference made of it waits, or it refers to no class, or it
is recorded as unresolved where it is written, under the name that it has waited for. -/
def Unfound (unit : SourceUnit) (file : FileId) (m : Mention) (cx : Context) : Prop :=
  (∃ r ∈ cx.pending.all, r.site = ⟨file, m.pos, m.link⟩)
    ∨ cx.namesNoClass (some m.scope) (baseTypeName m.written)
    ∨ ∃ f, unit.Heads file f ∧ .ofProblem unit.tree.fileName m.pos
        (.unresolved (Resolution.waitingName f (baseTypeName m.written))) ∈ cx.log.diagnostics.toList

/-- The type has landed in its place. The place has been filled once, with a class that the type may
denote, or never, if no class has been found. -/
structure Lands (units : List SourceUnit) (file : FileId) (m : Mention) (resolved : Option SymbolId)
    (unit : SourceUnit) (cx : Context) : Prop extends
    Landed units cx.pending.all file m resolved unit cx where
  once : cx.fillings m.link = resolved.toList.map (m.link, ·)
  denotes : ∀ target ∈ resolved, MayDenote unit file m target cx
  unfound : resolved = none → Unfound unit file m cx

theorem Standing.fillings_eq {events : List Event} {waiting : List PendingReference}
    (standing : cx.Standing pool place events waiting) :
    cx.fillings place = events.filterMap Event.filled? := by
  rw [← standing.events, fillings]
  induction cx.history.toList with
  | nil => rfl
  | cons e rest ih =>
    cases filled : e.filled? with
    | none =>
      rw [List.filterMap_cons_none filled, ih, List.filter_cons]
      split
      · rw [List.filterMap_cons_none filled]
      · rfl
    | some entry =>
      obtain ⟨link, target⟩ := entry
      rw [List.filterMap_cons_some filled, List.filter_cons, List.filter_cons, ih,
        Event.place?_of_filled filled]
      by_cases here : link = place
      · simp [here, List.filterMap_cons_some filled]
      · simp [here]

theorem Untold.fillings_eq (untold : cx.Untold pool place) : cx.fillings place = [] :=
  Standing.fillings_eq untold

/-- The place has been filled once if a class has been found, and never otherwise. -/
theorem Fate.fillings_eq (fate : Fate pool unit file m cx resolved) :
    cx.fillings m.link = resolved.toList.map (m.link, ·) := by
  have filled {r : Reference} (isOf : IsOf unit file m r cx) : r.link = m.link :=
    congrArg TypeSite.link isOf.site
  cases fate with
  | noClass _ untold => exact untold.fillings_eq
  | linked isOf _ standing | resumed isOf _ standing =>
    refine standing.fillings_eq.trans ?_
    rw [← filled isOf]
    rfl
  | waiting _ _ standing | abandoned _ _ standing => exact standing.fillings_eq

/-- A class that has been found carries a name that the type may denote. -/
theorem Fate.mayDenote {target : SymbolId} (fate : Fate pool unit file m cx (some target)) :
    MayDenote unit file m target cx := by
  have named {r : Reference} (isOf : IsOf unit file m r cx)
      (denotes : cx.Denotes r.candidates target) : MayDenote unit file m target cx := by
    obtain ⟨f, heads, -, names⟩ := isOf.names
    rw [names] at denotes
    exact ⟨f, heads, denotes⟩
  cases fate with
  | linked isOf denotes | resumed isOf denotes => exact named isOf denotes

theorem Fate.unfound (fate : Fate cx.pending.all unit file m cx none) : Unfound unit file m cx := by
  cases fate with
  | noClass names => exact .inr (.inl names)
  | @waiting r isOf _ standing =>
    have waits := standing.waiting.mem_iff.2 List.mem_cons_self
    exact .inl ⟨r.waiting, (List.mem_filter.1 waits).1, isOf.site⟩
  | @abandoned r isOf recorded standing =>
    obtain ⟨f, heads, key, -⟩ := isOf.names
    have isAt : r.waiting.position = m.pos := congrArg TypeSite.position isOf.site
    have isKey : r.waiting.name = _ := key
    rw [PendingReference.unresolvedDiagnostic, isAt, isKey] at recorded
    exact .inr (.inr ⟨f, heads, recorded⟩)

theorem Landed.lands (landed : Landed units cx.pending.all file m resolved unit cx) :
    Lands units file m resolved unit cx where
  toLanded := landed
  once := landed.fate.fillings_eq
  denotes target isTarget := by
    obtain rfl := Option.mem_def.1 isTarget
    exact landed.fate.mayDenote
  unfound none := by
    subst none
    exact landed.fate.unfound

/-- A reference has been met for a type, or no class has been looked for. -/
theorem Landed.met (landed : Landed units pool file m resolved unit cx) : resolved = none
    ∨ ∃ e r, e ∈ cx.history.toList ∧ e.met? = some r ∧ r.link = m.link := by
  have first {e : Event} {events : List Event} {waiting : List PendingReference}
      (standing : cx.Standing pool m.link (e :: events) waiting) {r : Reference}
      (met : e.met? = some r) : ∃ e r, e ∈ cx.history.toList ∧ e.met? = some r ∧ r.link = m.link := by
    have isHere : e ∈ cx.history.toList.filter (·.place? == some m.link) := by
      rw [standing.events]
      exact List.mem_cons_self
    obtain ⟨happened, isAt⟩ := List.mem_filter.1 isHere
    refine ⟨e, r, happened, met, ?_⟩
    cases e with
    | linked r' | deferred r' =>
      obtain rfl := Option.some.inj met
      exact Option.some.inj (beq_iff_eq.1 isAt)
    | _ => cases met
  cases landed.fate with
  | noClass => exact .inl rfl
  | linked _ _ standing => exact .inr (first standing rfl)
  | waiting _ _ standing => exact .inr (first standing rfl)
  | resumed _ _ standing => exact .inr (first standing rfl)
  | abandoned _ _ standing => exact .inr (first standing rfl)

/-- What a slot holds, and which of the types that have been used it comes of. -/
inductive Holds (used : Walk → TypeUse → Context → Prop) (units : List SourceUnit) (cx : Context)
    (place : Link) (slot : Slot) : Prop where
  /-- A class that says nothing about it extends the root class. -/
  | root {id : SymbolId} (isSuperclass : place = .superclass id)
      (holds : slot = { type := cx.table.objectRef, scope := .symbol id })
      (never : cx.fillings place = []) : Holds used units cx place slot
  /-- An anonymous class extends its base, for which one class has been found, and its slots have not
  been filled on their own. -/
  | based {w : Walk} {a : Context} {m : Mention} {unit : SourceUnit} {id target : SymbolId}
      (isUsed : used w m.use a) (isBase : m.link = .anonymousBase id) (isParent : place.IsParentOf id)
      (lands : Lands units w.file m (some target) unit cx) (never : cx.fillings place = []) :
      Holds used units cx place slot
  /-- The slot is that of a type that has been used. -/
  | written {w : Walk} {a : Context} {m : Mention} {resolved : Option SymbolId} {unit : SourceUnit}
      (isUsed : used w m.use a) (isAt : m.link = place)
      (lands : Lands units w.file m resolved unit cx)
      (holds : slot = { type := { name := m.written, resolved }, scope := m.scope }) :
      Holds used units cx place slot

end

/-! ## Runs -/

section

variable {options : Options} {requests : List Request} {file : FileId} {m : Mention}
  {resolved : Option SymbolId} {unit : SourceUnit} {place : Link}

/-- A type that is used, and that has a place in the table, has landed there by the end of the run. -/
theorem Uses.landsOnce {w : Walk} {u : TypeUse} {a : Context}
    (uses : (start options).Uses requests w u a) (real : u.link ≠ .existence) :
    ∃ m resolved unit, u = m.use ∧ Lands (requests.filterMap Request.unit?) w.file m resolved unit
      ((start options).performAll requests) := by
  obtain ⟨m, resolved, unit, is, landed⟩ :=
    uses.lands (inPlace_start options) (inOrder_start options) real
  exact ⟨m, resolved, unit, is, landed.lands⟩

/-- A type lands only where one has been used. The base of an anonymous class has, at least, if a class
has been found for it. -/
theorem Landed.isUsed {units : List SourceUnit} {pool : List PendingReference}
    (landed : Landed units pool file m resolved unit ((start options).performAll requests))
    (hasSlot : resolved = none → m.link.IsDirect) :
    ∃ w u a, (start options).Uses requests w u a ∧ u.link = m.link := by
  have accrues := performAll_accrues (start options) (lifecycle_start options) requests
  rcases landed.met with rfl | ⟨e, r, happened, met, isAt⟩
  · have slot := (SymbolTable.shows_iff (hasSlot rfl)).1 landed.shown
    have root : SymbolTable.seeded.objectRef.resolved.isSome := by decide +kernel
    rcases accrues.slots root m.link _ slot rfl with seeded | ⟨w, u, a, uses, isAt⟩
    · obtain ⟨id, -, isRoot⟩ := SymbolTable.seeded_slot? seeded
      have unresolved : none = SymbolTable.seeded.objectRef.resolved :=
        congrArg (fun slot : Slot => slot.type.resolved) isRoot
      rw [← unresolved] at root
      cases root
    · exact ⟨w, u, a, uses, isAt⟩
  · obtain ⟨before, after, split⟩ := List.append_of_mem happened
    obtain ⟨w, u, a, uses, refers, -⟩ := accrues.met before e after r split (Nat.zero_le _) met
    exact ⟨w, u, a, uses, refers.site.1.trans isAt⟩

/-- The account of a place tells what its slot holds. -/
theorem Account.holds (account : Account (requests.filterMap Request.unit?)
      ((start options).performAll requests).pending.all ((start options).performAll requests) place)
    {slot : Slot} (is : ((start options).performAll requests).table.slot? place = some slot) :
    Holds ((start options).Uses requests) (requests.filterMap Request.unit?)
      ((start options).performAll requests) place slot := by
  cases account with
  | idle _ empty =>
    rw [empty] at is
    cases is
  | root untold isRoot =>
    obtain rfl := Option.some.inj (isRoot.symm.trans is)
    exact .root rfl rfl untold.fillings_eq
  | @based _ id target file m unit untold isParent isBase base =>
    obtain ⟨w, u, a, uses, isAt⟩ := base.isUsed nofun
    obtain ⟨m', resolved, unit', rfl, lands⟩ := uses.landsOnce (isAt ▸ base.real)
    have isAt : m'.link = m.link := isAt
    -- both have been filled by the same class
    have once := lands.once
    rw [isAt, base.fate.fillings_eq] at once
    cases resolved with
    | none => cases once
    | some other => exact .based uses (isAt.trans isBase) isParent lands untold.fillings_eq
  | @landed file m resolved unit landed =>
    have direct := SymbolTable.isDirect_of_slot? is
    obtain ⟨w, u, a, uses, isAt⟩ := landed.isUsed fun _ => direct
    obtain ⟨m', resolved', unit', rfl, lands⟩ := uses.landsOnce (isAt ▸ landed.real)
    have isAt : m'.link = m.link := isAt
    have shown := (SymbolTable.shows_iff (isAt ▸ direct)).1 lands.shown
    rw [isAt] at shown
    exact .written uses isAt lands (Option.some.inj (is.symm.trans shown))

/-- References land where they belong. Each type that is used, and that has a place in the table, is
there as it is written, after any requests. Its place has been filled once, with a class that the type may
denote where it is written, or never; then the reference made of it waits, or it refers to no class, or
it is recorded as unresolved where it is written, under the name that it has waited for. Slots hold
nothing but such types, and the root class where a class says nothing else. The records of unresolved
references are those of the references that have been given up, one by one. The place that a
reference waits for is vacant. Whatever is requested later, slots come about, vacant places are filled,
and no more: what is written stays so, and what is linked stays linked. When the run is settled nothing
waits, and filling a vacant place changes nothing else. -/
theorem performAll_landings (options : Options) (requests : List Request) :
    (∀ w u a, (start options).Uses requests w u a → u.link ≠ .existence →
        ∃ m resolved unit, u = m.use
          ∧ Lands (requests.filterMap Request.unit?) w.file m resolved unit
            ((start options).performAll requests))
      ∧ (∀ place slot, ((start options).performAll requests).table.slot? place = some slot →
        Holds ((start options).Uses requests) (requests.filterMap Request.unit?)
          ((start options).performAll requests) place slot)
      ∧ (((start options).performAll requests).unresolvedRecords
        = ((start options).performAll requests).abandonedRefs.map fun r =>
          r.unresolvedDiagnostic (((start options).performAll requests).fileName r.file))
      ∧ (∀ r ∈ ((start options).performAll requests).pending.all,
        ((start options).performAll requests).table.Vacant r.link)
      ∧ (∀ more, ((start options).performAll requests).Unfolds
          ((start options).performAll (requests ++ more))
        ∧ ((start options).performAll requests).table.Keeps
          ((start options).performAll (requests ++ more)).table)
      ∧ ((start options).performAll (requests ++ [.settle])).pending = .empty
      ∧ ∀ (t : SymbolTable) (place : Link) (target : SymbolId), t.Vacant place →
        t.FillsOnly place target := by
  obtain ⟨inPlace, inOrder⟩ := inPlace_performAll options requests
  have nothing : (start options).RecordsAbandoned := ⟨rfl, nofun⟩
  have further (more : List Request) : (start options).performAll (requests ++ more)
      = ((start options).performAll requests).performAll more := List.foldl_append
  refine ⟨fun w u a uses real => uses.landsOnce real, fun place slot is => ?_,
    (nothing.performAll (lifecycle_start options) requests).records,
    fun r isIn => inPlace.accounted.vacant isIn, fun more => ?_, ?_,
    fun t place target vacant => vacant.fillsOnly target⟩
  · have real := SymbolTable.ne_existence_of_slot? is
    exact (inPlace.accounted.accounts place real List.not_mem_nil).holds is
  · -- the accounts of the state that has been come to are kept from there on
    have here : InPlace (requests.filterMap Request.unit?) ((start options).performAll requests) .none
        ((start options).performAll requests) :=
      ⟨inPlace.files, { inPlace.accounted with unfolds := .refl _ }⟩
    have unfolds := (here.performAll inOrder more).1.accounted.unfolds
    rw [further more]
    obtain ⟨events, history, table⟩ := unfolds
    exact ⟨⟨events, history, table⟩, table.keeps⟩
  · rw [further]
    exact (settle_settles _).pending

end

/-- A class with two fields of one type that nothing declares, and a field of a later class. -/
def missesTwice : SourceUnit where
  level := .full
  tree :=
    { fileName := "A.java", root := ⟨0⟩
      arena :=
        { nodes := #[
            ⟨.nowhere, .sourceFile none [] [⟨1⟩, ⟨8⟩]⟩,
            ⟨⟨1, 1⟩, .classDef [] "A" [] none [] [⟨2⟩, ⟨4⟩, ⟨6⟩]⟩,
            ⟨⟨2, 3⟩, .variableDeclaration [] [⟨3⟩]⟩,
            ⟨⟨2, 5⟩, .variableDeclarator "Missing" "x" none⟩,
            ⟨⟨3, 3⟩, .variableDeclaration [] [⟨5⟩]⟩,
            ⟨⟨3, 5⟩, .variableDeclarator "Missing" "y" none⟩,
            ⟨⟨4, 3⟩, .variableDeclaration [] [⟨7⟩]⟩,
            ⟨⟨4, 5⟩, .variableDeclarator "B" "z" none⟩,
            ⟨⟨6, 1⟩, .classDef [] "B" [] none [] []⟩] } }

/-- The type of a field of the class. -/
def fieldType (line : UInt32) (index : Nat) (written : String) : Mention :=
  { link := .variableType ⟨index⟩, scope := .symbol ⟨25⟩, written, pos := ⟨line, 5⟩ }

/-- Each of the fields has its type: those of the first two are recorded as unresolved, each where it is
written, and that of the third is linked to the later class. -/
theorem performAll_landings_missesTwice :
    (∃ w a, (start .usual).Uses [.analyze missesTwice, .settle] w (fieldType 2 0 "Missing").use a
      ∧ Lands [missesTwice] w.file (fieldType 2 0 "Missing") none missesTwice
        ((start .usual).performAll [.analyze missesTwice, .settle]))
      ∧ (∃ w a, (start .usual).Uses [.analyze missesTwice, .settle] w (fieldType 3 1 "Missing").use a
        ∧ Lands [missesTwice] w.file (fieldType 3 1 "Missing") none missesTwice
          ((start .usual).performAll [.analyze missesTwice, .settle]))
      ∧ (∃ w a, (start .usual).Uses [.analyze missesTwice, .settle] w (fieldType 4 2 "B").use a
        ∧ Lands [missesTwice] w.file (fieldType 4 2 "B") (some ⟨27⟩) missesTwice
          ((start .usual).performAll [.analyze missesTwice, .settle]))
      ∧ ((start .usual).performAll [.analyze missesTwice, .settle]).unresolvedRecords
        = [.ofProblem "A.java" ⟨2, 5⟩ (.unresolved "Missing"),
          .ofProblem "A.java" ⟨3, 5⟩ (.unresolved "Missing")] := by
  have accrues := performAll_accrues (start .usual) (lifecycle_start .usual)
    [.analyze missesTwice, .settle]
  obtain ⟨lands, -⟩ := performAll_landings .usual [.analyze missesTwice, .settle]
  -- a reference that has been met is one of a type that is used, and that type has landed
  have landed (before : List Event) (e : Event) (after : List Event) (r : Reference)
      (line : UInt32) (index : Nat) (written : String) (resolved : Option SymbolId)
      (split : ((start .usual).performAll [.analyze missesTwice, .settle]).history.toList
        = before ++ e :: after) (met : e.met? = some r)
      (isAt : r.link = .variableType ⟨index⟩ ∧ r.position = ⟨line, 5⟩)
      (slot : ((start .usual).performAll [.analyze missesTwice, .settle]).table.slot?
          (.variableType ⟨index⟩)
        = some { type := { name := written, resolved }, scope := .symbol ⟨25⟩ }) :
      ∃ w a, (start .usual).Uses [.analyze missesTwice, .settle] w (fieldType line index written).use a
        ∧ Lands [missesTwice] w.file (fieldType line index written) resolved missesTwice
          ((start .usual).performAll [.analyze missesTwice, .settle]) := by
    obtain ⟨w, u, a, uses, refers, -⟩ := accrues.met before e after r split (Nat.zero_le _) met
    obtain ⟨link, pos⟩ := refers.site
    rw [isAt.1] at link
    rw [isAt.2] at pos
    obtain ⟨⟨link', scope, written', pos'⟩, resolved', unit, rfl, lands⟩ :=
      lands w u a uses (link ▸ nofun)
    obtain rfl : link' = _ := link
    obtain rfl : pos' = _ := pos
    have direct : (Link.variableType ⟨index⟩).IsDirect := trivial
    have shown := (SymbolTable.shows_iff direct).1 lands.shown
    cases slot.symm.trans shown
    obtain rfl := List.mem_singleton.1 (List.mem_of_getElem? lands.given)
    exact ⟨w, a, uses, lands⟩
  let met (line : UInt32) (index : Nat) (written : String) : Reference :=
    { file := ⟨0⟩, position := ⟨line, 5⟩, link := .variableType ⟨index⟩
      candidates := ["A$" ++ written, written, "java.lang." ++ written], key := written }
  have history : ((start .usual).performAll [.analyze missesTwice, .settle]).history.toList
      = [.began "A", .deferred (met 2 0 "Missing"), .deferred (met 3 1 "Missing"),
        .deferred (met 4 2 "B"), .began "B", .resumed (met 4 2 "B").waiting ⟨27⟩,
        .abandoned (met 2 0 "Missing").waiting, .abandoned (met 3 1 "Missing").waiting] := by
    decide +kernel
  exact ⟨landed [_] _ _ _ 2 0 "Missing" none history rfl ⟨rfl, rfl⟩ (by decide +kernel),
    landed [_, _] _ _ _ 3 1 "Missing" none history rfl ⟨rfl, rfl⟩ (by decide +kernel),
    landed [_, _, _] _ _ _ 4 2 "B" (some ⟨27⟩) history rfl ⟨rfl, rfl⟩ (by decide +kernel),
    by decide +kernel⟩

end Context

end LevelCheck
