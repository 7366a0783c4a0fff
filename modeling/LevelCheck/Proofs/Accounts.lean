import LevelCheck.Proofs.Attribution
import LevelCheck.Proofs.Vacancies
set_option autoImplicit false

/-! # Accounts of places

A reference that waits knows its place by ids and indices only, and may be linked long after its type
was written, when its class or the method has grown. Still the class that is found for it lands in the
slot that the type was written in, and nowhere else. This is kept as an account of every place: what has
happened to references for it, which of them wait, and what the table shows there. Whatever a run does
happens to one place at a time, and leaves the accounts of the others alone. -/

namespace LevelCheck

/-! ## The names of a file -/

/-- The walk of the unit as a file of a run. -/
def SourceUnit.walk (unit : SourceUnit) (file : FileId) : Walk :=
  { arena := unit.tree.arena, policy := unit.level, file }

/-- The names that are known in the file at some time: those of no header, or of headers read one after
the other. -/
inductive SourceUnit.Heads (unit : SourceUnit) (file : FileId) : FileScope → Prop where
  | start : Heads unit file (.start file unit.tree.fileName unit.level)
  | header {f : FileScope} (heads : Heads unit file f) {idx : NodeIndex} {node : Node}
      {package : Option String} {imports : List ImportDecl} {types : List NodeIndex}
      (found : unit.tree.arena.get? idx = some node)
      (is : node.data = .sourceFile package imports types) :
      Heads unit file ((types.filterMap (unit.walk file).typeName?).foldl FileScope.declareClass
        (f.recordHeader package imports))

theorem SourceUnit.Heads.name {unit : SourceUnit} {file : FileId} {f : FileScope}
    (heads : unit.Heads file f) : f.name = unit.tree.fileName := by
  induction heads with
  | start => rfl
  | header _ _ _ ih => exact (FileScope.KeepsIdentity.header _ _ _ _).1.trans ih

/-- The place that the event is about, if it is about a reference. -/
def Event.place? (e : Event) : Option Link := e.site?.map (·.link)

theorem Event.place?_of_filled {e : Event} {place : Link} {target : SymbolId}
    (filled : e.filled? = some (place, target)) : e.place? = some place := by
  cases e with
  | linked | resumed =>
    obtain ⟨rfl, -⟩ := Prod.mk.inj (Option.some.inj filled)
    rfl
  | _ => cases filled

namespace Context

/-! ## What is known of a place -/

/-- The events are those of references for the place, and the references are those that wait to fill
it. -/
structure Standing (pool : List PendingReference) (cx : Context) (place : Link) (events : List Event)
    (waiting : List PendingReference) : Prop where
  events : cx.history.toList.filter (·.place? == some place) = events
  waiting : (pool.filter (·.link == place)).Perm waiting

/-- No reference for the place has been met. -/
def Untold (pool : List PendingReference) (cx : Context) (place : Link) : Prop :=
  cx.Standing pool place [] []

/-- The reference is that of the type: it may denote what the type may denote where it is written, and
waits for what the type is waited for. -/
structure IsOf (unit : SourceUnit) (file : FileId) (m : Mention) (r : Reference) (cx : Context) :
    Prop where
  site : r.site = ⟨file, m.pos, m.link⟩
  names : ∃ f, unit.Heads file f ∧ r.key = Resolution.waitingName f (baseTypeName m.written)
    ∧ r.candidates
      = Resolution.names cx.table f (some (cx.table.enclosingSymbol m.scope)) (baseTypeName m.written)

/-- The class of the table carries one of the names. -/
def Denotes (cx : Context) (names : List String) (target : SymbolId) : Prop :=
  target.val < cx.table.size ∧ (cx.table.symbol target).name ∈ names

/-- What has become of a type that was to be linked, and the class that was found for it. -/
inductive Fate (pool : List PendingReference) (unit : SourceUnit) (file : FileId) (m : Mention)
    (cx : Context) : Option SymbolId → Prop where
  | noClass (names : cx.namesNoClass (some m.scope) (baseTypeName m.written))
      (untold : cx.Untold pool m.link) : Fate pool unit file m cx none
  | linked {r : Reference} {target : SymbolId} (isOf : IsOf unit file m r cx)
      (denotes : cx.Denotes r.candidates target)
      (standing : cx.Standing pool m.link [.linked r target] []) :
      Fate pool unit file m cx (some target)
  | waiting {r : Reference} (isOf : IsOf unit file m r cx) (waits : r.key ∈ r.candidates)
      (standing : cx.Standing pool m.link [.deferred r] [r.waiting]) :
      Fate pool unit file m cx none
  | resumed {r : Reference} {target : SymbolId} (isOf : IsOf unit file m r cx)
      (denotes : cx.Denotes r.candidates target)
      (standing : cx.Standing pool m.link [.deferred r, .resumed r.waiting target] []) :
      Fate pool unit file m cx (some target)
  | abandoned {r : Reference} (isOf : IsOf unit file m r cx)
      (recorded : r.waiting.unresolvedDiagnostic unit.tree.fileName ∈ cx.log.diagnostics.toList)
      (standing : cx.Standing pool m.link [.deferred r, .abandoned r.waiting] []) :
      Fate pool unit file m cx none

/-- The type has been linked as far as possible, and the table shows the class that was found. -/
structure Landed (units : List SourceUnit) (pool : List PendingReference) (file : FileId)
    (m : Mention) (resolved : Option SymbolId) (unit : SourceUnit) (cx : Context) : Prop where
  given : units[file.val]? = some unit
  said : unit.tree.arena.Writes m.link m.written m.pos
  scopeOpen : cx.table.IsOpen m.scope
  openPlace : cx.table.OpenPlace m.link
  /-- The base of an anonymous class is written in the scope around the class. -/
  around : ∀ id, m.link = .anonymousBase id → cx.table.outerOf (.symbol id) = some m.scope
  shown : cx.table.Shows m resolved
  fate : Fate pool unit file m cx resolved

/-- The account of a place. -/
inductive Account (units : List SourceUnit) (pool : List PendingReference) (cx : Context) :
    Link → Prop where
  /-- Nothing is written there. -/
  | idle {place : Link} (untold : cx.Untold pool place) (empty : cx.table.slot? place = none) :
      Account units pool cx place
  /-- The class extends the root class without saying so. -/
  | root {id : SymbolId} (untold : cx.Untold pool (.superclass id))
      (is : cx.table.slot? (.superclass id)
        = some { type := cx.table.objectRef, scope := .symbol id }) :
      Account units pool cx (.superclass id)
  /-- The class is anonymous, and its base has been found. -/
  | based {place : Link} {id target : SymbolId} {file : FileId} {m : Mention} {unit : SourceUnit}
      (untold : cx.Untold pool place) (isParent : place.IsParentOf id)
      (isBase : m.link = .anonymousBase id)
      (base : Landed units pool file m (some target) unit cx) : Account units pool cx place
  /-- A type is written there. -/
  | landed {file : FileId} {m : Mention} {resolved : Option SymbolId} {unit : SourceUnit}
      (landed : Landed units pool file m resolved unit cx) : Account units pool cx m.link

/-! ## Later states -/

/-- The second state comes after the first, and whatever may be said about names in the scopes of the
first may be said in the second. -/
structure Follows (a b : Context) : Prop where
  log : a.log.diagnostics.toList <+: b.log.diagnostics.toList
  table : a.table.KeepsSurroundings b.table
  before : a.table.Grounded
  after : b.table.Grounded

section

variable {units : List SourceUnit} {pool pool' : List PendingReference} {a b : Context}
  {unit : SourceUnit} {file : FileId} {m : Mention} {resolved : Option SymbolId} {place link : Link}

theorem Follows.course (lifecycle : a.Lifecycle) (course : Course a b) : a.Follows b :=
  ⟨course.precedes.log, course.keepsSurroundings, lifecycle.grounded,
    (lifecycle.course course).grounded⟩

theorem Follows.objectRef (follows : a.Follows b) : b.table.objectRef = a.table.objectRef :=
  (follows.before.objectRef_eq follows.table.grows follows.after.forest).1

theorem Follows.root (follows : a.Follows b) : a.table.objectRef.resolved.isSome :=
  (follows.before.objectRef_eq follows.table.grows follows.after.forest).2

/-- An anonymous class stays in the scope that its base is written in. -/
theorem Follows.around (follows : a.Follows b) (openPlace : a.table.OpenPlace m.link)
    (around : ∀ id, m.link = .anonymousBase id → a.table.outerOf (.symbol id) = some m.scope) :
    ∀ id, m.link = .anonymousBase id → b.table.outerOf (.symbol id) = some m.scope := by
  intro id isBase
  have isOpen : a.table.IsOpen (.symbol id) := by
    rw [isBase] at openPlace
    exact openPlace
  exact (follows.table.outerOf isOpen).trans (around id isBase)

theorem Denotes.later {names : List String} {target : SymbolId} (denotes : a.Denotes names target)
    (grows : a.table.Grows b.table) : b.Denotes names target := by
  obtain ⟨known, named⟩ := denotes
  refine ⟨known.trans_le grows.symbols, ?_⟩
  rwa [grows.name target known]

theorem IsOf.later {r : Reference} (isOf : IsOf unit file m r a) (follows : a.Follows b)
    (isOpen : a.table.IsOpen m.scope) : IsOf unit file m r b := by
  obtain ⟨f, heads, key, names⟩ := isOf.names
  refine ⟨isOf.site, f, heads, key, ?_⟩
  rw [names_eq follows.table follows.before follows.after isOpen]
  exact names

/-- What has become of a type stays so, as long as nothing happens to its place. -/
theorem Fate.later (fate : Fate pool unit file m a resolved) (follows : a.Follows b)
    (isOpen : a.table.IsOpen m.scope) (still : ∀ events waiting,
      a.Standing pool m.link events waiting → b.Standing pool' m.link events waiting) :
    Fate pool' unit file m b resolved := by
  cases fate with
  | noClass names untold =>
    refine .noClass ?_ (still _ _ untold)
    rwa [namesNoClass_eq follows.table follows.before follows.after isOpen]
  | linked isOf denotes standing =>
    exact .linked (isOf.later follows isOpen) (denotes.later follows.table.grows) (still _ _ standing)
  | waiting isOf waits standing =>
    exact .waiting (isOf.later follows isOpen) waits (still _ _ standing)
  | resumed isOf denotes standing =>
    exact .resumed (isOf.later follows isOpen) (denotes.later follows.table.grows) (still _ _ standing)
  | abandoned isOf recorded standing =>
    exact .abandoned (isOf.later follows isOpen) (follows.log.subset recorded) (still _ _ standing)

/-- Something has become of the type since. -/
theorem Landed.next (landed : Landed units pool file m resolved unit a) (follows : a.Follows b)
    {resolved' : Option SymbolId} (shown : b.table.Shows m resolved')
    (fate : Fate pool' unit file m b resolved') : Landed units pool' file m resolved' unit b where
  given := landed.given
  said := landed.said
  scopeOpen := follows.table.grows.isOpen landed.scopeOpen
  openPlace := follows.table.grows.openPlace landed.openPlace
  around := follows.around landed.openPlace landed.around
  shown := shown
  fate := fate

theorem Landed.later (landed : Landed units pool file m resolved unit a) (follows : a.Follows b)
    (same : ∀ link, m.link.Bears link → b.table.slot? link = a.table.slot? link)
    (still : ∀ events waiting,
      a.Standing pool m.link events waiting → b.Standing pool' m.link events waiting) :
    Landed units pool' file m resolved unit b :=
  landed.next follows (landed.shown.keeps follows.table.grows follows.objectRef same)
    (landed.fate.later follows landed.scopeOpen still)

theorem Landed.real (landed : Landed units pool file m resolved unit a) : m.link ≠ .existence := by
  intro is
  have shown := (SymbolTable.shows_iff (by rw [is]; trivial)).1 landed.shown
  rw [is] at shown
  cases shown

/-- A reference for a place has been met only if a type is written there. -/
theorem Account.untold_or_landed (account : Account units pool a place) : a.Untold pool place
    ∨ ∃ file m resolved unit, m.link = place ∧ Landed units pool file m resolved unit a := by
  cases account with
  | idle untold | root untold | based untold => exact .inl untold
  | landed landed => exact .inr ⟨_, _, _, _, rfl, landed⟩

theorem Account.untold_of_empty (account : Account units pool a place) (direct : place.IsDirect)
    (empty : a.table.slot? place = none) : a.Untold pool place := by
  rcases account.untold_or_landed with untold | ⟨file, m, resolved, unit, rfl, landed⟩
  · exact untold
  · have shown := (SymbolTable.shows_iff direct).1 landed.shown
    rw [empty] at shown
    cases shown

theorem Account.untold_of_closed (account : Account units pool a place)
    (closed : ¬ a.table.OpenPlace place) : a.Untold pool place := by
  rcases account.untold_or_landed with untold | ⟨file, m, resolved, unit, rfl, landed⟩
  · exact untold
  · exact absurd landed.openPlace closed

/-! ## One place at a time -/

/-- Whatever happens between the two states happens to the place. -/
structure Touches (place : Link) (pool pool' : List PendingReference) (a b : Context) : Prop where
  follows : a.Follows b
  unfolds : a.Unfolds b
  slots : ∀ link, ¬ place.Bears link → b.table.slot? link = a.table.slot? link
  still : ∀ link, link ≠ place → ∀ events waiting, a.Standing pool link events waiting →
    b.Standing pool' link events waiting

theorem Landed.beside (landed : Landed units pool file m resolved unit a)
    (touches : Touches place pool pool' a b) (vacant : a.table.Vacant place)
    (differs : m.link ≠ place) : Landed units pool' file m resolved unit b :=
  landed.later touches.follows
    (fun link bears => touches.slots link
      (landed.shown.apart touches.follows.root vacant differs bears))
    (touches.still m.link differs)

/-- The accounts of the places apart from the one that something happens to stay. -/
theorem Account.beside (account : Account units pool a link)
    (touches : Touches place pool pool' a b) (vacant : a.table.Vacant place)
    (apart : ¬ place.Bears link) : Account units pool' b link := by
  have differs : link ≠ place := fun is => apart (.inl is)
  have same := touches.slots link apart
  cases account with
  | idle untold empty => exact .idle (touches.still _ differs _ _ untold) (same.trans empty)
  | root untold is =>
    refine .root (touches.still _ differs _ _ untold) ?_
    rw [same, is, touches.follows.objectRef]
  | based untold isParent isBase base =>
    have notBase : _ ≠ place := fun is => apart (.inr ⟨_, is.symm.trans isBase, isParent⟩)
    exact .based (touches.still _ differs _ _ untold) isParent isBase
      (base.beside touches vacant notBase)
  | landed landed => exact .landed (landed.beside touches vacant differs)

end

/-! ## The accounts of a run -/

/-- Types that have been linked in files of a run, and that are followed from then on. -/
abbrev Followed := FileId → Mention → SourceUnit → Prop

/-- The types that are still to be linked are in their slots, and every other place has an account. The
table comes of an earlier one by what has happened since, and the types that are followed have landed. -/
structure Accounted (units : List SourceUnit) (since : Context) (followed : Followed)
    (todo : List Mention) (pool : List PendingReference) (cx : Context) : Prop where
  unfolds : since.Unfolds cx
  once : (todo.map (·.link)).Nodup
  due : ∀ m ∈ todo, cx.table.slot? m.link = some m.slot ∧ cx.Untold pool m.link
  accounts : ∀ place, place ≠ .existence → place ∉ todo.map (·.link) → Account units pool cx place
  lands : ∀ file m unit, followed file m unit → ∃ resolved, Landed units pool file m resolved unit cx

namespace Accounted

variable {units : List SourceUnit} {since : Context} {followed : Followed} {todo todo' : List Mention}
  {pool pool' : List PendingReference} {a b : Context} {unit : SourceUnit} {file : FileId}
  {m : Mention} {resolved : Option SymbolId} {place : Link}
  (accounted : Accounted units since followed todo pool a)
include accounted

theorem of_empty (direct : place.IsDirect) (real : place ≠ .existence)
    (empty : a.table.slot? place = none) : a.Untold pool place := by
  refine (accounted.accounts place real fun isIn => ?_).untold_of_empty direct empty
  obtain ⟨m, isDue, rfl⟩ := List.mem_map.1 isIn
  rw [(accounted.due m isDue).1] at empty
  cases empty

/-- Something happens to one place, which is accounted for. -/
theorem touch (touches : Touches place pool pool' a b) (vacant : a.table.Vacant place)
    (sub : todo'.Sublist todo) (apart : ∀ m ∈ todo', m.link ≠ place)
    (dropped : ∀ m ∈ todo, m ∈ todo' ∨ m.link = place)
    (own : ∀ link, place.Bears link → link ≠ .existence → Account units pool' b link)
    (ownLands : ∀ file m unit resolved, followed file m unit → m.link = place →
      Landed units pool file m resolved unit a → ∃ resolved, Landed units pool' file m resolved unit b) :
    Accounted units since followed todo' pool' b where
  unfolds := accounted.unfolds.trans touches.unfolds
  once := accounted.once.sublist (sub.map _)
  due m isDue := by
    obtain ⟨slot, untold⟩ := accounted.due m (sub.subset isDue)
    have differs := apart m isDue
    refine ⟨(touches.slots m.link ?_).trans slot, touches.still m.link differs _ _ untold⟩
    rintro (is | ⟨id, rfl, isParent⟩)
    · exact differs is
    · rw [SymbolTable.slot?_of_bare vacant isParent] at slot
      cases slot
  accounts link real notDue := by
    by_cases bears : place.Bears link
    · exact own link bears real
    · refine (accounted.accounts link real fun isIn => ?_).beside touches vacant bears
      obtain ⟨m, isDue, rfl⟩ := List.mem_map.1 isIn
      rcases dropped m isDue with still | is
      · exact notDue (List.mem_map_of_mem still)
      · exact bears (.inl is)
  lands file m unit isFollowed := by
    obtain ⟨resolved, landed⟩ := accounted.lands file m unit isFollowed
    by_cases here : m.link = place
    · exact ownLands file m unit resolved isFollowed here landed
    · exact ⟨resolved, landed.beside touches vacant here⟩

/-- Nothing happens to any place. -/
theorem quiet (touches : Touches .existence pool pool' a b) :
    Accounted units since followed todo pool' b := by
  refine accounted.touch touches trivial (.refl todo) (fun m isDue is => ?_) (fun m => .inl)
    (fun link bears real => ?_) fun file m unit resolved _ here landed => ?_
  · have slot := (accounted.due m isDue).1
    rw [is] at slot
    cases slot
  · exact absurd ((show Link.existence.IsDirect from trivial).of_bears bears) real
  · exact absurd here landed.real

/-- A type is linked as far as possible, or linked at last, or given up. -/
theorem land (touches : Touches m.link pool pool' a b) (shown : a.table.Shows m none)
    (landed : Landed units pool' file m resolved unit b) (sub : todo'.Sublist todo)
    (apart : ∀ m' ∈ todo', m'.link ≠ m.link) (dropped : ∀ m' ∈ todo, m' ∈ todo' ∨ m'.link = m.link)
    (ownLands : ∀ file m' unit resolved, followed file m' unit → m'.link = m.link →
      Landed units pool file m' resolved unit a →
      ∃ resolved, Landed units pool' file m' resolved unit b) :
    Accounted units since followed todo' pool' b := by
  have vacant := shown.vacant
  refine accounted.touch touches vacant sub apart dropped (fun link bears real => ?_) ownLands
  rcases bears with rfl | ⟨id, isBase, isParent⟩
  · exact .landed landed
  · -- the class is anonymous, and has had no slots before
    rw [isBase] at vacant
    have empty := SymbolTable.slot?_of_bare vacant isParent
    have differs : link ≠ m.link := by
      rintro rfl
      rw [isBase] at isParent
      exact isParent.elim
    have untold := touches.still link differs _ _ (accounted.of_empty isParent.isDirect real empty)
    have extends' : b.table.Extends id resolved := by
      have shown' := landed.shown
      rwa [SymbolTable.Shows, isBase] at shown'
    cases resolved with
    | none =>
      cases extends' with
      | bare bare => exact .idle untold (SymbolTable.slot?_of_bare bare isParent)
    | some target => exact .based untold isParent isBase landed

end Accounted

/-! ## Events -/

section

variable {units : List SourceUnit} {pool pool' : List PendingReference} {a b : Context}
  {place link : Link} {e : Event} {events : List Event} {waiting waiting' : List PendingReference}

/-- Something happens to the place. -/
theorem Standing.after (standing : a.Standing pool place events waiting)
    (history : b.history = a.history.push e) (isAt : e.place? = some place)
    (waits : (pool'.filter (·.link == place)).Perm waiting') :
    b.Standing pool' place (events ++ [e]) waiting' := by
  refine ⟨?_, waits⟩
  rw [history, Array.toList_push, List.filter_append, standing.events]
  simp [isAt]

/-- Something happens to another place. -/
theorem Standing.beside (standing : a.Standing pool link events waiting)
    (history : b.history = a.history.push e) (isAt : e.place? ≠ some link)
    (waits : (pool'.filter (·.link == link)).Perm (pool.filter (·.link == link))) :
    b.Standing pool' link events waiting := by
  refine ⟨?_, waits.trans standing.waiting⟩
  rw [history, Array.toList_push, List.filter_append, standing.events]
  simp [isAt]

theorem Standing.same (standing : a.Standing pool link events waiting)
    (history : b.history = a.history)
    (waits : (pool'.filter (·.link == link)).Perm (pool.filter (·.link == link))) :
    b.Standing pool' link events waiting :=
  ⟨history ▸ standing.events, waits.trans standing.waiting⟩

/-- References for a place leave those for another place as they were. -/
theorem filter_cons_other {r : PendingReference} (differs : link ≠ r.link) :
    (r :: pool).filter (·.link == link) = pool.filter (·.link == link) := by
  rw [List.filter_cons, if_neg]
  simpa using Ne.symm differs

/-- A state that differs in nothing that accounts speak of. -/
theorem Touches.quiet (follows : a.Follows b) (same : a.table.SameSlots b.table)
    (history : b.history = a.history) (waits : pool'.Perm pool) :
    Touches .existence pool pool' a b where
  follows := follows
  unfolds := .adds history same.addsSlots
  slots link _ := same.slot? link
  still _ _ _ _ standing := standing.same history (waits.filter _)

/-- A reference is linked: its place is filled. -/
theorem Touches.apply (grounded : a.table.Grounded) {target : SymbolId}
    (filled : e.filled? = some (place, target)) (vacant : a.table.Vacant place)
    (waits : ∀ link, link ≠ place →
      (pool'.filter (·.link == link)).Perm (pool.filter (·.link == link)))
    (file : FileId) (pos : Position) :
    Touches place pool pool' a ((a.happened e).apply file pos place target) := by
  have precedes : a.Precedes ((a.happened e).apply file pos place target) :=
    (Precedes.happened a e).trans (.apply _ ..)
  have table : ((a.happened e).apply file pos place target).table = a.table.fill place target :=
    apply_table ..
  have history := (apply_records (a.happened e) file pos place target).2.1
  refine ⟨⟨precedes.log, ?_, grounded, ?_⟩, .fills history filled vacant table, fun link apart => ?_,
    fun link differs _ _ standing => standing.beside history ?_ (waits link differs)⟩
  · rw [table]
    exact .fill a.table place target
  · rw [table]
    exact grounded.fill place target
  · rw [table]
    exact SymbolTable.fill_slot?_other vacant apart target
  · rw [Event.place?_of_filled filled]
    exact fun is => differs (Option.some.inj is).symm

/-- A reference is given up. -/
theorem Touches.abandon (grounded : a.table.Grounded) (r : PendingReference) :
    Touches r.link (r :: pool) pool a (a.abandon r) where
  follows := ⟨(abandon_abandoned a r).precedes.log, .refl _, grounded, grounded⟩
  unfolds := .passes (e := .abandoned r) rfl rfl (SymbolTable.SameSlots.refl _).addsSlots
  slots _ _ := rfl
  still link differs _ _ standing := by
    refine standing.beside (e := .abandoned r) rfl ?_ ?_
    · exact fun is => differs (Option.some.inj is).symm
    · rw [filter_cons_other differs]

/-- A reference begins to wait. -/
theorem Touches.defer {r : Reference} (follows : a.Follows b)
    (table : b.table = (a.table.getOrAddPlaceholder r.key).2)
    (history : b.history = a.history.push (.deferred r)) (waits : pool'.Perm (r.waiting :: pool)) :
    Touches r.link pool pool' a b := by
  have same := SymbolTable.SameSlots.getOrAddPlaceholder a.table r.key
  rw [← table] at same
  refine ⟨follows, .passes history rfl same.addsSlots, fun link _ => same.slot? link,
    fun link differs _ _ standing => standing.beside history ?_ ?_⟩
  · exact fun is => differs (Option.some.inj is).symm
  · refine (waits.filter _).trans ?_
    rw [filter_cons_other (r := r.waiting) differs]

end

/-! ## Files -/

section

variable {units : List SourceUnit} {a b : Context}

/-- The files of the run are those that are given, with the names known in them at the time. -/
structure ReadsHeads (units : List SourceUnit) (cx : Context) : Prop where
  size : cx.files.size = units.length
  heads : ∀ file unit, units[file.val]? = some unit → ∃ f, cx.file? file = some f ∧ unit.Heads file f

theorem ReadsHeads.same (reads : a.ReadsHeads units) (files : b.files = a.files) :
    b.ReadsHeads units := by
  obtain ⟨size, heads⟩ := reads
  refine ⟨files ▸ size, fun file unit given => ?_⟩
  unfold file? at heads ⊢
  rw [files]
  exact heads file unit given

theorem apply_files (cx : Context) (file : FileId) (pos : Position) (link : Link)
    (target : SymbolId) : (cx.apply file pos link target).files = cx.files := by
  rw [apply]
  split <;> rfl

theorem linkType_files (cx : Context) (file : FileId) (scope : Option ScopeRef) (written : String)
    (pos : Position) (link : Link) : (cx.linkType file scope written pos link).files = cx.files := by
  cases cx.linkType_linking file scope written pos link with
  | none is => rw [is]
  | now inRun found is =>
    rw [is, apply_files]
    rfl
  | later inRun met waits undeclared is =>
    rw [is]
    rfl

end

/-! ## Linking a type -/

section

variable {units : List SourceUnit} {a b : Context} {unit : SourceUnit} {file : FileId} {m : Mention}

/-- Linking a type is the concern of its place only. -/
theorem linkType_touches (follows : a.Follows b) {scope : Option ScopeRef} {written : String}
    {pos : Position} {place : Link} (vacant : a.table.Vacant place)
    (next : a.linkType file scope written pos place = b) :
    Touches place a.pending.all b.pending.all a b := by
  cases a.linkType_linking file scope written pos place with
  | none is =>
    obtain rfl := is.symm.trans next
    exact ⟨follows, .refl _, fun _ _ => rfl, fun _ _ _ _ standing => standing⟩
  | @now f target inRun found is =>
    have isNext := next.symm.trans is
    generalize isReference : a.reference f file scope (baseTypeName written) pos place = r at *
    have filled : (Event.linked r target).filled? = some (place, target) := by
      rw [← isReference]
      rfl
    have pending := (apply_records (a.happened (.linked r target)) file pos place target).1
    rw [← isNext] at pending
    rw [pending, isNext]
    exact .apply follows.before filled vacant (fun _ _ => .refl _) file pos
  | @later f r inRun met waits undeclared is =>
    have isNext := next.symm.trans is
    have isPlace : r.link = place := by
      rw [met]
      rfl
    rw [isNext] at follows ⊢
    rw [← isPlace]
    exact .defer follows rfl rfl (a.pending.request_perm r.waiting)

/-- The class that a name is found to denote carries one of the names that are tried. -/
theorem denotes_of_found {f : FileScope} {scope : Option ScopeRef} {name : String} {target : SymbolId}
    (found : Resolution.ofName a.table f (scope.map a.table.enclosingSymbol) name = .found target)
    (file : FileId) (pos : Position) (link : Link) :
    a.Denotes (a.reference f file scope name pos link).candidates target := by
  refine ⟨Resolution.ofName_known found, ?_⟩
  simp only [reference]
  rcases Resolution.ofName_found found with candidate | ⟨primitive, denoted⟩
  · obtain ⟨tried, isTried, declared⟩ := List.exists_of_findSome?_eq_some candidate
    have named := (SymbolTable.lookup_eq_some (Option.filter_eq_some_iff.1 declared).1).2
    rwa [named]
  · rw [Resolution.names, primitive, denoted, (SymbolTable.lookup_eq_some denoted).2]
    exact List.mem_cons_self

theorem reference_isOf {f : FileScope} (heads : unit.Heads file f) (cx : Context) (m : Mention) :
    IsOf unit file m (cx.reference f file (some m.scope) (baseTypeName m.written) m.pos m.link) cx := by
  refine ⟨rfl, f, heads, by rw [reference], ?_⟩
  simp only [reference, Option.map_some]

section

variable (follows : a.Follows b) (scopeOpen : a.table.IsOpen m.scope) (shown : a.table.Shows m none)
  (untold : a.Untold a.pending.all m.link)

include follows scopeOpen shown untold

/-- A type whose class has been found is linked to it. -/
theorem linked_fate {r : Reference} {target : SymbolId} (isOf : IsOf unit file m r a)
    (denotes : a.Denotes r.candidates target) (openPlace : a.table.OpenPlace m.link)
    (is : b = (a.happened (.linked r target)).apply file m.pos m.link target) :
    b.table.Shows m (some target) ∧ Fate b.pending.all unit file m b (some target) := by
  have isAt : (Event.linked r target).place? = some m.link :=
    congrArg (fun site : TypeSite => some site.link) isOf.site
  obtain ⟨pending, history, -⟩ :=
    apply_records (a.happened (.linked r target)) file m.pos m.link target
  have filled : b.table.Shows m (some target) := by
    rw [is, apply_table]
    exact shown.fill openPlace denotes.1
  rw [← is] at pending history
  rw [pending]
  exact ⟨filled, .linked (isOf.later follows scopeOpen) (denotes.later follows.table.grows)
    (untold.after history isAt untold.waiting)⟩

/-- A type whose class may still be declared waits for that. -/
theorem deferred_fate {r : Reference} (isOf : IsOf unit file m r a) (waits : r.key ∈ r.candidates)
    (is : b = { a.happened (.deferred r) with
      table := (a.table.getOrAddPlaceholder r.key).2
      pending := a.pending.request r.waiting }) :
    b.table.Shows m none ∧ Fate b.pending.all unit file m b none := by
  have isAt : (Event.deferred r).place? = some m.link :=
    congrArg (fun site : TypeSite => some site.link) isOf.site
  have place : r.waiting.link = m.link := Option.some.inj isAt
  have same := SymbolTable.SameSlots.getOrAddPlaceholder a.table r.key
  have table : b.table = (a.table.getOrAddPlaceholder r.key).2 := by rw [is]
  rw [← table] at same
  have requested : b.pending.all.Perm (r.waiting :: a.pending.all) := by
    rw [is]
    exact a.pending.request_perm r.waiting
  have waiting : (b.pending.all.filter (·.link == m.link)).Perm [r.waiting] := by
    refine (requested.filter _).trans ?_
    rw [List.filter_cons, if_pos (by simp [place])]
    exact untold.waiting.cons _
  have history : b.history = a.history.push (.deferred r) := by
    rw [is]
    rfl
  exact ⟨shown.keeps follows.table.grows follows.objectRef fun link _ => same.slot? link,
    .waiting (isOf.later follows scopeOpen) waits (untold.after history isAt waiting)⟩

/-- A type that has not been linked is linked as far as possible. -/
theorem linkType_lands (reads : a.ReadsHeads units) (given : units[file.val]? = some unit)
    (said : unit.tree.arena.Writes m.link m.written m.pos) (openPlace : a.table.OpenPlace m.link)
    (around : ∀ id, m.link = .anonymousBase id → a.table.outerOf (.symbol id) = some m.scope)
    (next : a.linkType file (some m.scope) m.written m.pos m.link = b) :
    ∃ resolved, Landed units b.pending.all file m resolved unit b := by
  obtain ⟨f, inRun, heads⟩ := reads.heads file unit given
  have landed {resolved : Option SymbolId}
      (fate : b.table.Shows m resolved ∧ Fate b.pending.all unit file m b resolved) :
      ∃ resolved, Landed units b.pending.all file m resolved unit b := by
    exact ⟨resolved, given, said, follows.table.grows.isOpen scopeOpen,
      follows.table.grows.openPlace openPlace, follows.around openPlace around, fate.1, fate.2⟩
  by_cases names : a.namesNoClass (some m.scope) (baseTypeName m.written) = true
  · have same : b = a := by
      rw [← next, linkType]
      simp only [names, if_true]
    subst same
    exact landed ⟨shown, .noClass names untold⟩
  · simp only [Bool.not_eq_true] at names
    cases a.linkType_linking file (some m.scope) m.written m.pos m.link with
    | none same =>
      -- the reference has been met
      obtain ⟨e, history, -⟩ := linkType_meets inRun names m.pos m.link rfl
      rw [same] at history
      have sizes := congrArg Array.size history
      simp at sizes
    | now inRun' found is =>
      obtain rfl := Option.some.inj (inRun.symm.trans inRun')
      exact landed (linked_fate follows scopeOpen shown untold (reference_isOf heads a m)
        (denotes_of_found found file m.pos m.link) openPlace (next.symm.trans is))
    | later inRun' met waits undeclared is =>
      obtain rfl := Option.some.inj (inRun.symm.trans inRun')
      have isOf := reference_isOf heads a m
      rw [← met] at isOf
      exact landed (deferred_fate follows scopeOpen shown untold isOf waits (next.symm.trans is))

end

end

/-! ## References that have waited -/

section

variable {units : List SourceUnit} {since : Context} {followed : Followed}
  {pool : List PendingReference} {a b : Context} {r : PendingReference} {unit : SourceUnit}
  {file : FileId} {m : Mention} {resolved : Option SymbolId}

/-- No class has been found for a type as long as a reference waits to fill its place, and the reference
is that of the type. -/
theorem Landed.waiting (landed : Landed units pool file m resolved unit a) (isIn : r ∈ pool)
    (here : m.link = r.link) : resolved = none ∧ ∃ met, IsOf unit file m met a
      ∧ met.key ∈ met.candidates ∧ r = met.waiting ∧ a.Standing pool m.link [.deferred met] [r] := by
  have waits {events : List Event} {waiting : List PendingReference}
      (standing : a.Standing pool m.link events waiting) : r ∈ waiting := by
    refine standing.waiting.mem_iff.1 (List.mem_filter.2 ⟨isIn, ?_⟩)
    simp [here]
  cases landed.fate with
  | noClass _ standing | linked _ _ standing | resumed _ _ standing | abandoned _ _ standing =>
    exact absurd (waits standing) List.not_mem_nil
  | @waiting met isOf isKey standing =>
    obtain rfl := List.mem_singleton.1 (waits standing)
    exact ⟨rfl, met, isOf, isKey, rfl, standing⟩

/-- No other reference waits to fill the place. -/
theorem Standing.only {place : Link} {events : List Event} (is : place = r.link)
    (standing : a.Standing (r :: pool) place events [r]) : (pool.filter (·.link == place)).Perm [] := by
  have waiting := standing.waiting
  rw [List.filter_cons, if_pos (by simp [is])] at waiting
  exact List.Perm.cons_inv waiting

theorem Touches.resume (grounded : a.table.Grounded) (vacant : a.table.Vacant r.link)
    (target : SymbolId) : Touches r.link (r :: pool) pool a (Context.resume r target a) :=
  .apply grounded (e := .resumed r target) rfl vacant
    (fun link differs => by rw [filter_cons_other differs]) r.file r.position

/-- The type of a reference that has waited is linked. -/
theorem Landed.resume (landed : Landed units (r :: pool) file m resolved unit a)
    (here : m.link = r.link) (grounded : a.table.Grounded) {target : SymbolId}
    (denotes : a.Denotes (r.name :: r.alternatives) target) :
    Landed units pool file m (some target) unit (Context.resume r target a) := by
  obtain ⟨rfl, met, isOf, waits, rfl, standing⟩ := landed.waiting List.mem_cons_self here
  have vacant := landed.shown.vacant
  rw [here] at vacant
  have touches : Touches met.link (met.waiting :: pool) pool a _ := .resume grounded vacant target
  have follows := touches.follows
  have filled : (Context.resume met.waiting target a).table.Shows m (some target) := by
    rw [resume_table, ← here]
    exact landed.shown.fill landed.openPlace denotes.1
  have named : a.Denotes met.candidates target :=
    ⟨denotes.1, (Reference.mem_waiting waits _).1 denotes.2⟩
  have history := (apply_records (a.happened (.resumed met.waiting target)) met.waiting.file
    met.waiting.position met.waiting.link target).2.1
  have isAt : (Event.resumed met.waiting target).place? = some m.link := congrArg some here.symm
  exact landed.next follows filled (.resumed (isOf.later follows landed.scopeOpen)
    (named.later follows.table.grows) (standing.after history isAt (standing.only here)))

/-- The type of a reference that has waited is given up. -/
theorem Landed.abandon (landed : Landed units (r :: pool) file m resolved unit a)
    (here : m.link = r.link) (grounded : a.table.Grounded) (reads : a.ReadsHeads units) :
    Landed units pool file m none unit (a.abandon r) := by
  obtain ⟨rfl, met, isOf, waits, rfl, standing⟩ := landed.waiting List.mem_cons_self here
  have touches : Touches met.link (met.waiting :: pool) pool a _ := .abandon grounded met.waiting
  have follows := touches.follows
  obtain ⟨f, inRun, heads⟩ := reads.heads file unit landed.given
  have named : a.fileName met.waiting.file = unit.tree.fileName := by
    have isFile : met.waiting.file = file := congrArg TypeSite.file isOf.site
    rw [fileName, isFile, inRun]
    exact heads.name
  have recorded : met.waiting.unresolvedDiagnostic unit.tree.fileName
      ∈ (a.abandon met.waiting).log.diagnostics.toList := by
    rw [← named]
    exact Array.mem_toList_iff.2 Array.mem_push_self
  have isAt : (Event.abandoned met.waiting).place? = some m.link := congrArg some here.symm
  have shown := landed.shown.keeps follows.table.grows follows.objectRef fun _ _ => rfl
  exact landed.next follows shown (.abandoned (isOf.later follows landed.scopeOpen) recorded
    (standing.after rfl isAt (standing.only here)))

namespace Accounted

/-- A reference that waits is one of a type that no class has been found for. -/
theorem waiting (accounted : Accounted units since followed [] pool a) (isIn : r ∈ pool)
    (real : r.link ≠ .existence) :
    ∃ file m unit, m.link = r.link ∧ Landed units pool file m none unit a := by
  have account := accounted.accounts r.link real List.not_mem_nil
  rcases account.untold_or_landed with untold | ⟨file, m, resolved, unit, here, landed⟩
  · have waits := untold.waiting.mem_iff.1 (List.mem_filter.2 ⟨isIn, beq_self_eq_true r.link⟩)
    exact absurd waits List.not_mem_nil
  · obtain ⟨rfl, -⟩ := landed.waiting isIn here
    exact ⟨file, m, unit, here, landed⟩

/-- The place that a reference waits for is vacant. -/
theorem vacant (accounted : Accounted units since followed [] pool a) (isIn : r ∈ pool) :
    a.table.Vacant r.link := by
  by_cases exists' : r.link = .existence
  · rw [exists']
    trivial
  · obtain ⟨file, m, unit, here, landed⟩ := accounted.waiting isIn exists'
    have vacant := landed.shown.vacant
    rwa [here] at vacant

/-- A reference that has waited does so no longer, and its type lands. -/
theorem release (accounted : Accounted units since followed [] (r :: pool) a)
    (touches : Touches r.link (r :: pool) pool a b) {found : Option SymbolId}
    (lands : ∀ {file m unit resolved}, m.link = r.link →
      Landed units (r :: pool) file m resolved unit a → Landed units pool file m found unit b) :
    Accounted units since followed [] pool b := by
  by_cases exists' : r.link = .existence
  · rw [exists'] at touches
    exact accounted.quiet touches
  · obtain ⟨file, m, unit, here, landed⟩ := accounted.waiting List.mem_cons_self exists'
    rw [← here] at touches
    exact accounted.land touches landed.shown (lands here landed) (.refl []) (List.forall_mem_nil _)
      (List.forall_mem_nil _) fun _ _ _ _ _ same landed' => ⟨_, lands (same.trans here) landed'⟩

/-- A reference that has waited is linked. -/
theorem resume (accounted : Accounted units since followed [] (r :: pool) a)
    (grounded : a.table.Grounded) {target : SymbolId}
    (denotes : a.Denotes (r.name :: r.alternatives) target) :
    Accounted units since followed [] pool (Context.resume r target a) :=
  accounted.release (.resume grounded (accounted.vacant List.mem_cons_self) target)
    fun here landed => landed.resume here grounded denotes

/-- A reference that has waited is given up. -/
theorem abandon (accounted : Accounted units since followed [] (r :: pool) a)
    (grounded : a.table.Grounded) (reads : a.ReadsHeads units) :
    Accounted units since followed [] pool (a.abandon r) :=
  accounted.release (.abandon grounded r) fun here landed => landed.abandon here grounded reads

end Accounted

end

/-! ## New slots -/

section

variable {units : List SourceUnit} {since : Context} {followed : Followed} {todo : List Mention}
  {pool : List PendingReference} {a b : Context} {link : Link} {fresh : Link → Prop}

/-- The class has no base as far as is known: no reference for one has been met, and none of the types
that are followed is one. -/
structure Baseless (followed : Followed) (pool : List PendingReference) (cx : Context)
    (id : SymbolId) : Prop where
  untold : cx.Untold pool (.anonymousBase id)
  apart : ∀ file m unit, followed file m unit → m.link ≠ .anonymousBase id

/-- Slots are added, none of them to a class that is anonymous. -/
structure Adds (followed : Followed) (fresh : Link → Prop) (pool : List PendingReference)
    (a b : Context) : Prop where
  follows : a.Follows b
  history : b.history = a.history
  empty : ∀ link, fresh link → a.table.slot? link = none
  added : ∀ link, fresh link → ∀ slot, b.table.slot? link = some slot →
    slot.type.resolved = none ∨ slot.type = b.table.objectRef
  others : ∀ link, ¬ fresh link → b.table.slot? link = a.table.slot? link
  clear : ∀ link, fresh link → ∀ id, link.IsParentOf id → Baseless followed pool a id

theorem Adds.unfolds (adds : Adds followed fresh pool a b) : a.Unfolds b := by
  refine .adds adds.history ⟨fun link slot is => ?_, fun link slot empty is => ?_⟩
  · refine (adds.others link fun isFresh => ?_).trans is
    rw [adds.empty link isFresh] at is
    cases is
  · by_cases isFresh : fresh link
    · exact adds.added link isFresh slot is
    · rw [adds.others link isFresh, empty] at is
      cases is

theorem Fate.told {unit : SourceUnit} {file : FileId} {m : Mention} {target : SymbolId}
    (fate : Fate pool unit file m a (some target)) : ¬ a.Untold pool m.link := by
  intro untold
  cases fate with
  | linked _ _ standing | resumed _ _ standing =>
    have events := standing.events.symm.trans untold.events
    cases events

theorem Account.adding (account : Account units pool a link) (adds : Adds followed fresh pool a b)
    (old : ¬ fresh link) : Account units pool b link := by
  have still {link : Link} (events : List Event) (waiting : List PendingReference)
      (standing : a.Standing pool link events waiting) : b.Standing pool link events waiting :=
    standing.same adds.history (.refl _)
  have same := adds.others link old
  cases account with
  | idle untold empty => exact .idle (still _ _ untold) (same.trans empty)
  | root untold is =>
    refine .root (still _ _ untold) ?_
    rw [same, is, adds.follows.objectRef]
  | @based _ id _ _ m _ untold isParent isBase base =>
    refine .based (still _ _ untold) isParent isBase
      (base.later adds.follows (fun slot bears => ?_) still)
    rcases bears with rfl | ⟨child, isBase', isParent'⟩
    · rw [isBase]
      rfl
    · refine adds.others slot fun isFresh => ?_
      have untold' := (adds.clear slot isFresh child isParent').untold
      rw [← isBase'] at untold'
      exact base.fate.told untold'
  | @landed _ m _ _ landed =>
    by_cases cleared : ∃ slot, m.link.Bears slot ∧ fresh slot
    · obtain ⟨slot, rfl | ⟨id, isBase, isParent⟩, isFresh⟩ := cleared
      · exact absurd isFresh old
      · have untold := (adds.clear slot isFresh id isParent).untold
        rw [isBase]
        exact .idle (still _ _ untold) rfl
    · exact .landed (landed.later adds.follows
        (fun slot bears => adds.others slot fun isFresh => cleared ⟨slot, bears, isFresh⟩) still)

/-- Types are written, to be linked later, or classes get the root class. -/
theorem Accounted.add (accounted : Accounted units since followed todo pool a)
    (adds : Adds followed fresh pool a b) {news : List Mention} (once : (news.map (·.link)).Nodup)
    (written : ∀ m ∈ news, fresh m.link ∧ b.table.slot? m.link = some m.slot)
    (own : ∀ link, fresh link → link ∉ news.map (·.link) → Account units pool b link) :
    Accounted units since followed (todo ++ news) pool b := by
  have old {m : Mention} (isDue : m ∈ todo) : ¬ fresh m.link := by
    intro isFresh
    have slot := (accounted.due m isDue).1
    rw [adds.empty m.link isFresh] at slot
    cases slot
  refine ⟨accounted.unfolds.trans adds.unfolds, ?_, fun m isIn => ?_, fun link real notDue => ?_,
    fun file m unit isFollowed => ?_⟩
  · rw [List.map_append]
    refine accounted.once.append once fun link isDue isNew => ?_
    obtain ⟨m, isIn, rfl⟩ := List.mem_map.1 isDue
    obtain ⟨m', isIn', same⟩ := List.mem_map.1 isNew
    exact old isIn (same ▸ (written m' isIn').1)
  · rcases List.mem_append.1 isIn with isDue | isNew
    · obtain ⟨slot, untold⟩ := accounted.due m isDue
      exact ⟨(adds.others m.link (old isDue)).trans slot, untold.same adds.history (.refl _)⟩
    · obtain ⟨isFresh, slot⟩ := written m isNew
      have untold := accounted.of_empty (SymbolTable.isDirect_of_slot? slot)
        (SymbolTable.ne_existence_of_slot? slot) (adds.empty m.link isFresh)
      exact ⟨slot, untold.same adds.history (.refl _)⟩
  · rw [List.map_append, List.mem_append, not_or] at notDue
    by_cases isFresh : fresh link
    · exact own link isFresh notDue.2
    · exact (accounted.accounts link real notDue.1).adding adds isFresh
  · obtain ⟨resolved, landed⟩ := accounted.lands file m unit isFollowed
    refine ⟨resolved, landed.later adds.follows (fun link bears => ?_)
      fun _ _ standing => standing.same adds.history (.refl _)⟩
    rcases bears with rfl | ⟨id, isBase, isParent⟩
    · rcases m.link.direct_or_base with direct | ⟨id, isBase⟩
      · -- the type has its slot by now
        refine adds.others m.link fun isFresh => ?_
        have slot := (SymbolTable.shows_iff direct).1 landed.shown
        rw [adds.empty m.link isFresh] at slot
        cases slot
      · rw [isBase]
        rfl
    · exact adds.others link fun isFresh =>
        (adds.clear link isFresh id isParent).apart file m unit isFollowed isBase

/-- What a declaration writes is added, and is due. -/
theorem Accounted.write {t : SymbolTable} {news : List Mention}
    (accounted : Accounted units since followed todo pool a) (follows : a.Follows { a with table := t })
    (writes : a.table.Writes news t)
    (clear : ∀ m ∈ news, ∀ id, m.link.IsParentOf id → Baseless followed pool a id) :
    Accounted units since followed (todo ++ news) pool { a with table := t } := by
  have adds : Adds followed (· ∈ news.map (·.link)) pool a { a with table := t } := by
    refine ⟨follows, rfl, fun link isNew => ?_, fun link isNew slot is => ?_,
      fun link old => writes.others link old, fun link isNew id isParent => ?_⟩
    · obtain ⟨m, isIn, rfl⟩ := List.mem_map.1 isNew
      exact writes.fresh m isIn
    · obtain ⟨m, isIn, rfl⟩ := List.mem_map.1 isNew
      obtain rfl := Option.some.inj ((writes.slots m isIn).symm.trans is)
      exact .inl rfl
    · obtain ⟨m, isIn, rfl⟩ := List.mem_map.1 isNew
      exact clear m isIn id isParent
  exact accounted.add adds writes.once
    (fun m isIn => ⟨List.mem_map_of_mem isIn, writes.slots m isIn⟩)
    fun link isNew notNew => absurd isNew notNew

/-- A class that writes no superclass gets the root class, and nothing more is due. -/
theorem Accounted.extendRoot {id : SymbolId} {u : SymbolTable}
    (accounted : Accounted units since followed todo pool a)
    (is : u = a.table.modifySymbol id fun s => { s with superclass := some a.table.objectRef })
    (follows : a.Follows { a with table := u }) (isOpen : a.table.IsOpen (.symbol id))
    (bare : (a.table.symbol id).superclass = none) (clear : Baseless followed pool a id) :
    Accounted units since followed todo pool { a with table := u } := by
  have empty : a.table.slot? (.superclass id) = none := by
    rw [SymbolTable.slot?, bare]
    rfl
  have entered : u.slot? (.superclass id) = some { type := u.objectRef, scope := .symbol id } := by
    have root : u.objectRef = a.table.objectRef := follows.objectRef
    rw [root, is, a.table.slot?_enteredSuperclass isOpen.1]
  have adds : Adds followed (· = .superclass id) pool a { a with table := u } := by
    refine ⟨follows, rfl, fun link here => here ▸ empty, fun link here slot filled => ?_,
      fun link other => ?_, fun link here other isParent => ?_⟩
    · rw [here] at filled
      exact .inr (congrArg Slot.type (Option.some.inj (entered.symm.trans filled))).symm
    · rw [is]
      exact a.table.slot?_enterSuperclass id _ other
    · rw [here] at isParent
      obtain rfl : id = other := isParent
      exact clear
  have untold := accounted.of_empty (show (Link.superclass id).IsDirect from trivial)
    (by rintro ⟨⟩) empty
  have accounted' := accounted.add adds (show ([].map Mention.link).Nodup from List.nodup_nil)
    (List.forall_mem_nil _) fun link here _ => here ▸ .root (untold.same rfl (.refl _)) entered
  rwa [List.append_nil] at accounted'

/-- A type for which no reference has been met names no class. -/
theorem Landed.names_of_untold {unit : SourceUnit} {file : FileId} {m : Mention}
    {resolved : Option SymbolId} (landed : Landed units pool file m resolved unit a)
    (untold : a.Untold pool m.link) :
    resolved = none ∧ a.namesNoClass (some m.scope) (baseTypeName m.written) = true := by
  cases landed.fate with
  | noClass names => exact ⟨rfl, names⟩
  | linked _ _ standing | waiting _ _ standing | resumed _ _ standing | abandoned _ _ standing =>
    have events := standing.events.symm.trans untold.events
    cases events

/-- The first of the types that are due is linked as far as possible. -/
theorem Accounted.linkFirst {unit : SourceUnit} {file : FileId} {m : Mention}
    (accounted : Accounted units since followed (m :: todo) a.pending.all a) (follows : a.Follows b)
    (reads : a.ReadsHeads units) (given : units[file.val]? = some unit)
    (said : unit.tree.arena.Writes m.link m.written m.pos) (scopeOpen : a.table.IsOpen m.scope)
    (openPlace : a.table.OpenPlace m.link)
    (next : a.linkType file (some m.scope) m.written m.pos m.link = b) :
    m.link.IsDirect ∧ Touches m.link a.pending.all b.pending.all a b
      ∧ (∃ resolved, Landed units b.pending.all file m resolved unit b)
      ∧ Accounted units since followed todo b.pending.all b := by
  obtain ⟨slot, untold⟩ := accounted.due m List.mem_cons_self
  obtain ⟨isNew, -⟩ := List.nodup_cons.1 accounted.once
  have direct := SymbolTable.isDirect_of_slot? slot
  have shown : a.table.Shows m none := (SymbolTable.shows_iff direct).2 slot
  have touches := linkType_touches follows shown.vacant next
  have notBase (id : SymbolId) : m.link ≠ .anonymousBase id := by
    intro isBase
    rw [isBase] at direct
    exact direct
  obtain ⟨resolved, landed⟩ := linkType_lands follows scopeOpen shown untold reads given said
    openPlace (fun id isBase => absurd isBase (notBase id)) next
  refine ⟨direct, touches, ⟨resolved, landed⟩, accounted.land touches shown landed
    (List.sublist_cons_self m _) (fun m' isDue is => isNew (List.mem_map.2 ⟨m', isDue, is⟩))
    (fun m' isIn => ?_) fun file' m' unit' resolved' _ here landed' => ?_⟩
  · rcases List.mem_cons.1 isIn with rfl | isDue
    · exact .inr rfl
    · exact .inl isDue
  · -- what is followed has been written there before, and names no class
    rw [← here] at untold direct
    obtain ⟨rfl, names⟩ := landed'.names_of_untold untold
    have slot' := (SymbolTable.shows_iff direct).1 landed'.shown
    rw [here, slot] at slot'
    obtain ⟨written, scope⟩ : m.written = m'.written ∧ m.scope = m'.scope := by
      simpa [Mention.slot, TypeRef.unresolved] using slot'
    have same : b = a := by
      rw [← next, linkType, written, scope]
      simp only [names, if_true]
    rw [same]
    exact ⟨none, landed'⟩

end

end Context

end LevelCheck
