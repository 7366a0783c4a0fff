import LevelCheck.Proofs.AccountsKept
import LevelCheck.Proofs.TypeUses
set_option autoImplicit false

/-! # Each type that is used lands in its place

A type that is used has been written in the table or is the base of an anonymous class, and is linked as
far as possible there and then. From that state on it is followed: whatever a run does later leaves it in
its place, until its class is found or it is given up. -/

namespace LevelCheck

namespace Context

variable {units : List SourceUnit} {since : Context} {followed : Followed} {a b : Context}

/-- No types are followed. -/
def Followed.none : Followed := fun _ _ _ => False

/-- Only one type is followed, as it is written in a file. -/
def Followed.only (file : FileId) (m : Mention) (unit : SourceUnit) : Followed :=
  fun file' m' unit' => file' = file ∧ m' = m ∧ unit' = unit

/-- A type that has landed is followed from then on. -/
theorem Accounted.follow {todo : List Mention} {pool : List PendingReference} {file : FileId}
    {m : Mention} {unit : SourceUnit} (accounted : Accounted units since followed todo pool a)
    (lands : ∃ resolved, Landed units pool file m resolved unit a) :
    Accounted units since (.only file m unit) todo pool a :=
  { accounted with
    lands := by
      rintro _ _ _ ⟨rfl, rfl, rfl⟩
      exact lands }

theorem InPlace.follow {file : FileId} {m : Mention} {unit : SourceUnit}
    (inPlace : InPlace units since followed a)
    (lands : ∃ resolved, Landed units a.pending.all file m resolved unit a) :
    InPlace units since (.only file m unit) a :=
  ⟨inPlace.files, inPlace.accounted.follow lands⟩

end Context

/-! ## The types of a visit -/

namespace Walk

variable {w : Walk} {units : List SourceUnit} {unit : SourceUnit} {since : Context}
  {followed : Context.Followed} {v : Visit} {a b : Context}
  (isWalk : w = unit.walk w.file) (given : units[w.file.val]? = some unit)
include isWalk given

/-- The types that are due are linked as far as possible, one after the other, up to the one that is
followed from then on. -/
theorem Accounts.linkUpTo {places : Link → Prop} {before after : List Mention} {m : Mention}
    (accounts : Accounts units since followed places (before ++ m :: after) a) (lifecycle : a.Lifecycle)
    (due : ∀ m' ∈ before ++ m :: after, w.IsDue places a.table m') :
    Accounts units since (.only w.file m unit) places after (w.linkEach (before ++ [m]) a) := by
  have dueBefore : ∀ m' ∈ before, w.IsDue places a.table m' :=
    fun m' isIn => due m' (List.mem_append_left _ isIn)
  have earlier := w.linkEach_errands dueBefore (m :: after)
  obtain ⟨files, accounted, clear⟩ := earlier.accounts isWalk given lifecycle accounts
  obtain ⟨scopeOpen, openPlace, placed, said⟩ :=
    (due m (List.mem_append_right _ List.mem_cons_self)).later earlier.precedes.table
  have arena : w.arena = unit.tree.arena := by rw [isWalk]; rfl
  have lifecycle' := lifecycle.course earlier.course
  have linked : w.Errand places (m :: after) (w.linkEach before a) after _ :=
    .link scopeOpen openPlace placed said
  have follows := Context.Follows.course lifecycle' (.deed (.rest _) linked.deed)
  rw [arena] at said
  obtain ⟨direct, touches, lands, accounted'⟩ :=
    accounted.linkFirst follows files given said scopeOpen openPlace rfl
  have clear' := Accounts.clear_beside ⟨files, accounted, clear⟩ direct touches
  rw [linkEach_append, linkEach_singleton]
  refine ⟨files.same (Context.linkType_files ..), accounted'.follow lands,
    fun place isPlace id isParent => ⟨(clear' place isPlace id isParent).untold, ?_⟩⟩
  rintro _ _ _ ⟨-, rfl, -⟩ isBase
  rw [isBase] at direct
  exact direct.elim

variable (isOpen : v.scope.IsOpenIn v.before.table) (inOrder : v.before.InOrder)
  (inPlace : Context.InPlace units since followed v.before)
include isOpen inOrder inPlace

/-- When a visit begins to write types, every place is accounted for. -/
theorem Starts.accounts {places : Link → Prop} {start : Context} (starts : w.Starts v places start) :
    Accounts units since followed places [] start := by
  have keeps : w.Keeps Context.InOrder (Context.InPlace units since followed) :=
    inPlace_keeps isWalk given
  cases starts with
  | admitted admits =>
    obtain ⟨-, inPlace'⟩ := admits.keeps isOpen keeps inOrder inPlace
    refine ⟨inPlace'.files, inPlace'.accounted, fun place aside id isParent => ?_⟩
    cases place with
    | superclass | interface => exact aside.elim
    | _ => exact isParent.elim
  | @begun node admission decl id a b admits is begun =>
    obtain ⟨inOrder', inPlace'⟩ := admits.keeps isOpen keeps inOrder inPlace
    have isOpen' := admits.run.precedes.isOpenIn isOpen
    have named := inOrder'.lifecycle.course (.of_run (w.qualifiedName_run isOpen' decl.name))
    obtain ⟨begins, noBase⟩ := (inPlace_named inPlace' inOrder'.lifecycle isOpen' decl.name).begins named
      (opens_declared isOpen' begun)
    exact ⟨begins.files, begins.accounted, fun place isPlace other isParent => by
      rwa [← isPlace.unique isParent]⟩

/-- A type that a visit uses, and that has a place in the table, is followed to the end of the visit. -/
theorem Uses.lands {u : TypeUse} (uses : w.Uses v u a) (real : u.link ≠ .existence) :
    ∃ m, u = m.use ∧ Context.InPlace units since (.only w.file m unit) (w.after v) := by
  obtain ⟨m, types, before, after, isUse, introduces, split, -⟩ := uses.of_real real
  refine ⟨m, isUse, ?_⟩
  have introduction := introduces.introduction isOpen inOrder.lifecycle
  cases introduction with
  | @written places start begins ends inner nodes starts comes writes goes through =>
    have started := starts.course isOpen
    have come := started.trans comes.course
    have wrote := come.trans writes.errands.course
    have accounts := starts.accounts isWalk given isOpen inOrder inPlace
    have due := writes.due
    have linked := writes.errands.accounts isWalk given (inOrder.lifecycle.course come)
      (comes.accounts isWalk given (inOrder.lifecycle.course started) accounts)
    rw [split] at due linked goes
    -- the type is followed from when it has been linked, and the rest is linked as it would be
    have dueUpTo : ∀ m' ∈ before ++ [m], w.IsDue places types.2.table m' := fun m' isIn => by
      refine due m' ?_
      rw [List.append_cons]
      exact List.mem_append_left _ isIn
    have upTo := w.linkEach_course dueUpTo
    have dueAfter : ∀ m' ∈ after, w.IsDue places (w.linkEach (before ++ [m]) types.2).table m' :=
      fun m' isIn => (due m' (List.mem_append_right _ (List.mem_cons_of_mem _ isIn))).later
        upTo.precedes.table
    have others := w.linkEach_errands dueAfter []
    rw [List.append_nil, ← linkEach_append, ← List.append_cons] at others
    have order := inOrder.course (wrote.trans upTo)
    have rest := (others.trans goes).accounts isWalk given order.lifecycle
      (linked.linkUpTo isWalk given (inOrder.course wrote).lifecycle due)
    exact through.keeps_on isOpen (inPlace_keeps isWalk given)
      (order.course (others.trans goes).course) ⟨rest.files, rest.accounted⟩
  | @base node ref type members id b c builds begun are =>
    subst are
    have isIn : m ∈ before ++ m :: after := List.mem_append_right _ List.mem_cons_self
    rw [← split] at isIn
    obtain rfl := List.mem_singleton.1 isIn
    have goes : w.GoesThrough v _ _ _ := .anonymousMembers builds begun
    obtain ⟨order, inPlace'⟩ := builds.keeps isOpen (inPlace_keeps isWalk given) inOrder inPlace
    have around := (builds.run isOpen).2
    obtain @⟨admission, outer, arguments, inspected, admits, is, -⟩ := builds
    obtain ⟨landed, lands⟩ := declaresAnonymous_lands isWalk given order.lifecycle around admits.2.1 is
      begun inPlace' rfl
    exact goes.keeps_on isOpen (inPlace_keeps isWalk given) (inOrder.course (goes.course isOpen).1)
      (landed.follow lands)

end Walk

/-! ## Runs -/

namespace Context

variable {units : List SourceUnit} {pool : List PendingReference} {since cx : Context}
  {followed : Followed} {file : FileId} {m : Mention} {resolved : Option SymbolId}
  {unit : SourceUnit} {place : Link}

theorem Landed.further (landed : Landed units pool file m resolved unit cx) (more : List SourceUnit) :
    Landed (units ++ more) pool file m resolved unit cx :=
  ⟨getElem?_further landed.given more, landed.said, landed.scopeOpen, landed.openPlace, landed.around,
    landed.shown, landed.fate⟩

theorem Account.further (account : Account units pool cx place) (more : List SourceUnit) :
    Account (units ++ more) pool cx place := by
  cases account with
  | idle untold empty => exact .idle untold empty
  | root untold is => exact .root untold is
  | based untold isParent isBase base => exact .based untold isParent isBase (base.further more)
  | landed landed => exact .landed (landed.further more)

theorem ReadsHeads.addFile (reads : cx.ReadsHeads units) (unit : SourceUnit) :
    (cx.addFile unit.tree.fileName unit.level).2.ReadsHeads (units ++ [unit]) := by
  refine ⟨by simp [Context.addFile, reads.size], fun file given is => ?_⟩
  simp only [file?, Context.addFile, Array.getElem?_push, reads.size]
  by_cases last : file.val = units.length
  · simp only [last, List.getElem?_concat_length] at is
    obtain rfl := Option.some.inj is
    obtain ⟨n⟩ := file
    obtain rfl : n = units.length := last
    exact ⟨_, if_pos rfl, .start⟩
  · have before : file.val < units.length := by
      have within := (List.getElem?_eq_some_iff.1 is).1
      simp at within
      omega
    rw [List.getElem?_append_left before] at is
    rw [if_neg last]
    exact reads.heads file given is

theorem InOrder.addFile (inOrder : cx.InOrder) (unit : SourceUnit) :
    (cx.addFile unit.tree.fileName unit.level).2.InOrder :=
  ⟨inOrder.lifecycle.addFile _ _, inOrder.keyed⟩

theorem InOrder.perform (inOrder : cx.InOrder) (request : Request) : (cx.perform request).InOrder := by
  refine ⟨inOrder.lifecycle.perform request, ?_⟩
  cases request with
  | analyze unit => exact (Course.of_run (cx.analyzeFile_run unit)).keyed inOrder.keyed
  | settle =>
    show cx.settle.pending.Keyed
    rw [cx.settle_settles.pending]
    exact Pending.keyed_empty

theorem InPlace.addFile (inPlace : InPlace units since followed cx) (inOrder : cx.InOrder)
    (unit : SourceUnit) :
    InPlace (units ++ [unit]) since followed (cx.addFile unit.tree.fileName unit.level).2 := by
  obtain ⟨files, unfolds, once, due, accounts, lands⟩ := inPlace
  have known : Accounted (units ++ [unit]) since followed [] cx.pending.all cx := by
    refine ⟨unfolds, once, due, fun place real notDue => (accounts place real notDue).further [unit],
      fun file m unit' isFollowed => ?_⟩
    obtain ⟨resolved, landed⟩ := lands file m unit' isFollowed
    exact ⟨resolved, landed.further [unit]⟩
  have follows : cx.Follows (cx.addFile unit.tree.fileName unit.level).2 :=
    ⟨List.prefix_rfl, .refl _, inOrder.lifecycle.grounded, inOrder.lifecycle.grounded⟩
  exact ⟨files.addFile unit, known.quiet (.quiet follows (.refl _) rfl (.refl _))⟩

theorem InPlace.settle (inPlace : InPlace units since followed cx) (inOrder : cx.InOrder) :
    InPlace units since followed cx.settle := by
  have settled := inPlace.accounted.settle inOrder.lifecycle inPlace.files
  refine ⟨inPlace.files.same cx.settle_files, ?_⟩
  rw [cx.settle_settles.pending]
  exact settled

/-- The unit is walked as the last of the files. -/
theorem InPlace.walkOf (inPlace : InPlace units since followed cx) (unit : SourceUnit) :
    cx.walkOf unit = unit.walk (cx.walkOf unit).file
      ∧ (units ++ [unit])[(cx.walkOf unit).file.val]? = some unit := by
  have size := inPlace.files.size
  exact ⟨rfl, by simp [Context.walkOf, size]⟩

/-- Whatever is requested, all types are kept in their places. -/
theorem InPlace.perform (inPlace : InPlace units since followed cx) (inOrder : cx.InOrder)
    (request : Request) :
    InPlace (units ++ request.unit?.toList) since followed (cx.perform request) := by
  cases request with
  | analyze unit =>
    obtain ⟨isWalk, given⟩ := inPlace.walkOf unit
    exact (cx.analyzeFile_journey unit).keeps (Walk.inPlace_keeps isWalk given)
      (inOrder.addFile unit) (inPlace.addFile inOrder unit)
  | settle =>
    have settled := inPlace.settle inOrder
    rwa [← List.append_nil units] at settled

/-- The units of requests are that of the first, if it has one, and those of the rest. -/
theorem units_cons (request : Request) (rest : List Request) : (request :: rest).filterMap Request.unit?
    = request.unit?.toList ++ rest.filterMap Request.unit? := by
  cases request <;> rfl

theorem InPlace.performAll (inPlace : InPlace units since followed cx) (inOrder : cx.InOrder)
    (requests : List Request) :
    InPlace (units ++ requests.filterMap Request.unit?) since followed (cx.performAll requests)
      ∧ (cx.performAll requests).InOrder := by
  induction requests generalizing cx units with
  | nil => simpa [Context.performAll] using And.intro inPlace inOrder
  | cons request rest ih =>
    have later := ih (inPlace.perform inOrder request) (inOrder.perform request)
    rwa [units_cons, ← List.append_assoc]

/-- A type that a run uses, and that has a place in the table, has landed there by the end of the run. -/
theorem Uses.lands {requests : List Request} {w : Walk} {u : TypeUse} {a : Context}
    (uses : cx.Uses requests w u a) (inPlace : InPlace units since followed cx) (inOrder : cx.InOrder)
    (real : u.link ≠ .existence) : ∃ m resolved unit, u = m.use
      ∧ Landed (units ++ requests.filterMap Request.unit?) (cx.performAll requests).pending.all w.file m
        resolved unit (cx.performAll requests) := by
  obtain ⟨v, comes, uses⟩ := uses
  induction comes generalizing units with
  | @here cx unit rest v comes =>
    obtain ⟨isWalk, given⟩ := inPlace.walkOf unit
    have keeps {followed : Followed} : (cx.walkOf unit).Keeps InOrder
        (InPlace (units ++ [unit]) since followed) := Walk.inPlace_keeps isWalk given
    have isOpen := WalkScope.isOpenIn_file (cx.rootVisit unit).before.table
    obtain ⟨order, here⟩ := comes.keeps isOpen keeps (inOrder.addFile unit)
      (inPlace.addFile inOrder unit)
    obtain ⟨course, isOpen'⟩ := comes.course isOpen
    obtain ⟨m, isUse, landed⟩ := uses.lands isWalk given isOpen' order here real
    have upTo := uses.course isOpen' order.lifecycle
    have returned := comes.returns_keeps isOpen keeps
      (order.course ((upTo.1.trans upTo.2.1).trans upTo.2.2)) landed
    have ends : (cx.walkOf unit).after (cx.rootVisit unit) = cx.perform (.analyze unit) := rfl
    rw [ends] at returned
    have kept := (returned.performAll (inOrder.perform (.analyze unit)) rest).1
    obtain ⟨resolved, last⟩ := kept.accounted.lands _ m unit ⟨rfl, rfl, rfl⟩
    rw [List.append_assoc] at last
    exact ⟨m, resolved, unit, isUse, last⟩
  | @later cx request rest w v comes ih =>
    obtain ⟨m, resolved, unit, isUse, landed⟩ :=
      ih (inPlace.perform inOrder request) (inOrder.perform request) uses
    rw [List.append_assoc, ← units_cons] at landed
    exact ⟨m, resolved, unit, isUse, landed⟩

end Context

end LevelCheck
