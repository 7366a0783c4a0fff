import LevelCheck.Proofs.Accounts
set_option autoImplicit false

/-! # Accounts throughout a run

Whatever a walk does on its own, and whatever happens when a class is completed or a run is settled, all
places stay accounted for: an errand takes from the types that are due or adds to them, and everything
else leaves the places alone or links and gives up references that have waited. -/

namespace LevelCheck

/-! ## References in groups -/

theorem Deed.keyed {a b : Context} (deed : Deed a b) (keyed : a.pending.Keyed) : b.pending.Keyed := by
  cases deed with
  | inspect w remaining scope idx node =>
    obtain ⟨log, is⟩ := w.inspect_changes a remaining scope idx node
    rw [is]
    exact keyed
  | refuse w idx node =>
    rw [w.refuseDepth_eq]
    exact keyed
  | report | prune | header | enter => exact keyed
  | @link file scope isOpen written pos link openPlace =>
    cases a.linkType_linking file scope written pos link with
    | none is =>
      rw [is]
      exact keyed
    | now inRun found is =>
      rw [is, (Context.apply_records _ _ _ _ _).1]
      exact keyed
    | later inRun met waits undeclared is =>
      rw [is]
      exact keyed.request _

/-- The references that wait are grouped by name throughout a walk. -/
theorem Course.keyed {a b : Context} (course : Course a b) (keyed : a.pending.Keyed) :
    b.pending.Keyed := by
  refine course.keeps (P := fun cx => cx.pending.Keyed) (fun deed keyed => deed.keyed keyed)
    (fun opens keyed => ?_) (fun {cx id} _ keyed => ?_) keyed
  · obtain ⟨begun, -, -, -⟩ := opens
    obtain ⟨t, -, rfl⟩ := Context.beginClass_some begun
    exact keyed
  · rw [(cx.defineComplete_resumed id).pending]
    exact keyed.release _

/-! ## Walks -/

namespace Walk

variable {w : Walk} {units : List SourceUnit} {unit : SourceUnit} {since : Context}
  {followed : Context.Followed} {todo todo' : List Mention} {places : Link → Prop} {a b : Context}

/-- The places are in order, and none of the kind given belongs to an anonymous class. -/
structure Accounts (units : List SourceUnit) (since : Context) (followed : Context.Followed)
    (places : Link → Prop) (todo : List Mention) (cx : Context) : Prop where
  files : cx.ReadsHeads units
  accounted : Context.Accounted units since followed todo cx.pending.all cx
  clear : ∀ place, places place → ∀ id, place.IsParentOf id →
    Context.Baseless followed cx.pending.all cx id

/-- Reading a header adds one to those that have been read. -/
theorem readsHeads_enterFile (isWalk : w = unit.walk w.file)
    (given : units[w.file.val]? = some unit) {idx : NodeIndex} {node : Node} {package : Option String}
    {imports : List ImportDecl} {types : List NodeIndex} (found : w.arena.get? idx = some node)
    (is : node.data = .sourceFile package imports types) (reads : a.ReadsHeads units) :
    (w.enterFile package imports types a).ReadsHeads units := by
  have arena : w.arena = unit.tree.arena := by
    rw [isWalk]
    rfl
  rw [arena] at found
  refine ⟨?_, fun file unit' given' => ?_⟩
  · simpa [enterFile, Context.modifyFile] using reads.size
  · obtain ⟨f, inRun, heads⟩ := reads.heads file unit' given'
    simp only [Context.file?] at inRun ⊢
    simp only [enterFile, Context.modifyFile, Array.getElem?_modify, inRun, Option.map_some]
    by_cases own : w.file = file
    · subst own
      obtain rfl := Option.some.inj (given.symm.trans given')
      have next := heads.header found is
      rw [← isWalk] at next
      exact ⟨_, if_pos rfl, next⟩
    · have other : w.file.val ≠ file.val := fun same => own (congrArg FileId.mk same)
      exact ⟨f, if_neg other, heads⟩

/-- What happens to a slot is not about the base of any class. -/
theorem Accounts.clear_beside (accounts : Accounts units since followed places todo a) {place : Link}
    (direct : place.IsDirect) (touches : Context.Touches place a.pending.all b.pending.all a b) :
    ∀ link, places link → ∀ id, link.IsParentOf id →
      Context.Baseless followed b.pending.all b id := by
  intro link isPlace id isParent
  obtain ⟨untold, apart⟩ := accounts.clear link isPlace id isParent
  refine ⟨touches.still (.anonymousBase id) ?_ [] [] untold, apart⟩
  rintro rfl
  exact direct.elim

/-- An errand keeps the places in order: what it takes from the types that are to be linked it links,
and what it writes it adds to them. -/
theorem Errand.accounts (isWalk : w = unit.walk w.file) (given : units[w.file.val]? = some unit)
    (lifecycle : a.Lifecycle) (errand : w.Errand places todo a todo' b)
    (accounts : Accounts units since followed places todo a) :
    Accounts units since followed places todo' b := by
  have follows : a.Follows b := .course lifecycle (.deed (.rest a) errand.deed)
  have arena : w.arena = unit.tree.arena := by
    rw [isWalk]
    rfl
  obtain ⟨files, accounted, clear⟩ := accounts
  have still (history : b.history = a.history) (pending : b.pending = a.pending) (place : Link)
      (isPlace : places place) (id : SymbolId) (isParent : place.IsParentOf id) :
      Context.Baseless followed b.pending.all b id := by
    obtain ⟨untold, apart⟩ := clear place isPlace id isParent
    rw [pending]
    exact ⟨untold.same history (.refl _), apart⟩
  have quiet (files : b.ReadsHeads units) (table : b.table = a.table)
      (history : b.history = a.history) (pending : b.pending = a.pending) :
      Accounts units since followed places todo b := by
    refine ⟨files, accounted.quiet (.quiet follows ?_ history ?_), still history pending⟩
    · rw [table]
      exact .refl _
    · rw [pending]
  cases errand with
  | @write _ news _ t step writes placed =>
    exact ⟨files.same rfl, accounted.write follows writes fun m isIn => clear m.link (placed m isIn),
      still rfl rfl⟩
  | @root _ _ id isOpen bare placed =>
    exact ⟨files.same rfl, accounted.extendRoot rfl follows isOpen bare (clear _ placed id rfl),
      still rfl rfl⟩
  | @link _ m _ isOpen openPlace placed said =>
    rw [arena] at said
    obtain ⟨direct, touches, -, accounted'⟩ :=
      accounted.linkFirst follows files given said isOpen openPlace rfl
    exact ⟨files.same (Context.linkType_files ..), accounted',
      Accounts.clear_beside ⟨files, accounted, clear⟩ direct touches⟩
  | @mention _ scope written pos _ isOpen said =>
    have direct : Link.existence.IsDirect := trivial
    have touches := Context.linkType_touches follows (show a.table.Vacant .existence from trivial) rfl
    exact ⟨files.same (Context.linkType_files ..), accounted.quiet touches,
      Accounts.clear_beside ⟨files, accounted, clear⟩ direct touches⟩
  | report isNaming isAt => exact quiet (files.same rfl) rfl rfl rfl
  | header found is => exact quiet (readsHeads_enterFile isWalk given found is files) rfl rfl rfl

theorem Errands.accounts (isWalk : w = unit.walk w.file) (given : units[w.file.val]? = some unit)
    (lifecycle : a.Lifecycle) (errands : w.Errands places todo a todo' b)
    (accounts : Accounts units since followed places todo a) :
    Accounts units since followed places todo' b :=
  errands.keeps Context.Lifecycle (fun course lifecycle => lifecycle.course course)
    (fun lifecycle errand accounts => errand.accounts isWalk given lifecycle accounts) lifecycle accounts

/-! ## Classes -/

end Walk

namespace Context

variable {units : List SourceUnit} {since : Context} {followed : Followed} {a b : Context}

/-- A class that is begun adds no slots. -/
theorem Touches.begins (lifecycle : a.Lifecycle) {id : SymbolId} (opens : Opens a id b) :
    Touches .existence a.pending.all b.pending.all a b := by
  have follows : a.Follows b := .course lifecycle (.opens (.rest a) opens)
  have same := opens.sameSlots
  obtain @⟨qualified, outer, head, begun, -, -, -⟩ := opens
  obtain ⟨t, -, rfl⟩ := beginClass_some begun
  have isAt (link : Link) : (Event.began qualified).place? ≠ some link := nofun
  exact ⟨follows, .passes (e := .began qualified) rfl rfl same.addsSlots, fun link _ => same.slot? link,
    fun link _ _ _ standing => standing.beside rfl (isAt link) (.refl _)⟩

/-- A class has no base before it is begun. -/
theorem Accounted.noBase (accounted : Accounted units since followed [] a.pending.all a) {id : SymbolId}
    (opens : Opens a id b) : Baseless followed a.pending.all a id := by
  have closed : ¬ a.table.OpenPlace (.anonymousBase id) := by
    intro isOpen
    have declared := isOpen.2
    rw [Symbol.isDeclared, opens.state.1] at declared
    cases declared
  have account := accounted.accounts (.anonymousBase id) (by rintro ⟨⟩) List.not_mem_nil
  refine ⟨account.untold_of_closed closed, fun file m unit isFollowed isBase => ?_⟩
  obtain ⟨resolved, landed⟩ := accounted.lands file m unit isFollowed
  exact closed (isBase ▸ landed.openPlace)

/-! ## References that are released -/

/-- References are linked one after the other. -/
theorem Accounted.resumeEach {pool : List PendingReference}
    (entries : List (PendingReference × SymbolId))
    (accounted : Accounted units since followed [] (entries.map (·.1) ++ pool) a)
    (grounded : a.table.Grounded)
    (denote : ∀ e ∈ entries, a.Denotes (e.1.name :: e.1.alternatives) e.2) :
    Accounted units since followed [] pool (entries.foldl (fun cx e => Context.resume e.1 e.2 cx) a)
      ∧ (entries.foldl (fun cx e => Context.resume e.1 e.2 cx) a).table.Grounded := by
  induction entries generalizing a with
  | nil => exact ⟨accounted, grounded⟩
  | cons e rest ih =>
    have grows := (Precedes.resume a e.1 e.2).table
    refine ih (accounted.resume grounded (denote e List.mem_cons_self)) ?_ fun e' isIn => ?_
    · rw [resume_table]
      exact grounded.fill _ _
    · exact (denote e' (List.mem_cons_of_mem _ isIn)).later grows

/-- References are given up one after the other. -/
theorem Accounted.abandonEach {pool stuck : List PendingReference}
    (accounted : Accounted units since followed [] (stuck ++ pool) a) (grounded : a.table.Grounded)
    (reads : a.ReadsHeads units) :
    Accounted units since followed [] pool (stuck.foldl Context.abandon a) := by
  induction stuck generalizing a with
  | nil => exact accounted
  | cons r rest ih => exact ih (accounted.abandon grounded reads) grounded (reads.same rfl)

theorem resumeEach_files (entries : List (PendingReference × SymbolId)) (cx : Context) :
    (entries.foldl (fun cx e => Context.resume e.1 e.2 cx) cx).files = cx.files := by
  induction entries generalizing cx with
  | nil => rfl
  | cons e rest ih =>
    rw [List.foldl_cons, ih, Context.resume, apply_files]
    rfl

theorem settle_files (cx : Context) : cx.settle.files = cx.files := by
  have abandoned (stuck : List PendingReference) (cx : Context) :
      (stuck.foldl Context.abandon cx).files = cx.files := by
    induction stuck generalizing cx with
    | nil => rfl
    | cons r rest ih => exact ih (cx.abandon r)
  rw [settle_eq, abandoned, resumeEach_files]

/-- The completion of a class links the references that wait for it. -/
theorem Accounted.defineComplete (accounted : Accounted units since followed [] a.pending.all a)
    (lifecycle : a.Lifecycle) (keyed : a.pending.Keyed) {id : SymbolId}
    (isOpen : a.table.IsOpen (.symbol id)) :
    Accounted units since followed [] (a.defineComplete id).pending.all (a.defineComplete id) := by
  have grounded := lifecycle.grounded
  let finished : Context :=
    { a with table := a.table.finishDefinition id, pending := (a.waitingFor id).2 }
  have follows : a.Follows finished :=
    ⟨List.prefix_rfl, .finishDefinition a.table id, grounded, grounded.finishDefinition id⟩
  have entries : ((a.waitingFor id).1.map (·, id)).map Prod.fst = (a.waitingFor id).1 := by
    rw [List.map_map]
    exact List.map_id' _
  -- what waited does so for the class, or goes on waiting
  have divided : ((a.waitingFor id).1 ++ (a.waitingFor id).2.all).Perm a.pending.all := by
    rw [waitingFor, keyed.release_fst, keyed.release_snd]
    exact List.filter_append_perm _ _
  have released := accounted.quiet
    (.quiet follows (.finishDefinition a.table id) rfl divided)
  rw [← entries] at released
  have resumed := (released.resumeEach _ (grounded.finishDefinition id) fun e isIn => ?_).1
  · rw [(a.defineComplete_resumed id).pending, defineComplete_eq]
    rwa [List.foldl_map] at resumed
  · obtain ⟨r, waits, rfl⟩ := List.mem_map.1 isIn
    rw [waitingFor, keyed.release_fst] at waits
    have named := beq_iff_eq.1 (List.mem_filter.1 waits).2
    refine ⟨isOpen.1.trans_le follows.table.grows.symbols, ?_⟩
    rw [named]
    exact List.mem_cons_self

/-- At last everything that waits is linked or given up. -/
theorem Accounted.settle (accounted : Accounted units since followed [] a.pending.all a)
    (lifecycle : a.Lifecycle) (reads : a.ReadsHeads units) :
    Accounted units since followed [] [] a.settle := by
  have grounded := lifecycle.grounded
  let emptied : Context := { a with pending := .empty }
  have follows : a.Follows emptied := ⟨List.prefix_rfl, .refl _, grounded, grounded⟩
  have divided : ((a.pending.ready a.table).map (·.1) ++ a.pending.stuck a.table).Perm
      a.pending.all := by
    rw [ready_map_fst, Pending.stuck]
    have parts := List.filter_append_perm (fun r => (r.target? a.table).isSome) a.pending.all
    simpa only [Option.not_isSome] using parts
  have set := accounted.quiet (.quiet follows (.refl _) rfl divided)
  have resumed := set.resumeEach (a.pending.ready a.table) grounded fun e isIn => ?_
  · have still := (reads.same (b := emptied) rfl).same
      (resumeEach_files (a.pending.ready a.table) emptied)
    obtain ⟨resumed, grounded'⟩ := resumed
    rw [← List.append_nil (a.pending.stuck a.table)] at resumed
    rw [settle_eq]
    exact resumed.abandonEach grounded' still
  · obtain ⟨r, waits, is⟩ := List.mem_filterMap.1 isIn
    obtain ⟨id, found, rfl⟩ := Option.map_eq_some_iff.1 is
    obtain ⟨known, -, named⟩ := Pending.target_some found
    exact ⟨known, named⟩

/-! ## Runs -/

/-- The classes and the waiting references are in order, whichever declarations the run is inside of. -/
structure InOrder (cx : Context) : Prop where
  lifecycle : cx.Lifecycle
  keyed : cx.pending.Keyed

theorem InOrder.course (inOrder : a.InOrder) (course : Course a b) : b.InOrder :=
  ⟨inOrder.lifecycle.course course, course.keyed inOrder.keyed⟩

/-- The files are those that are given, and every place is accounted for. -/
structure InPlace (units : List SourceUnit) (since : Context) (followed : Followed)
    (cx : Context) : Prop where
  files : cx.ReadsHeads units
  accounted : Accounted units since followed [] cx.pending.all cx

namespace InPlace

variable (inPlace : InPlace units since followed a)
include inPlace

theorem quiet (follows : a.Follows b) (files : b.files = a.files)
    (same : a.table.SameSlots b.table) (history : b.history = a.history)
    (pending : b.pending = a.pending) : InPlace units since followed b := by
  refine ⟨inPlace.files.same files, inPlace.accounted.quiet (.quiet follows same history ?_)⟩
  rw [pending]

theorem begins (lifecycle : a.Lifecycle) {id : SymbolId} (opens : Opens a id b) :
    InPlace units since followed b ∧ Baseless followed b.pending.all b id := by
  have touches := Touches.begins lifecycle opens
  have files : b.files = a.files := by
    obtain ⟨begun, -, -, -⟩ := opens
    obtain ⟨t, -, rfl⟩ := beginClass_some begun
    rfl
  have noBase := inPlace.accounted.noBase opens
  exact ⟨⟨inPlace.files.same files, inPlace.accounted.quiet touches⟩,
    touches.still (.anonymousBase id) nofun [] [] noBase.untold, noBase.apart⟩

theorem defineComplete (lifecycle : a.Lifecycle) (keyed : a.pending.Keyed) {id : SymbolId}
    (isOpen : a.table.IsOpen (.symbol id)) : InPlace units since followed (a.defineComplete id) := by
  refine ⟨inPlace.files.same ?_, inPlace.accounted.defineComplete lifecycle keyed isOpen⟩
  have files := resumeEach_files ((a.waitingFor id).1.map (·, id))
    { a with table := a.table.finishDefinition id, pending := (a.waitingFor id).2 }
  rw [List.foldl_map] at files
  exact files

end InPlace

end Context

namespace Walk

variable {w : Walk} {units : List SourceUnit} {unit : SourceUnit} {since : Context}
  {followed : Context.Followed} {a b : Context}

section

variable (inPlace : Context.InPlace units since followed a) (lifecycle : a.Lifecycle)
include inPlace lifecycle

theorem inPlace_inspect (remaining : Nat) (scope : WalkScope) (idx : NodeIndex) (node : Node) :
    Context.InPlace units since followed (w.inspect remaining scope idx node a).2 := by
  have follows := Context.Follows.course lifecycle
    (.deed (.rest a) (.inspect a w remaining scope idx node))
  obtain ⟨log, is⟩ := w.inspect_changes a remaining scope idx node
  rw [is] at follows ⊢
  exact inPlace.quiet follows rfl (.refl _) rfl rfl

theorem inPlace_prune (idx : NodeIndex) (pos : Position) {p : Problem} (isOwn : p.IsOwn) :
    Context.InPlace units since followed (a.reportPruning w.file idx pos p) :=
  inPlace.quiet (.course lifecycle (.deed (.rest a) (.prune a w.file idx pos isOwn))) rfl (.refl _) rfl
    rfl

theorem inPlace_named {scope : WalkScope} (isOpen : scope.IsOpenIn a.table) (simple : String) :
    Context.InPlace units since followed (w.qualifiedName scope simple a).2 := by
  have follows := Context.Follows.course lifecycle (.of_run (w.qualifiedName_run isOpen simple))
  obtain ⟨table, same, is⟩ := w.qualifiedName_changes scope simple a
  rw [is] at follows ⊢
  exact inPlace.quiet follows rfl same rfl rfl

theorem inPlace_numbered {ref : ScopeRef} (isOpen : a.table.IsOpen ref) :
    Context.InPlace units since followed (numbered ref a) :=
  inPlace.quiet (.course lifecycle (.deed (.rest a) (.enter (.number isOpen)))) rfl
    (.numberLocalClass a.table _) rfl rfl

end

/-- A class is begun, and the types that it extends are written and linked. -/
theorem inPlace_declares (isWalk : w = unit.walk w.file) (given : units[w.file.val]? = some unit)
    (lifecycle : a.Lifecycle) {remaining : Nat} {scope : WalkScope} {idx : NodeIndex} {node : Node}
    {admission : Admission} {decl : TypeDecl} {id : SymbolId} {c : Context}
    (isOpen : scope.IsOpenIn a.table) (found : w.arena.get? idx = some node)
    (admits : w.inspect remaining scope idx node a = (some admission, b))
    (is : node.data.typeDecl? = some decl)
    (begun : (w.qualifiedName scope decl.name b).2.beginClass? (w.qualifiedName scope decl.name b).1
      scope.ref? decl.head = some (id, c)) (inPlace : Context.InPlace units since followed a) :
    Context.InPlace units since followed
      (w.linkParents id node.pos (w.qualifiedName scope decl.name b).1 decl c) := by
  have inspected := inPlace_inspect (w := w) inPlace lifecycle remaining scope idx node
  have isOpen' := Journeys.isOpen_inspected isOpen admits
  have inspection := Course.deed (.rest a) (.inspect a w remaining scope idx node)
  rw [admits] at inspected inspection
  have opens := opens_declared isOpen' begun
  have before := lifecycle.course inspection
  have named := before.course (.of_run (w.qualifiedName_run isOpen' decl.name))
  obtain ⟨begins, noBase⟩ := (inPlace_named inspected before isOpen' decl.name).begins named opens
  have accounts : Accounts units since followed (Link.IsParentOf id) [] c :=
    ⟨begins.files, begins.accounted, fun place isPlace other isParent => by
      rwa [← isPlace.unique isParent]⟩
  have errands := linkParents_errands found is opens.isOpen (named.untouched.bare opens)
    (w.qualifiedName scope decl.name b).1
  have after := errands.accounts isWalk given (named.opens opens) accounts
  exact ⟨after.files, after.accounted⟩

/-- An anonymous class is begun, and its base is linked as far as possible. -/
theorem declaresAnonymous_lands (isWalk : w = unit.walk w.file)
    (given : units[w.file.val]? = some unit) (lifecycle : a.Lifecycle) {idx : NodeIndex} {node : Node}
    {outer : Option NodeIndex} {type : String} {arguments members : List NodeIndex} {ref : ScopeRef}
    {id : SymbolId} (isOpen : a.table.IsOpen ref) (found : w.arena.get? idx = some node)
    (is : node.data = .anonymousClass outer type arguments members)
    (begun : (numbered ref a).beginClass? (anonymousName ref a) (some ref) (fun s => s)
      = some (id, b)) (inPlace : Context.InPlace units since followed a) {c : Context}
    (next : b.linkType w.file (some ref) type node.pos (.anonymousBase id) = c) :
    Context.InPlace units since followed c ∧ ∃ resolved, Context.Landed units c.pending.all w.file
      { link := .anonymousBase id, scope := ref, written := type, pos := node.pos } resolved unit c := by
  have counted := Course.deed (.rest a) (.enter (.number isOpen))
  have before := lifecycle.course counted
  have opens := anonymous_opens isOpen begun
  obtain ⟨begins, noBase⟩ := (inPlace_numbered inPlace lifecycle isOpen).begins before opens
  have begun' := before.opens opens
  have scopeOpen := (counted.opens opens).precedes.table.isOpen isOpen
  let m : Mention := { link := .anonymousBase id, scope := ref, written := type, pos := node.pos }
  have shown : b.table.Shows m none := .bare (before.untouched.bare opens)
  have linking : Deed b (b.linkType w.file (some ref) type node.pos m.link) :=
    .link w.file (fun s isScope => Option.mem_some.1 isScope ▸ scopeOpen) type node.pos opens.isOpen
  have follows := Context.Follows.course begun' (.deed (.rest b) linking)
  rw [next] at follows
  have said : unit.tree.arena.Writes m.link type node.pos := by
    refine ⟨idx, node, ?_, rfl, by rw [is]; rfl⟩
    rw [isWalk] at found
    exact found
  have around (child : SymbolId) (isBase : m.link = .anonymousBase child) :
      b.table.outerOf (.symbol child) = some ref := by
    obtain rfl := Link.anonymousBase.inj isBase
    exact Context.beginClass_outerOf begun
  have touches := Context.linkType_touches follows shown.vacant next
  have files : c.files = b.files := by
    rw [← next, Context.linkType_files]
  obtain ⟨resolved, landed⟩ := Context.linkType_lands follows scopeOpen shown noBase.untold begins.files
    given said opens.isOpen around next
  exact ⟨⟨begins.files.same files,
    begins.accounted.land touches shown landed (.refl []) nofun nofun
      fun file m' unit _ isFollowed isBase _ => absurd isBase (noBase.apart file m' unit isFollowed)⟩,
    resolved, landed⟩

/-- What a walk does on its own keeps all types in their places. -/
theorem inPlace_keeps (isWalk : w = unit.walk w.file) (given : units[w.file.val]? = some unit) :
    w.Keeps Context.InOrder (Context.InPlace units since followed) where
  steady course inOrder := inOrder.course course
  refuses {idx node a} inOrder _ inPlace := by
    have follows := Context.Follows.course inOrder.lifecycle (.deed (.rest a) (.refuse a w idx node))
    rw [w.refuseDepth_eq] at follows ⊢
    exact inPlace.quiet follows rfl (.refl _) rfl rfl
  inspects inOrder _ _ inPlace := inPlace_inspect inPlace inOrder.lifecycle _ _ _ _
  calls {mode scope inner idx node force nodes a b} inOrder isOpen found calls inPlace := by
    have accounts : Accounts units since followed Link.IsAside [] a :=
      ⟨inPlace.files, inPlace.accounted, fun place aside id isParent => by
        cases place with
        | superclass | interface => exact aside.elim
        | _ => exact isParent.elim⟩
    have after := (calls.errands isOpen found).accounts isWalk given inOrder.lifecycle accounts
    exact ⟨after.files, after.accounted⟩
  refusesName {scope simple idx node a} inOrder isOpen found inPlace := by
    have named := Course.of_run (w.qualifiedName_run isOpen simple)
    exact inPlace_prune (inPlace_named inPlace inOrder.lifecycle isOpen simple)
      (inOrder.lifecycle.course named) idx node.pos trivial
  declares inOrder isOpen found admits is begun inPlace :=
    inPlace_declares isWalk given inOrder.lifecycle isOpen found admits is begun inPlace
  refusesNumber {ref idx node a} inOrder isOpen found inPlace := by
    have counted := Course.deed (.rest a) (.enter (.number isOpen))
    exact inPlace_prune (inPlace_numbered inPlace inOrder.lifecycle isOpen)
      (inOrder.lifecycle.course counted) idx node.pos trivial
  declaresAnonymous inOrder isOpen found is _ begun inPlace :=
    (declaresAnonymous_lands isWalk given inOrder.lifecycle isOpen found is begun inPlace rfl).1
  completes inOrder isOpen inPlace := inPlace.defineComplete inOrder.lifecycle inOrder.keyed isOpen

end Walk

end LevelCheck
