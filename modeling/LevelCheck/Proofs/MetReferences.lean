import LevelCheck.Proofs.TypeUses
import LevelCheck.Proofs.Vacancies
import LevelCheck.Proofs.VisitInduction
set_option autoImplicit false

/-! # Every reference is of a type that is used

A walk makes a reference of each type that it uses, and it makes no others: whatever reference a run
has met, it has met at the use of a type, and with the names that the type might denote just then. In
the same way every slot whose class has not been found is one of a type that has been used. -/

namespace LevelCheck

/-! ## Slots for which no class has been found -/

namespace SymbolTable

variable {t u : SymbolTable}

/-- Filling a place brings about no slots but such as are linked to a class. -/
theorem slot?_of_fill (t : SymbolTable) (place : Link) (target : SymbolId) {link : Link} {slot : Slot}
    (is : (t.fill place target).slot? link = some slot) (unresolved : slot.type.resolved = none) :
    t.slot? link = some slot ∨ slot.type = t.objectRef := by
  rcases place.direct_or_base with direct | ⟨child, rfl⟩
  · rw [t.fill_filled direct target link] at is
    split at is
    · obtain ⟨old, -, rfl⟩ := Option.map_eq_some_iff.1 is
      cases unresolved
    · exact .inl is
  · rw [fill] at is
    split at is
    · cases link with
      | superclass id =>
        simp only [slot?, symbol_modifySymbol] at is
        split at is
        · obtain rfl := Option.some.inj is
          exact .inr rfl
        · exact .inl is
      | interface id index =>
        simp only [slot?, symbol_modifySymbol] at is
        split at is
        · next here =>
          obtain ⟨rfl, -⟩ := here
          obtain ⟨type, isIn, rfl⟩ := Option.map_eq_some_iff.1 is
          rw [List.getElem?_append] at isIn
          split at isIn
          · exact .inl (congrArg (Option.map (Slot.mk · (.symbol id))) isIn)
          · obtain rfl := List.mem_singleton.1 (List.mem_of_getElem? isIn)
            cases unresolved
        · exact .inl is
      | _ => exact .inl is
    · cases link with
      | superclass id =>
        simp only [slot?, symbol_modifySymbol] at is
        split at is
        · obtain rfl := Option.some.inj is
          cases unresolved
        · exact .inl is
      | interface id index =>
        simp only [slot?, symbol_modifySymbol] at is
        split at is
        · next here =>
          obtain ⟨rfl, -⟩ := here
          exact .inl is
        · exact .inl is
      | _ => exact .inl is

theorem Grows.objectRef_isSome (grows : t.Grows u) (root : t.objectRef.resolved.isSome) :
    u.objectRef.resolved.isSome := by
  obtain ⟨id, found⟩ := Option.isSome_iff_exists.1 root
  obtain ⟨known, named⟩ := lookup_eq_some found
  rw [Option.isSome_iff_ne_none]
  exact fun absent =>
    lookup_eq_none absent id (known.trans_le grows.symbols) ((grows.name id known).trans named)

end SymbolTable

namespace Context

/-! ## What comes about by uses -/

/-- Whatever is met between the states is a reference of a type that has been used, with the names that
the type might denote then; and if the root class is known, each slot whose class has not been found was
there before, or is for a type that has been used. -/
structure Accrues (used : Walk → TypeUse → Context → Prop) (a b : Context) : Prop extends
    a.GoesOn b where
  met : ∀ before e after r, b.history.toList = before ++ e :: after →
    a.history.toList.length ≤ before.length → e.met? = some r →
    ∃ w u c, used w u c ∧ w.Refers u c r ∧ c.history.toList = before
  slots : a.table.objectRef.resolved.isSome → ∀ place slot, b.table.slot? place = some slot →
    slot.type.resolved = none → a.table.slot? place = some slot ∨ ∃ w u c, used w u c ∧ u.link = place

/-- What stands in a list before its end stands in a longer list at the same place. -/
theorem split_of_prefix {α : Type} {short long before after : List α} {x : α} (isPrefix : short <+: long)
    (is : long = before ++ x :: after) (within : before.length < short.length) :
    ∃ rest, short = before ++ x :: rest := by
  obtain ⟨more, rfl⟩ := isPrefix
  rcases List.append_eq_append_iff.1 is with ⟨rest, rfl, -⟩ | ⟨rest, rfl, last⟩
  · simp at within
  · cases rest with
    | nil => simp at within
    | cons y rest =>
      obtain ⟨rfl, -⟩ := List.cons.inj last
      exact ⟨rest, rfl⟩

namespace Accrues

variable {used wider : Walk → TypeUse → Context → Prop} {a b c : Context}

/-- Nothing is met, and slots are at most linked to classes. -/
theorem of_waited (events : List Event) (grows : a.table.Grows b.table)
    (history : b.history.toList = a.history.toList ++ events)
    (waited : ∀ e ∈ events, e.met? = none)
    (slots : a.table.objectRef.resolved.isSome → ∀ place slot, b.table.slot? place = some slot →
      slot.type.resolved = none → a.table.slot? place = some slot) : Accrues used a b where
  table := grows
  history := history ▸ List.prefix_append _ _
  met before e after r is later met := by
    have isIn : e ∈ events := by
      rw [history] at is
      rcases List.append_eq_append_iff.1 is with ⟨rest, -, rfl⟩ | ⟨rest, is, last⟩
      · exact List.mem_append_right _ List.mem_cons_self
      · have short := congrArg List.length is
        rw [List.length_append] at short
        obtain rfl : rest = [] := List.length_eq_zero_iff.1 (by omega)
        rw [← List.nil_append events, ← last]
        exact List.mem_cons_self
    rw [waited e isIn] at met
    cases met
  slots root place slot is unresolved := .inl (slots root place slot is unresolved)

theorem quiet (grows : a.table.Grows b.table) (history : b.history = a.history)
    (same : a.table.SameSlots b.table) : Accrues used a b :=
  .of_waited [] grows (by rw [history, List.append_nil]) nofun
    fun _ place _ is _ => (same.slot? place).symm.trans is

theorem refl (a : Context) : Accrues used a a := quiet (.refl _) rfl (.refl _)

theorem trans (first : Accrues used a b) (second : Accrues used b c) : Accrues used a c where
  toGoesOn := first.toGoesOn.trans second.toGoesOn
  met before e after r is later met := by
    rcases Nat.lt_or_ge before.length b.history.toList.length with early | late
    · obtain ⟨rest, is⟩ := split_of_prefix second.history is early
      exact first.met before e rest r is later met
    · exact second.met before e after r is late met
  slots root place slot is unresolved := by
    rcases second.slots (first.table.objectRef_isSome root) place slot is unresolved with old | isUsed
    · exact first.slots root place slot old unresolved
    · exact .inr isUsed

theorem mono (le : ∀ {w u c}, used w u c → wider w u c) (accrues : Accrues used a b) :
    Accrues wider a b where
  toGoesOn := accrues.toGoesOn
  met before e after r is later met := by
    obtain ⟨w, u, c, isUsed, refers⟩ := accrues.met before e after r is later met
    exact ⟨w, u, c, le isUsed, refers⟩
  slots root place slot is unresolved := by
    rcases accrues.slots root place slot is unresolved with old | ⟨w, u, c, isUsed, isAt⟩
    · exact .inl old
    · exact .inr ⟨w, u, c, le isUsed, isAt⟩

theorem begins {id : SymbolId} (opens : Opens a id b) : Accrues used a b := by
  have grows := opens.precedes.table
  have same := opens.sameSlots
  obtain @⟨qualified, outer, head, begun, -, -, -⟩ := opens
  obtain ⟨t, -, rfl⟩ := beginClass_some begun
  exact .of_waited [.began qualified] grows (Array.toList_push ..) (by simp [Event.met?])
    fun _ place _ is _ => (same.slot? place).symm.trans is

theorem resume (r : PendingReference) (target : SymbolId) (cx : Context) :
    Accrues used cx (Context.resume r target cx) := by
  have resumed := resume_resumed r target cx
  refine .of_waited _ resumed.precedes.table resumed.history (by simp [Event.met?])
    fun root place slot is unresolved => ?_
  rw [resume_table] at is
  rcases cx.table.slot?_of_fill r.link target is unresolved with old | isRoot
  · exact old
  · rw [← isRoot, unresolved] at root
    cases root

theorem resumeEach (entries : List (PendingReference × SymbolId)) (cx : Context) :
    Accrues used cx (entries.foldl (fun cx e => Context.resume e.1 e.2 cx) cx) := by
  induction entries generalizing cx with
  | nil => exact refl cx
  | cons e rest ih => exact (resume e.1 e.2 cx).trans (ih _)

theorem completes (cx : Context) (id : SymbolId) : Accrues used cx (cx.defineComplete id) := by
  have finished : Accrues used cx
      { cx with table := cx.table.finishDefinition id, pending := (cx.waitingFor id).2 } :=
    quiet (.finishDefinition cx.table id) rfl (.finishDefinition cx.table id)
  have resumed : Accrues used _ _ := resumeEach ((cx.waitingFor id).1.map (·, id))
    { cx with table := cx.table.finishDefinition id, pending := (cx.waitingFor id).2 }
  rw [List.foldl_map] at resumed
  exact finished.trans resumed

theorem settle (cx : Context) : Accrues used cx cx.settle := by
  have given : Accrues used cx { cx with pending := .empty } := quiet (.refl _) rfl (.refl _)
  have abandoned (stuck : List PendingReference) (cx : Context) :
      Accrues used cx (stuck.foldl abandon cx) := by
    have done := abandonEach_abandoned stuck cx
    exact .of_waited _ done.precedes.table done.history (by simp [Event.met?])
      fun _ _ _ is _ => done.table ▸ is
  rw [settle_eq]
  exact (given.trans (resumeEach _ _)).trans (abandoned _ _)

/-- A type that is used may be met, and its place may be filled. -/
theorem linkUse {w : Walk} {u : TypeUse} (isUsed : used w u a) : Accrues used a (w.linkUse u a) := by
  have linking := a.linkType_linking w.file u.scope u.written u.pos u.link
  have meets {r : Reference} {e : Event} (history : (w.linkUse u a).history = a.history.push e)
      (isMet : e.met? = some r) (names : u.namesNoClass a = false)
      (inRun : ∃ f, a.file? w.file = some f ∧ r = w.reference u f a) :
      ∀ before e' after r', (w.linkUse u a).history.toList = before ++ e' :: after →
        a.history.toList.length ≤ before.length → e'.met? = some r' →
        ∃ w u c, used w u c ∧ w.Refers u c r' ∧ c.history.toList = before := by
    intro before e' after r' is later met
    rw [history, Array.toList_push] at is
    rcases append_singleton_split is with ⟨rfl, rfl⟩ | ⟨rest, older⟩
    · obtain rfl := Option.some.inj (isMet.symm.trans met)
      exact ⟨w, u, a, isUsed, ⟨names, inRun⟩, rfl⟩
    · rw [older, List.length_append, List.length_cons] at later
      omega
  have grows := (Precedes.linkType a w.file u.scope u.written u.pos u.link).table
  by_cases names : u.namesNoClass a = true
  · have same : w.linkUse u a = a := by
      rw [Walk.linkUse, linkType]
      exact if_pos names
    rw [same]
    exact refl a
  · rw [Bool.not_eq_true] at names
    cases linking with
    | none is =>
      rw [Walk.linkUse, is]
      exact refl a
    | @now f target inRun found is =>
      have history := (apply_records (a.happened (.linked (w.reference u f a) target)) w.file u.pos
        u.link target).2.1
      have table := apply_table (a.happened (.linked (w.reference u f a) target)) w.file u.pos u.link
        target
      rw [Walk.reference, ← is] at history table
      refine ⟨⟨grows, ?_⟩, meets history rfl names ⟨f, inRun, rfl⟩,
        fun root place slot isSlot unresolved => ?_⟩
      · rw [Walk.linkUse, history, happened, Array.toList_push]
        exact List.prefix_append _ _
      · rw [Walk.linkUse, table] at isSlot
        rcases a.table.slot?_of_fill u.link target isSlot unresolved with old | isRoot
        · exact .inl old
        · rw [← isRoot, unresolved] at root
          cases root
    | @later f r inRun met waits undeclared is =>
      have history : (w.linkUse u a).history = a.history.push (.deferred r) := by
        rw [Walk.linkUse, is]
        rfl
      have same := SymbolTable.SameSlots.getOrAddPlaceholder a.table r.key
      refine ⟨⟨grows, ?_⟩, meets history rfl names ⟨f, inRun, met⟩, fun _ place slot isSlot _ => ?_⟩
      · rw [history, Array.toList_push]
        exact List.prefix_append _ _
      · rw [Walk.linkUse, is] at isSlot
        exact .inl ((same.slot? place).symm.trans isSlot)

/-- Types that are used one after the other. -/
theorem linkEach {w : Walk} {types : List Mention} (areUsed : ∀ before m after,
      types = before ++ m :: after → used w m.use (w.linkEach before a)) :
    Accrues used a (w.linkEach types a) := by
  induction types using List.reverseRecOn with
  | nil => exact refl a
  | append_singleton before m ih =>
    have last := linkUse (areUsed before m [] rfl)
    rw [Walk.linkUse_use] at last
    refine (ih fun earlier m' after is => areUsed earlier m' (after ++ [m]) ?_).trans last
    rw [is]
    simp

/-- Types that are written, and then used one after the other. -/
theorem written {w : Walk} {places : Link → Prop} {types : List Mention × Context}
    (writes : w.WritesTypes places a types) (areUsed : ∀ before m after,
      types.1 = before ++ m :: after → used w m.use (w.linkEach before types.2)) :
    Accrues used a (w.linkEach types.1 types.2) := by
  have entered : Accrues used a types.2 := by
    refine ⟨⟨writes.errands.precedes.table, writes.history ▸ List.prefix_rfl⟩,
      fun before e after r is later _ => ?_, fun _ place slot is _ => ?_⟩
    · rw [writes.history] at is
      rw [is, List.length_append, List.length_cons] at later
      omega
    · by_cases isNew : place ∈ types.1.map (·.link)
      · obtain ⟨m, isIn, rfl⟩ := List.mem_map.1 isNew
        obtain ⟨before, after, split⟩ := List.append_of_mem isIn
        exact .inr ⟨w, m.use, _, areUsed before m after split, rfl⟩
      · exact .inl ((writes.others place isNew).symm.trans is)
  exact entered.trans (linkEach areUsed)

end Accrues

end Context

/-! ## Walks -/

namespace Walk

/-- A visit that the walk comes to from the one given uses the type. -/
def UsedFrom (w : Walk) (v : Visit) (w' : Walk) (u : TypeUse) (c : Context) : Prop :=
  w' = w ∧ ∃ v', w.Comes v v' ∧ w.Uses v' u c

variable {w : Walk} {v : Visit} {a b : Context}

theorem Uses.usedFrom {u : TypeUse} (uses : w.Uses v u a) : w.UsedFrom v w u a :=
  ⟨rfl, v, .refl, uses⟩

theorem qualifiedName_accrues {used : Walk → TypeUse → Context → Prop} {scope : WalkScope}
    (isOpen : scope.IsOpenIn a.table) (simple : String) :
    Context.Accrues used a (w.qualifiedName scope simple a).2 := by
  have grows := (w.qualifiedName_run isOpen simple).precedes.table
  obtain ⟨table, same, is⟩ := w.qualifiedName_changes scope simple a
  rw [is] at grows ⊢
  exact .quiet grows rfl same

theorem numbered_accrues {used : Walk → TypeUse → Context → Prop} (ref : ScopeRef) (a : Context) :
    Context.Accrues used a (numbered ref a) :=
  .quiet (SymbolTable.Quiet.numberLocalClass _ _).grows rfl (.numberLocalClass _ _)

theorem reportPruning_accrues {used : Walk → TypeUse → Context → Prop} (a : Context) (idx : NodeIndex)
    (pos : Position) (p : Problem) :
    Context.Accrues used a (a.reportPruning w.file idx pos p) := .quiet (.refl _) rfl (.refl _)

/-- What a class extends comes about by uses. -/
theorem linkParents_accrues (isOpen : v.scope.IsOpenIn v.before.table)
    (lifecycle : v.before.Lifecycle) {node : Node} {admission : Admission} {decl : TypeDecl}
    {id : SymbolId} (admits : w.Admits v node admission a) (is : node.data.typeDecl? = some decl)
    (begun : (w.qualifiedName v.scope decl.name a).2.beginClass?
      (w.qualifiedName v.scope decl.name a).1 v.scope.ref? decl.head = some (id, b)) :
    Context.Accrues (w.UsedFrom v) b
      (w.linkParents id node.pos (w.qualifiedName v.scope decl.name a).1 decl b) := by
  obtain ⟨isOpen', bare⟩ := introduces_parents isOpen lifecycle admits begun
  generalize isNamed : (w.qualifiedName v.scope decl.name a).1 = qualified
  have first : Context.Accrues (w.UsedFrom v) b (w.linkSuperclass id node.pos qualified decl b) := by
    cases isWritten : decl.superclass with
    | some written =>
      have writes := writeSuperclass_writes admits.2.1 is isOpen' bare isWritten
      rw [linkSuperclass_eq_linkEach isWritten]
      exact .written writes fun before m after split =>
        (Uses.introduced (.superclass admits is begun isWritten) split).usedFrom
    | none =>
      rw [linkSuperclass, isWritten]
      dsimp only
      split
      · exact .refl b
      · -- the root class is linked from the start
        have isRoot : b.table.objectRef.resolved = none ∨ b.table.objectRef = b.table.objectRef :=
          .inr rfl
        have grows := (TableStep.superclass isOpen' isRoot).grows
        refine .of_waited [] grows (List.append_nil _).symm (List.forall_mem_nil _)
          fun root place slot isSlot unresolved => ?_
        by_cases here : place = .superclass id
        · subst here
          have entered := b.table.slot?_enteredSuperclass isOpen'.1 b.table.objectRef
          obtain rfl := Option.some.inj (entered.symm.trans isSlot)
          rw [unresolved] at root
          cases root
        · exact (b.table.slot?_enterSuperclass id _ here).symm.trans isSlot
  have others (before after : List String) (are : decl.interfaces = before ++ after) :
      Context.Accrues (w.UsedFrom v) b
        (w.linkInterfaces id node.pos 0 before (w.linkSuperclass id node.pos qualified decl b)) := by
    induction before using List.reverseRecOn generalizing after with
    | nil => exact first
    | append_singleton before written ih =>
      have split : decl.interfaces = before ++ written :: after := by rw [are]; simp
      obtain ⟨comes, count⟩ := linkSomeParents_errands admits.2.1 is isOpen' bare qualified split
      have writes := writeInterface_writes (comes.precedes.table.isOpen isOpen') count
        (interfaces_said admits.2.1 is split 0 written rfl)
      rw [linkInterfaces_append, Nat.zero_add, linkInterfaces_cons]
      refine (ih _ split).trans (.written writes fun earlier m later isSplit => ?_)
      subst isNamed
      exact (Uses.introduced (.interface admits is begun split) isSplit).usedFrom
  exact others decl.interfaces [] (List.append_nil _).symm

/-- Whatever a walk meets, and whatever slots it adds, comes of the types that its visits use. -/
theorem accrues_relates (w : Walk) : w.Relates fun v a b =>
    v.scope.IsOpenIn v.before.table → v.before.Lifecycle → Context.Accrues (w.UsedFrom v) a b where
  rest _ a _ _ := .refl a
  trans first second isOpen lifecycle := (first isOpen lifecycle).trans (second isOpen lifecycle)
  leads {v u a b} leads accrues isOpen lifecycle := by
    obtain ⟨course, isOpen'⟩ := leads.course isOpen
    refine (accrues isOpen' (lifecycle.course course)).mono ?_
    rintro w' u' c ⟨rfl, v', comes, uses⟩
    exact ⟨rfl, v', Relation.ReflTransGen.head leads comes, uses⟩
  refuses _ _ _ _ := by
    rw [refuseDepth_eq]
    exact .quiet (.refl _) rfl (.refl _)
  inspects {v node} _ _ _ _ := by
    obtain ⟨log, is⟩ := w.inspect_changes v.before v.remaining v.scope v.node node
    rw [is]
    exact .quiet (.refl _) rfl (.refl _)
  calls {v node admission inner nodes a b} isOpen admits calls _ _ := by
    have isOpen' := admits.run.precedes.isOpenIn isOpen
    rcases calls.links isOpen' admits.2.1 with ⟨types, enters, is⟩ | ⟨type, is, after⟩ | errands
    · rw [is]
      exact .written (enters.writes isOpen' admits.2.1) fun before m after split =>
        (Uses.introduced (.entered admits enters) split).usedFrom
    · have linked := Context.Accrues.linkUse (Uses.mentioned admits is).usedFrom
      rw [linkUse, ← after] at linked
      exact linked
    · obtain ⟨errands, same, history⟩ := errands
      exact .quiet errands.precedes.table history same
  refusesName {v node admission decl a} isOpen admits _ _ _ _ :=
    (qualifiedName_accrues (admits.run.precedes.isOpenIn isOpen) decl.name).trans
      (reportPruning_accrues _ _ _ _)
  declares {v node admission decl id a b} isOpen admits is begun inspected _ lifecycle := by
    have isOpen' := admits.run.precedes.isOpenIn isOpen
    have named := (inspected isOpen lifecycle).trans
      (qualifiedName_accrues (w := w) isOpen' decl.name)
    exact (named.trans (.begins (opens_declared isOpen' begun))).trans
      (linkParents_accrues isOpen lifecycle admits is begun)
  refusesNumber _ _ _ _ _ := (numbered_accrues _ _).trans (reportPruning_accrues _ _ _ _)
  declaresAnonymous {v node ref type members id a b} isOpen builds begun _ _ := by
    have opens := anonymous_opens (builds.run isOpen).2 begun
    have linked := Context.Accrues.linkEach (w := w) (a := b) fun before m after split =>
      (Uses.introduced (.base builds begun) split).usedFrom
    rw [linkEach_singleton] at linked
    exact ((numbered_accrues ref a).trans (.begins opens)).trans linked
  completes _ _ _ _ := .completes _ _

end Walk

/-! ## Runs -/

namespace Context

/-- Whatever a run meets, and whatever slots it adds, comes of the types that it uses. -/
theorem performAll_accrues (cx : Context) (lifecycle : cx.Lifecycle) (requests : List Request) :
    Accrues (cx.Uses requests) cx (cx.performAll requests) := by
  induction requests generalizing cx with
  | nil => exact .refl cx
  | cons request rest ih =>
    have later : Accrues (cx.Uses (request :: rest)) (cx.perform request)
        (cx.performAll (request :: rest)) :=
      (ih (cx.perform request) (lifecycle.perform request)).mono
        fun ⟨v, comes, uses⟩ => ⟨v, .later comes, uses⟩
    refine Accrues.trans ?_ later
    cases request with
    | analyze unit =>
      have isOpen := WalkScope.isOpenIn_file (cx.rootVisit unit).before.table
      have added : Accrues (cx.Uses (.analyze unit :: rest)) cx
          (cx.addFile unit.tree.fileName unit.level).2 := .quiet (.refl _) rfl (.refl _)
      have walked := ((cx.walkOf unit).accrues_relates.visit (cx.rootVisit unit) isOpen) isOpen
        (lifecycle.addFile unit.tree.fileName unit.level)
      refine added.trans (walked.mono ?_)
      rintro w u c ⟨rfl, v, comes, uses⟩
      exact ⟨v, .here comes, uses⟩
    | settle => exact .settle cx

end Context

end LevelCheck
