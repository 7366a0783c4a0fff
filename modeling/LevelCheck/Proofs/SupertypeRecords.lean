import LevelCheck.Proofs.UnaffectedSupertypes
set_option autoImplicit false

/-! # Records of unfit supertypes

A supertype is checked when it is linked, which may be at once, at the end of the declaration that it
waits for, or at the end of the run. At all times the records of unfit supertypes are those of the
supertypes that have been linked so far, at the positions of the declarations that wrote them. The
references that wait account for the rest: each of them belongs to a place of its own, which is vacant
as long as it waits. An anonymous class is linked to its base so that nothing can be wrong. -/

namespace LevelCheck

/-- One element of a list gives more than before. -/
theorem flatMap_update_perm {α β : Type} {f g : α → List β} {xs : List α} (nodup : xs.Nodup) {x : α}
    (isIn : x ∈ xs) {more : List β} (here : (g x).Perm (more ++ f x))
    (others : ∀ y ∈ xs, y ≠ x → (g y).Perm (f y)) :
    (xs.flatMap g).Perm (more ++ xs.flatMap f) := by
  obtain ⟨front, back, rfl⟩ := List.append_of_mem isIn
  have apart := (List.nodup_cons.1 (List.nodup_middle.1 nodup)).1
  have same (ys : List α) (sub : ys ⊆ front ++ back) : (ys.flatMap g).Perm (ys.flatMap f) := by
    refine List.Perm.flatMap_left ys fun y within => others y ?_ ?_
    · exact List.perm_middle.mem_iff.2 (List.mem_cons_of_mem x (sub within))
    · rintro rfl
      exact apart (sub within)
  have front' := same front (List.subset_append_left _ _)
  have back' := same back (List.subset_append_right _ _)
  simp only [List.flatMap_append, List.flatMap_cons]
  calc (front.flatMap g ++ (g x ++ back.flatMap g)).Perm
        (front.flatMap f ++ ((more ++ f x) ++ back.flatMap f)) := front'.append (here.append back')
    _ = front.flatMap f ++ (more ++ (f x ++ back.flatMap f)) := by rw [List.append_assoc more]
    List.Perm _ (more ++ (front.flatMap f ++ (f x ++ back.flatMap f))) :=
        List.perm_append_comm_assoc _ _ _

/-- A class, and the node that declares it, with its file. -/
structure ClassSite where
  id : SymbolId
  file : FileId
  node : Node

/-- The node with its file. -/
def ClassSite.site (d : ClassSite) : FileId × Node := (d.file, d.node)

/-- The records of what is wrong with the supertypes of the class, in the file and at the position of
the node that declares it. -/
def ClassSite.records (d : ClassSite) (cx : Context) : List Diagnostic :=
  (cx.table.misfits d.id).map (.ofProblem (cx.fileName d.file) d.node.pos)

/-- The place itself, if it is one of a supertype. -/
def Link.place? (link : Link) : Option Link := link.subclass?.map fun _ => link

theorem Link.place?_eq_some {link place : Link} :
    link.place? = some place ↔ link = place ∧ ∃ id, link.subclass? = some id := by
  simp only [place?, Option.map_eq_some_iff]
  tauto

theorem Link.IsAside.subclass? {link : Link} (aside : link.IsAside) : link.subclass? = none := by
  cases link with
  | superclass | interface | anonymousBase => exact aside.elim
  | _ => rfl

/-- What a class says about supertypes: its kind, and the names of its supertypes as they are
written. -/
structure Writing where
  isInterface : Bool
  superclass : Option String
  interfaces : List String

def Symbol.writing (s : Symbol) : Writing :=
  ⟨s.isInterface, s.superclass.map (·.name), s.interfaces.map (·.name)⟩

namespace SymbolTable

variable {t u : SymbolTable} {link : Link} {id target : SymbolId}

theorem KeepsKinds.writing (keeps : t.KeepsKinds u) (isOpen : t.IsOpen (.symbol id))
    (same : ∀ link, link.subclass? = some id → u.supertype? link = t.supertype? link) :
    (u.symbol id).writing = (t.symbol id).writing := by
  have superclass : (u.symbol id).superclass = (t.symbol id).superclass := same (.superclass id) rfl
  have interfaces : (u.symbol id).interfaces = (t.symbol id).interfaces :=
    List.ext_getElem? fun index => same (.interface id index) rfl
  rw [Symbol.writing, Symbol.writing, keeps.kind id isOpen, superclass, interfaces]

/-- Linking changes nothing about how supertypes are written, those of an anonymous class apart. -/
theorem fill_writing (t : SymbolTable) (target : SymbolId) (written : link ≠ .anonymousBase id) :
    ((t.fill link target).symbol id).writing = (t.symbol id).writing := by
  cases link with
  | superclass child =>
    refine view_modifySymbol t child id Symbol.writing fun s => ?_
    simp [Symbol.writing, resolveOptional, Function.comp_def]
  | interface child index =>
    refine view_modifySymbol t child id Symbol.writing fun s => ?_
    have names : (resolveAt s.interfaces index target).map (·.name) = s.interfaces.map (·.name) := by
      refine List.ext_getElem? fun i => ?_
      simp only [resolveAt, List.getElem?_map, List.getElem?_modify]
      split <;> simp [Function.comp_def]
    simp only [Symbol.writing, names]
  | anonymousBase child =>
    have isOther : id ≠ child := fun is => written (is ▸ rfl)
    rw [fill]
    split <;> simp [symbol_modifySymbol, isOther]
  | _ => rfl

/-- What a reference at a position of a file may be linked to: a vacant place of a class declared
there, if it is that of a supertype. The bases of anonymous classes are linked for classes that are
not in the list. -/
structure Allows (t : SymbolTable) (declared : List ClassSite) (link : Link) (file : FileId)
    (pos : Position) : Prop where
  place : ∀ id, link.subclass? = some id →
    t.IsVacant link ∧ ∃ d ∈ declared, d.id = id ∧ d.file = file ∧ d.node.pos = pos
  base : ∀ id, link = .anonymousBase id → t.IsOpen (.symbol id) ∧ id ∉ declared.map (·.id)

theorem Allows.of_aside {declared : List ClassSite} {file : FileId} {pos : Position}
    (aside : link.IsAside) : t.Allows declared link file pos where
  place id isPlace := by
    rw [aside.subclass?] at isPlace
    cases isPlace
  base id is := by
    rw [is] at aside
    exact aside.elim

theorem enterClass_isInterface (t : SymbolTable) (outer : Option ScopeRef) (head : Symbol → Symbol)
    (known : id.val < t.size) (other : SymbolId) :
    ((t.enterClass id outer head).symbol other).isInterface
      = if other = id then (head (t.symbol other)).isInterface else (t.symbol other).isInterface := by
  have first : ((t.modifySymbol id fun s => { head s with outer }).symbol other).isInterface
      = if other = id then (head (t.symbol other)).isInterface else (t.symbol other).isInterface :=
    view_modifySymbol_known t known _ Symbol.isInterface other
  cases outer with
  | none => exact first
  | some scope =>
    rw [← first]
    exact view_modifySymbol _ _ other Symbol.isInterface fun _ => rfl

end SymbolTable

/-- The class whose declaration begins is none that has been declared. -/
theorem Opens.isNew {a b : Context} {id other : SymbolId} (opens : Opens a id b)
    (isOpen : a.table.IsOpen (.symbol other)) : other ≠ id := by
  rintro rfl
  obtain ⟨referred, -⟩ := opens.state
  have declared := isOpen.2
  rw [Symbol.isDeclared, referred] at declared
  cases declared

theorem Opens.records {a b : Context} {id : SymbolId} (opens : Opens a id b) :
    b.pending = a.pending ∧ b.log = a.log := by
  obtain ⟨begun, -, -, -⟩ := opens
  obtain ⟨t, -, rfl⟩ := Context.beginClass_some begun
  exact ⟨rfl, rfl⟩

/-- The declaration of a class begins: its kind is that of its head, and all supertypes are as they
were. -/
theorem Context.beginClass_supertypes {cx next : Context} {id : SymbolId} {qualified : String}
    {outer : Option ScopeRef} {head : Symbol → Symbol}
    (begun : cx.beginClass? qualified outer head = some (id, next)) (isHead : Symbol.IsHead head) :
    (∀ link, next.table.supertype? link = cx.table.supertype? link)
      ∧ (∀ other, other ≠ id →
        (next.table.symbol other).isInterface = (cx.table.symbol other).isInterface)
      ∧ ∃ s, (next.table.symbol id).isInterface = (head s).isInterface := by
  obtain ⟨t, started, rfl⟩ := Context.beginClass_some begun
  obtain ⟨known, -⟩ := SymbolTable.beginDefinition_named started
  obtain ⟨t', placed, -, rfl⟩ := SymbolTable.beginDefinition_ok started
  have lineage := SymbolTable.SameLineage.getOrAddPlaceholder cx.table qualified
  rw [placed] at lineage
  generalize visiting : (t'.modifySymbol id fun s => { s with state := .visiting }) = t at *
  -- only the state of the class has changed before it is entered
  have begun {β : Type} (other : SymbolId) (view : Symbol → β)
      (keeps : ∀ s, view { s with state := .visiting } = view s) :
      view (t.symbol other) = view (t'.symbol other) := by
    rw [← visiting]
    exact SymbolTable.view_modifySymbol t' id other view keeps
  have kind := t.enterClass_isInterface outer head known
  refine ⟨fun link => ?_, fun other isOther => ?_, _, (kind id).trans (if_pos rfl)⟩
  · cases link with
    | superclass other =>
      have entered := t.view_enterClass id outer isHead other Symbol.superclass fun _ _ _ _ _ _ => rfl
      have before := begun other Symbol.superclass fun _ => rfl
      exact entered.trans (before.trans (lineage.superclass other))
    | interface other index =>
      refine congrArg (·[index]?) (?_ : _ = (cx.table.symbol other).interfaces)
      have entered := t.view_enterClass id outer isHead other Symbol.interfaces fun _ _ _ _ _ _ => rfl
      have before := begun other Symbol.interfaces fun _ => rfl
      exact entered.trans (before.trans (lineage.interfaces other))
    | _ => rfl
  · refine (kind other).trans ((if_neg isOther).trans ?_)
    exact (begun other Symbol.isInterface fun _ => rfl).trans (lineage.isInterface other)

namespace Context

/-- What is wrong with a supertype is recorded when it is linked. -/
theorem apply_misfits (cx : Context) (file : FileId) (pos : Position) (link : Link)
    (target : SymbolId) : (cx.apply file pos link target).log.misfits = cx.log.misfits
      ++ ((cx.table.fill link target).linkProblem? link target).toList.map
        (.ofProblem (cx.fileName file) pos) := by
  have wrong {p : Problem} (found : (cx.table.fill link target).linkProblem? link target = some p) :
      isMisfitCode p.code = true := by
    cases link with
    | superclass child => rw [SymbolTable.code_of_superclass found]; rfl
    | interface child index => rw [SymbolTable.code_of_interface found]; rfl
    | _ => cases found
  rw [apply]
  split
  · next p found =>
    have found : (cx.table.fill link target).linkProblem? link target = some p := found
    have isIn : ∀ d ∈ [Diagnostic.ofProblem (cx.fileName file) pos p], isMisfitCode d.code := by
      intro d isIn
      rw [List.mem_singleton.1 isIn]
      exact wrong found
    rw [found]
    simp only [report, ErrorLog.misfits, ErrorLog.add, Array.toList_push, List.filter_append]
    exact congrArg _ (List.filter_eq_self.2 isIn)
  · next none =>
    have none : (cx.table.fill link target).linkProblem? link target = .none := none
    rw [none]
    exact (List.append_nil _).symm

/-- The account of the supertypes of a run. The references in hand have been released and are about to
be resumed; the classes in the list are those that declarations have begun, with what has been written
of their supertypes so far. -/
structure Tally (cx : Context) (inHand : List PendingReference) (declared : List ClassSite)
    (written : SymbolId → Writing) : Prop where
  supertypes : cx.table.OpenSupertypes
  root : cx.table.RootIsClass
  nodup : (declared.map (·.id)).Nodup
  isOpen : ∀ d ∈ declared, cx.table.IsOpen (.symbol d.id)
  writing : ∀ d ∈ declared, (cx.table.symbol d.id).writing = written d.id
  records : cx.log.misfits.Perm (declared.flatMap fun d => d.records cx)
  /-- Nothing is wrong with any other class. -/
  others : ∀ id, id ∉ declared.map (·.id) → cx.table.misfits id = []
  waits : ∀ r ∈ inHand ++ cx.pending.all, cx.table.Allows declared r.link r.file r.position
  /-- No two references wait for the same place of a supertype. -/
  once : ((inHand ++ cx.pending.all).filterMap fun r => r.link.place?).Nodup

namespace Tally

variable {a b cx : Context} {inHand inHand' : List PendingReference} {declared : List ClassSite}
  {written written' : SymbolId → Writing}

/-- References that no longer wait. -/
theorem sub (tally : cx.Tally inHand declared written) {pending : Pending}
    (sub : (inHand' ++ pending.all).Subperm (inHand ++ cx.pending.all)) :
    ({ cx with pending } : Context).Tally inHand' declared written where
  supertypes := tally.supertypes
  root := tally.root
  nodup := tally.nodup
  isOpen := tally.isOpen
  writing := tally.writing
  records := tally.records
  others := tally.others
  waits r isIn := tally.waits r (sub.subset isIn)
  once := by
    obtain ⟨kept, same, sublist⟩ := sub
    exact (same.filterMap _).nodup_iff.1 (tally.once.sublist (sublist.filterMap _))

theorem rewrite (tally : cx.Tally inHand declared written)
    (same : ∀ d ∈ declared, written d.id = written' d.id) : cx.Tally inHand declared written' :=
  { tally with writing := fun d isIn => (tally.writing d isIn).trans (same d isIn) }

/-- The places that references wait for stay as they are, and what is wrong with supertypes is on
record. -/
theorem next (tally : a.Tally inHand declared written) (precedes : a.Precedes b)
    (kinds : a.table.KeepsKinds b.table) (supertypes : b.table.OpenSupertypes)
    (writing : ∀ d ∈ declared, (b.table.symbol d.id).writing = written' d.id)
    (records : b.log.misfits.Perm (declared.flatMap fun d => d.records b))
    (others : ∀ id, id ∉ declared.map (·.id) → b.table.misfits id = [])
    (waits : WaitsAside (inHand ++ a.pending.all) (inHand' ++ b.pending.all))
    (places : ∀ r ∈ inHand ++ a.pending.all, (∃ id, r.link.subclass? = some id) →
      b.table.supertype? r.link = a.table.supertype? r.link) :
    b.Tally inHand' declared written' := by
  obtain ⟨more, waits, aside⟩ := waits
  refine ⟨supertypes, kinds.rootIsClass tally.root, tally.nodup,
    fun d isIn => precedes.table.isOpen (tally.isOpen d isIn), writing, records, others,
    fun r isIn => ?_, ?_⟩
  · rcases List.mem_append.1 (waits.mem_iff.1 isIn) with isNew | before
    · exact .of_aside (aside r isNew)
    · obtain ⟨place, base⟩ := tally.waits r before
      refine ⟨fun id isPlace => ?_, fun id is => ?_⟩
      · obtain ⟨⟨type, stands, isVacant⟩, site⟩ := place id isPlace
        exact ⟨⟨type, (places r before ⟨id, isPlace⟩).trans stands, isVacant⟩, site⟩
      · exact ⟨precedes.table.isOpen (base id is).1, (base id is).2⟩
  · have none : more.filterMap (fun r => r.link.place?) = [] := by
      refine List.filterMap_eq_nil_iff.2 fun r isIn => ?_
      rw [Link.place?, (aside r isIn).subclass?, Option.map_none]
    rw [(waits.filterMap _).nodup_iff, List.filterMap_append, none, List.nil_append]
    exact tally.once

theorem records_perm (precedes : a.Precedes b) {d : ClassSite} {more : List Problem}
    (misfits : (b.table.misfits d.id).Perm (more ++ a.table.misfits d.id)) :
    (d.records b).Perm (more.map (.ofProblem (a.fileName d.file) d.node.pos) ++ d.records a) := by
  rw [ClassSite.records, ClassSite.records, precedes.fileName, ← List.map_append]
  exact misfits.map _

section Suited

variable (tally : a.Tally inHand declared written) (precedes : a.Precedes b)
  (log : b.log.misfits = a.log.misfits)
  (waits : WaitsAside (inHand ++ a.pending.all) (inHand' ++ b.pending.all))
include tally precedes log

theorem records_kept (misfits : ∀ id, b.table.misfits id = a.table.misfits id) :
    b.log.misfits.Perm (declared.flatMap fun d => d.records b) := by
  rw [log]
  refine tally.records.trans (.flatMap_left _ fun d _ => .symm ?_)
  have same : (b.table.misfits d.id).Perm ([] ++ a.table.misfits d.id) := .of_eq (misfits d.id)
  exact records_perm precedes same

include waits

/-- All supertypes stay as they are. -/
theorem kept (kinds : a.table.KeepsKinds b.table)
    (same : ∀ link, b.table.supertype? link = a.table.supertype? link) :
    b.Tally inHand' declared written := by
  have misfits (id : SymbolId) : b.table.misfits id = a.table.misfits id :=
    SymbolTable.misfits_congr fun link _ => kinds.misfit? tally.supertypes (same link)
  refine tally.next precedes kinds (tally.supertypes.grow precedes.table same) (fun d isIn => ?_)
    (tally.records_kept precedes log misfits) (fun id isOther => ?_) waits fun r _ _ => same r.link
  · rw [kinds.writing (tally.isOpen d isIn) fun link _ => same link]
    exact tally.writing d isIn
  · rw [misfits]
    exact tally.others id isOther

/-- Supertypes of a class change, and suit. Nothing was wrong with them before, and no reference waits
for their places. -/
theorem suited {id : SymbolId} (isOpen : a.table.IsOpen (.symbol id))
    (suited : a.table.Suited b.table id)
    (fine : ∀ link, b.table.supertype? link ≠ a.table.supertype? link → a.table.misfit? link = none)
    (places : ∀ r ∈ inHand ++ a.pending.all, r.link.subclass? = some id →
      b.table.supertype? r.link = a.table.supertype? r.link) :
    b.Tally inHand' declared (Function.update written id (b.table.symbol id).writing) := by
  have misfits := suited.misfits tally.supertypes isOpen fine
  have elsewhere {link : Link} {other : SymbolId} (isPlace : link.subclass? = some other)
      (isOther : other ≠ id) : b.table.supertype? link = a.table.supertype? link := by
    refine suited.supertype? ?_
    rw [isPlace]
    exact fun same => isOther (Option.some.inj same)
  refine tally.next precedes suited.keeps (suited.openSupertypes tally.supertypes isOpen)
    (fun d isIn => ?_) (tally.records_kept precedes log misfits) (fun other isOther => ?_) waits ?_
  · by_cases is : d.id = id
    · rw [is, Function.update_self]
    · rw [Function.update_of_ne is, ← tally.writing d isIn]
      exact suited.keeps.writing (tally.isOpen d isIn) fun link isPlace => elsewhere isPlace is
  · rw [misfits]
    exact tally.others other isOther
  · rintro r isIn ⟨other, isPlace⟩
    by_cases is : other = id
    · exact places r isIn (is ▸ isPlace)
    · exact elsewhere isPlace is

end Suited

theorem bystands (tally : a.Tally inHand declared written) (precedes : a.Precedes b)
    (bystands : a.Bystands b) : b.Tally inHand declared written :=
  tally.kept precedes bystands.misfits (bystands.waits.append_left inHand)
    (bystands.lineage.keepsKinds precedes.table) bystands.lineage.supertype?

/-! ## Linking -/

section Apply

variable (tally : cx.Tally inHand declared written) {file : FileId} {pos : Position} {link : Link}
  (allows : cx.table.Allows declared link file pos)
  {target : SymbolId} (targetOpen : cx.table.IsOpen (.symbol target))
include tally allows targetOpen

/-- A supertype that has been written is linked: what is wrong with it is recorded where it is
written. -/
theorem applySupertype {id : SymbolId} (isPlace : link.subclass? = some id)
    (alone : ∀ r ∈ inHand ++ cx.pending.all, r.link ≠ link) :
    (cx.apply file pos link target).Tally inHand declared written := by
  obtain ⟨vacant, d, isDeclared, rfl, rfl, rfl⟩ := allows.place id isPlace
  have isOpen := tally.isOpen d isDeclared
  have precedes := Precedes.apply cx d.file d.node.pos link target
  have misfits := @SymbolTable.misfits_fill cx.table link d.id target tally.supertypes isPlace isOpen
    vacant
  have supertypes := tally.supertypes.fill isPlace isOpen targetOpen
  have log := cx.apply_misfits d.file d.node.pos link target
  have pending := (cx.apply_records d.file d.node.pos link target).1
  have table := cx.apply_table d.file d.node.pos link target
  rw [← table] at misfits supertypes log
  refine tally.next precedes ?_ supertypes (fun d' isIn => ?_) ?_ (fun other isOther => ?_) ?_
    fun r isIn _ => ?_
  · rw [table]
    exact .fill cx.table link target
  · rw [table, SymbolTable.fill_writing]
    · exact tally.writing d' isIn
    · rintro rfl
      cases isPlace
  · rw [log]
    refine (List.perm_append_comm.trans (tally.records.append_left _)).trans (.symm ?_)
    refine flatMap_update_perm tally.nodup.of_map isDeclared ?_ fun d' isIn isOther => ?_
    · have here := misfits d.id
      rw [if_pos rfl] at here
      exact records_perm precedes here
    · have there := misfits d'.id
      rw [if_neg fun same => isOther (List.inj_on_of_nodup_map tally.nodup isIn isDeclared same)]
        at there
      exact records_perm precedes there
  · have apart : other ≠ d.id := fun is => isOther (is ▸ List.mem_map_of_mem isDeclared)
    have there := misfits other
    rw [if_neg apart, tally.others other isOther] at there
    exact there.eq_nil
  · rw [pending]
    exact .refl _
  · rw [table, SymbolTable.supertype?_fill isPlace isOpen.1, if_neg (alone r isIn)]

/-- The base of an anonymous class is linked, and suits. -/
theorem applyBase (unique : cx.table.UniqueNames) {id : SymbolId}
    (isBase : link = .anonymousBase id) :
    (cx.apply file pos link target).Tally inHand declared written := by
  subst isBase
  obtain ⟨isOpen, notDeclared⟩ := allows.base id rfl
  have suits := SymbolTable.Suited.fill_anonymousBase tally.root unique isOpen.1 targetOpen
  have log := cx.apply_misfits file pos (.anonymousBase id) target
  have pending := (cx.apply_records file pos (.anonymousBase id) target).1
  rw [← cx.apply_table file pos (.anonymousBase id) target] at suits
  have linked := tally.suited (Precedes.apply cx file pos (.anonymousBase id) target)
    (log.trans (List.append_nil _)) (by rw [pending]; exact .refl _) isOpen suits
    (fun link changed => ?_) fun r isIn isPlace => ?_
  · refine linked.rewrite fun d isIn => ?_
    have isOther : d.id ≠ id := fun is => notDeclared (is ▸ List.mem_map_of_mem isIn)
    rw [Function.update_of_ne isOther]
  · -- nothing is wrong with an anonymous class
    obtain ⟨isPlace, -⟩ := (suits.places link).resolve_left changed
    exact SymbolTable.misfits_eq_nil_iff.1 (tally.others id notDeclared) link isPlace
  · -- and no reference waits for a place of one
    obtain ⟨-, d, isDeclared, rfl, -⟩ := (tally.waits r isIn).place id isPlace
    exact absurd (List.mem_map_of_mem isDeclared) notDeclared

theorem apply (unique : cx.table.UniqueNames)
    (alone : ∀ id, link.subclass? = some id → ∀ r ∈ inHand ++ cx.pending.all, r.link ≠ link) :
    (cx.apply file pos link target).Tally inHand declared written := by
  cases isPlace : link.subclass? with
  | some id => exact tally.applySupertype allows targetOpen isPlace (alone id isPlace)
  | none =>
    cases link with
    | superclass | interface => cases isPlace
    | anonymousBase id => exact tally.applyBase allows targetOpen unique rfl
    | _ => exact tally.bystands (.apply cx file pos _ target) (.apply cx file pos (by trivial) target)

end Apply

/-! ## References that wait -/

/-- A reference in hand is linked. -/
theorem resume {r : PendingReference} (tally : cx.Tally (r :: inHand) declared written)
    (unique : cx.table.UniqueNames) {target : SymbolId}
    (targetOpen : cx.table.IsOpen (.symbol target)) :
    (Context.resume r target cx).Tally inHand declared written := by
  have left : cx.Tally inHand declared written :=
    tally.sub (List.sublist_cons_self r (inHand ++ cx.pending.all)).subperm
  have noted := left.bystands (Precedes.happened cx (.resumed r target)) (.happened cx _)
  refine noted.apply (tally.waits r List.mem_cons_self) targetOpen unique ?_
  intro id isPlace other isIn same
  have place : r.link.place? = some r.link := Link.place?_eq_some.2 ⟨rfl, id, isPlace⟩
  have once := tally.once
  simp only [List.cons_append, List.filterMap_cons, place] at once
  exact (List.nodup_cons.1 once).1 (List.mem_filterMap.2 ⟨other, isIn, same ▸ place⟩)

/-- The references in hand are linked one after the other. -/
theorem resumeEach {entries : List (PendingReference × SymbolId)}
    (tally : cx.Tally (entries.map (·.1)) declared written) (unique : cx.table.UniqueNames)
    (targets : ∀ e ∈ entries, cx.table.IsOpen (.symbol e.2)) :
    (entries.foldl (fun cx e => Context.resume e.1 e.2 cx) cx).Tally [] declared written := by
  induction entries generalizing cx with
  | nil => exact tally
  | cons e rest ih =>
    have resumed := resume_resumed e.1 e.2 cx
    refine ih (tally.resume unique (targets e List.mem_cons_self)) ?_ fun e' isIn => ?_
    · exact unique.congr (SymbolTable.size_of_roll resumed.roll)
        (SymbolTable.name_of_roll resumed.roll)
    · exact resumed.precedes.table.isOpen (targets e' (List.mem_cons_of_mem _ isIn))

/-- The completion of a class links the references that wait for it. -/
theorem defineComplete (tally : cx.Tally [] declared written) (keyed : cx.pending.Keyed)
    (unique : cx.table.UniqueNames) {id : SymbolId} (isOpen : cx.table.IsOpen (.symbol id)) :
    (cx.defineComplete id).Tally [] declared written := by
  have released : ((cx.waitingFor id).1 ++ (cx.waitingFor id).2.all).Perm cx.pending.all := by
    rw [waitingFor, keyed.release_fst, keyed.release_snd]
    exact List.filter_append_perm _ _
  let finished : Context :=
    { cx with table := cx.table.finishDefinition id, pending := (cx.waitingFor id).2 }
  have grows := SymbolTable.Grows.finishDefinition cx.table id
  have precedes : ({ cx with pending := (cx.waitingFor id).2 } : Context).Precedes finished :=
    ⟨grows, List.prefix_rfl, rfl, rfl⟩
  -- only the state of the class changes
  have view {β : Type} (other : SymbolId) (view : Symbol → β)
      (keeps : ∀ s, view { s with state := .complete } = view s) :
      view (finished.table.symbol other) = view (cx.table.symbol other) :=
    SymbolTable.view_modifySymbol cx.table id other view keeps
  have inHand : finished.Tally (cx.waitingFor id).1 declared written := by
    refine (tally.sub released.subperm).kept precedes rfl (.refl _)
      ⟨grows, fun other _ => view other Symbol.isInterface fun _ => rfl⟩ fun link => ?_
    cases link with
    | superclass other => exact view other Symbol.superclass fun _ => rfl
    | interface other index => exact view other (fun s => s.interfaces[index]?) fun _ => rfl
    | _ => rfl
  rw [defineComplete_eq]
  have entries : (cx.waitingFor id).1 = ((cx.waitingFor id).1.map (·, id)).map (·.1) := by
    rw [List.map_map, Function.comp_def, List.map_id']
  rw [entries] at inHand
  have resumed := inHand.resumeEach
    (unique.congr (SymbolTable.size_modifySymbol ..) fun other => view other Symbol.name fun _ => rfl)
    fun e isIn => ?_
  · rwa [List.foldl_map] at resumed
  · obtain ⟨r, -, rfl⟩ := List.mem_map.1 isIn
    exact grows.isOpen isOpen

theorem settle (tally : cx.Tally [] declared written) (unique : cx.table.UniqueNames) :
    cx.settle.Tally [] declared written := by
  have ready : ((cx.pending.ready cx.table).map (·.1) ++ Pending.empty.all).Subperm
      ([] ++ cx.pending.all) := by
    rw [ready_map_fst]
    exact (List.append_nil _).symm ▸ List.filter_sublist.subperm
  have resumed := (tally.sub ready).resumeEach unique fun e isIn => by
    obtain ⟨r, -, is⟩ := List.mem_filterMap.1 isIn
    obtain ⟨id, found, rfl⟩ := Option.map_eq_some_iff.1 is
    obtain ⟨known, complete, -⟩ := Pending.target_some found
    refine ⟨known, ?_⟩
    rw [Symbol.isDeclared, beq_iff_eq.1 complete]
    rfl
  rw [settle_eq]
  generalize List.foldl _ _ (cx.pending.ready cx.table) = next at *
  -- a reference that is given up leaves its place as it is
  induction cx.pending.stuck cx.table generalizing next with
  | nil => exact resumed
  | cons r rest ih =>
    have given : next.Bystands (abandon next r) := by
      refine .logged rfl rfl (.add .rest rfl _ _) ?_ List.prefix_rfl
      rintro p rfl
      rfl
    exact ih _ (resumed.bystands (abandon_abandoned next r).precedes given)

/-- A reference begins to wait. -/
theorem request (tally : cx.Tally [] declared written) {r : PendingReference}
    (allows : cx.table.Allows declared r.link r.file r.position)
    (alone : ∀ id, r.link.subclass? = some id → ∀ other ∈ cx.pending.all, other.link ≠ r.link) :
    ({ cx with pending := cx.pending.request r } : Context).Tally [] declared written := by
  have requested := cx.pending.request_perm r
  refine { tally with waits := fun other isIn => ?_, once := ?_ }
  · rcases List.mem_cons.1 (requested.mem_iff.1 isIn) with rfl | before
    · exact allows
    · exact tally.waits other before
  · refine (requested.filterMap _).nodup_iff.2 ?_
    cases place : r.link.place? with
    | none =>
      simp only [List.filterMap_cons, place]
      exact tally.once
    | some _ =>
      obtain ⟨rfl, id, isPlace⟩ := Link.place?_eq_some.1 place
      simp only [List.filterMap_cons, place]
      refine List.nodup_cons.2 ⟨fun isIn => ?_, tally.once⟩
      obtain ⟨other, waits, is⟩ := List.mem_filterMap.1 isIn
      exact alone id isPlace other waits (Link.place?_eq_some.1 is).1

/-- A supertype that has been written is linked now, or its reference begins to wait. -/
theorem linkType (tally : cx.Tally [] declared written) (ledger : cx.Ledger []) (file : FileId)
    (scope : Option ScopeRef) (name : String) (pos : Position) {link : Link}
    (allows : cx.table.Allows declared link file pos)
    (alone : ∀ id, link.subclass? = some id → ∀ r ∈ cx.pending.all, r.link ≠ link) :
    (cx.linkType file scope name pos link).Tally [] declared written := by
  cases cx.linkType_linking file scope name pos link with
  | none is =>
    rw [is]
    exact tally
  | @now f target inRun found is =>
    have isOpen := (ledger.found_fits found file pos link).1
    rw [is]
    exact (tally.bystands (Precedes.happened cx _) (.happened cx _)).apply allows isOpen
      ledger.owned.forest.classes.names alone
  | @later f r inRun met waits undeclared is =>
    have place : r.waiting.link = link ∧ r.waiting.file = file ∧ r.waiting.position = pos := by
      rw [met]
      exact ⟨rfl, rfl, rfl⟩
    have asked : cx.table.Allows declared r.waiting.link r.waiting.file r.waiting.position := by
      rw [place.1, place.2.1, place.2.2]
      exact allows
    have requested := tally.request asked (by rwa [place.1])
    have lineage := SymbolTable.SameLineage.getOrAddPlaceholder cx.table r.key
    have grows := SymbolTable.Grows.getOrAddPlaceholder cx.table r.key
    rw [is]
    exact requested.kept ⟨grows, List.prefix_rfl, rfl, rfl⟩ rfl (.refl _) (lineage.keepsKinds grows)
      lineage.supertype?

/-! ## Classes and their supertypes -/

/-- No reference waits for a place that nothing has been written to. -/
theorem alone (tally : cx.Tally inHand declared written) {link : Link}
    (blank : cx.table.supertype? link = none) :
    ∀ id, link.subclass? = some id → ∀ r ∈ inHand ++ cx.pending.all, r.link ≠ link := by
  rintro id isPlace r isIn rfl
  obtain ⟨⟨type, stands, -⟩, -⟩ := (tally.waits r isIn).place id isPlace
  rw [blank] at stands
  cases stands

/-- One more supertype of a class is written, one that suits. -/
theorem write (tally : cx.Tally [] declared written) {link : Link} {type : TypeRef} {id : SymbolId}
    {f : Symbol → Symbol} (isOpen : cx.table.IsOpen (.symbol id))
    (grows : cx.table.Grows (cx.table.modifySymbol id f)) (isPlace : link.subclass? = some id)
    (blank : cx.table.supertype? link = none) (suits : cx.table.Suits link type)
    (kind : ∀ s, (f s).isInterface = s.isInterface)
    (places : ∀ other, (cx.table.modifySymbol id f).supertype? other
      = if other = link then some type else cx.table.supertype? other) :
    (cx.modifyTable fun t => t.modifySymbol id f).Tally [] declared
      (Function.update written id ((cx.table.modifySymbol id f).symbol id).writing) := by
  have changed (other : Link) (isOther : (cx.table.modifySymbol id f).supertype? other
      ≠ cx.table.supertype? other) : other = link := by
    by_contra apart
    rw [places, if_neg apart] at isOther
    exact isOther rfl
  have precedes : cx.Precedes (cx.modifyTable fun t => t.modifySymbol id f) :=
    ⟨grows, List.prefix_rfl, rfl, rfl⟩
  refine tally.suited precedes rfl (.refl _) isOpen (.written isPlace kind grows suits places)
    (fun other isOther => ?_) fun r isIn _ => ?_
  · rw [changed other isOther]
    exact SymbolTable.misfit?_of_none blank
  · exact (places r.link).trans (if_neg (tally.alone blank id isPlace r isIn))

section Begin

variable (tally : a.Tally [] declared written) {id : SymbolId} (opens : Opens a id b)
include tally opens

/-- A class has no supertypes before its declaration begins. -/
theorem blank {link : Link} (isPlace : link.subclass? = some id) :
    a.table.supertype? link = none := by
  by_contra stands
  obtain ⟨type, is⟩ := Option.ne_none_iff_exists'.1 stands
  exact opens.isNew ((tally.supertypes link type is).1 id isPlace) rfl

/-- The declaration of a class begins. -/
theorem begins : b.Tally [] declared written := by
  have precedes := opens.precedes
  have others {other : SymbolId} (isOpen : a.table.IsOpen (.symbol other)) := opens.isNew isOpen
  obtain ⟨pending, log⟩ := opens.records
  obtain @⟨qualified, outer, head, begun, isHead, -, -⟩ := opens
  obtain ⟨same, kind, -⟩ := beginClass_supertypes begun isHead
  refine tally.kept precedes (congrArg ErrorLog.misfits log) ?_
    ⟨precedes.table, fun other isOpen => kind other (others isOpen)⟩ same
  rw [pending]
  exact .refl _

/-- The declaration of a class begins, by a node that declares it. -/
theorem declares (file : FileId) (node : Node) : b.Tally [] (declared ++ [⟨id, file, node⟩])
    (Function.update written id (b.table.symbol id).writing) := by
  have begun := tally.begins opens
  have isNew : id ∉ declared.map (·.id) := by
    intro isIn
    obtain ⟨d, isDeclared, is⟩ := List.mem_map.1 isIn
    exact opens.isNew (tally.isOpen d isDeclared) is
  refine
    { begun with nodup := ?_, isOpen := ?_, writing := ?_, records := ?_, others := ?_, waits := ?_ }
  · rw [List.map_append]
    exact List.Nodup.append tally.nodup (List.nodup_singleton id) (List.disjoint_singleton.2 isNew)
  · intro d isIn
    rcases List.mem_append.1 isIn with before | last
    · exact begun.isOpen d before
    · rw [List.mem_singleton.1 last]
      exact opens.isOpen
  · intro d isIn
    rcases List.mem_append.1 isIn with before | last
    · have apart : d.id ≠ id := fun is => isNew (is ▸ List.mem_map_of_mem before)
      rw [Function.update_of_ne apart]
      exact begun.writing d before
    · rw [List.mem_singleton.1 last, Function.update_self]
  · -- nothing is wrong with the class yet
    have none : ClassSite.records ⟨id, file, node⟩ b = [] := by
      rw [ClassSite.records, begun.others id isNew, List.map_nil]
    rw [List.flatMap_append, List.flatMap_singleton, none, List.append_nil]
    exact begun.records
  · intro other isOther
    rw [List.map_append] at isOther
    exact begun.others other fun isIn => isOther (List.mem_append_left _ isIn)
  · intro r isIn
    obtain ⟨place, base⟩ := begun.waits r isIn
    refine ⟨fun other isPlace => ?_, fun other is => ⟨(base other is).1, ?_⟩⟩
    · obtain ⟨vacant, d, isDeclared, site⟩ := place other isPlace
      exact ⟨vacant, d, List.mem_append_left _ isDeclared, site⟩
    · -- the class whose base is waited for has been open before
      rw [opens.records.1] at isIn
      have apart := opens.isNew ((tally.waits r isIn).base other is).1
      simpa [apart] using (base other is).2

end Begin

end Tally

end Context

end LevelCheck
