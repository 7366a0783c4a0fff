import LevelCheck.Proofs.Ownership
import LevelCheck.Proofs.Progress
set_option autoImplicit false

/-! # What the history of a run accounts for

The history of a run accounts for its table and for the references that wait. A class is declared if
it is builtin or its declaration is in the history. A reference is linked at once to the first
candidate declared by then, or else waits for one of its candidates; and as long as the run has not
been settled, the references that began to wait are those that still do and those that were
resumed. -/

namespace LevelCheck

/-- The names of the builtin types. -/
def Builtin.names : List String := primitives ++ object :: (classes ++ interfaces)

/-- The class of the name is builtin, or its declaration is among the events. -/
def declaredBy (events : List Event) (name : String) : Bool :=
  Builtin.names.contains name || events.contains (.began name)

theorem declaredBy_append (events : List Event) (e : Event) (name : String) :
    declaredBy (events ++ [e]) name = (declaredBy events name || e == .began name) := by
  rw [Bool.eq_iff_iff]
  simp only [declaredBy, Bool.or_eq_true, List.contains_iff_mem, List.mem_append,
    List.mem_singleton, beq_iff_eq, or_assoc]
  rw [eq_comm (a := e)]

/-- One of the elements of a longer list is the last one, or it lies among those before. -/
theorem append_singleton_split {α : Type} {xs before after : List α} {x y : α}
    (is : xs ++ [x] = before ++ y :: after) :
    (before = xs ∧ y = x) ∨ ∃ rest, xs = before ++ y :: rest := by
  rcases List.append_eq_append_iff.1 is with ⟨more, isBefore, last⟩ | ⟨more, isAfter, last⟩
  · cases more with
    | nil =>
      rw [List.append_nil] at isBefore
      rw [List.nil_append] at last
      exact .inl ⟨isBefore, (List.cons.inj last).1.symm⟩
    | cons z others =>
      have short := congrArg List.length last
      simp at short
  · cases more with
    | nil =>
      rw [List.append_nil] at isAfter
      rw [List.nil_append] at last
      exact .inl ⟨isAfter.symm, (List.cons.inj last).1⟩
    | cons z others =>
      rw [List.cons_append] at last
      rw [(List.cons.inj last).1]
      exact .inr ⟨others, isAfter⟩

/-! ## The history and the table -/

/-- What an event before the end of a run says about the table, given the events before it. A class
is declared once. A reference is linked to the first candidate declared by then; it waits when none
is; and it is resumed with the class of the name that it waits for. -/
def Event.Fits (t : SymbolTable) (before : List Event) : Event → Prop
  | .began name => declaredBy before name = false
  | .linked r target => t.IsOpen (.symbol target)
      ∧ r.candidates.find? (declaredBy before) = some (t.symbol target).name
  | .deferred r => r.key ∈ r.candidates ∧ ∀ n ∈ r.candidates, declaredBy before n = false
  | .resumed r target => t.IsOpen (.symbol target) ∧ (t.symbol target).name = r.name
  | .abandoned _ => False

theorem Event.Fits.grow {t t' : SymbolTable} {before : List Event} {e : Event}
    (fits : e.Fits t before) (grows : t.Grows t') : e.Fits t' before := by
  cases e with
  | began name => exact fits
  | linked r target =>
    refine ⟨grows.isOpen fits.1, ?_⟩
    rw [grows.name target fits.1.1]
    exact fits.2
  | deferred r => exact fits
  | resumed r target =>
    refine ⟨grows.isOpen fits.1, ?_⟩
    rw [grows.name target fits.1.1]
    exact fits.2
  | abandoned r => exact fits

/-- The events account for the declared classes of the table, and fit it one by one. -/
structure Chronicle (t : SymbolTable) (events : List Event) : Prop where
  declares : ∀ name, t.Declares name ↔ declaredBy events name = true
  fits : ∀ before e after, events = before ++ e :: after → e.Fits t before

namespace Chronicle

variable {t t' : SymbolTable} {events : List Event} (chronicle : Chronicle t events)
include chronicle

theorem grow (grows : t.Grows t') (declares : ∀ name, t'.Declares name ↔ t.Declares name) :
    Chronicle t' events where
  declares name := (declares name).trans (chronicle.declares name)
  fits before e after is := (chronicle.fits before e after is).grow grows

/-- One more event, which declares no class. -/
theorem append {e : Event} (fits : e.Fits t events) (other : ∀ name, e ≠ .began name) :
    Chronicle t (events ++ [e]) where
  declares name := by
    rw [chronicle.declares, declaredBy_append, beq_eq_false_iff_ne.2 (other name), Bool.or_false]
  fits before e' after is := by
    rcases append_singleton_split is with ⟨rfl, rfl⟩ | ⟨rest, older⟩
    · exact fits
    · exact chronicle.fits before e' rest older

/-- One more class is declared. -/
theorem began (grows : t.Grows t') {name : String} (isNew : declaredBy events name = false)
    (declares : ∀ n, t'.Declares n ↔ t.Declares n ∨ n = name) :
    Chronicle t' (events ++ [.began name]) where
  declares n := by
    rw [declares, chronicle.declares, declaredBy_append, Bool.or_eq_true, beq_iff_eq,
      Event.began.injEq, eq_comm (a := n)]
  fits before e' after is := by
    rcases append_singleton_split is with ⟨rfl, rfl⟩ | ⟨rest, older⟩
    · exact isNew
    · exact (chronicle.fits before e' rest older).grow grows

/-- The events declare what the table does. -/
theorem lookupDeclared_isSome (unique : t.UniqueNames) (name : String) :
    (t.lookupDeclared? name).isSome = declaredBy events name := by
  rw [Bool.eq_iff_iff, unique.lookupDeclared_isSome, chronicle.declares]

/-- What is found among names is found by the events as well. -/
theorem find_of_findSome (unique : t.UniqueNames) {names : List String} {id : SymbolId}
    (found : names.findSome? t.lookupDeclared? = some id) :
    names.find? (declaredBy events) = some (t.symbol id).name := by
  have known : (fun name => (t.lookupDeclared? name).isSome) = declaredBy events :=
    funext (chronicle.lookupDeclared_isSome unique)
  rw [← known]
  exact SymbolTable.find_of_findSome
    (fun _ _ here => ((unique.lookupDeclared_iff _ _).1 here).2.1) found

/-- A name under which no declared class is found is not declared by the events. -/
theorem undeclared (unique : t.UniqueNames) {name : String} (absent : t.lookupDeclared? name = none) :
    declaredBy events name = false := by
  rw [← chronicle.lookupDeclared_isSome unique, absent, Option.isSome_none]

end Chronicle

/-! ## The class that a walk enters -/

/-- The class of the name is declared, and the history says so. -/
structure Began (a b : Context) (name : String) : Prop where
  isNew : ¬ a.table.Declares name
  declares : ∀ n, b.table.Declares n ↔ a.table.Declares n ∨ n = name
  completes : ∀ n, b.table.Completes n ↔ a.table.Completes n
  history : b.history = a.history.push (.began name)
  pending : b.pending = a.pending
  log : b.log = a.log

theorem Context.beginClass_began {a b : Context} {id : SymbolId} {qualified : String}
    {outer : Option ScopeRef} {head : Symbol → Symbol} (forest : a.table.Forest)
    (begun : a.beginClass? qualified outer head = some (id, b)) (isHead : Symbol.IsHead head) :
    Began a b qualified := by
  obtain ⟨t, started, rfl⟩ := Context.beginClass_some begun
  obtain ⟨t', placed, undeclared, rfl⟩ := SymbolTable.beginDefinition_ok started
  have named := a.table.getOrAddPlaceholder_named qualified
  have names := (forest.getOrAddPlaceholder qualified).classes.names
  have before {seen : SymbolState → Bool} (unseen : seen .placeholder = false) :=
    SymbolTable.isSeen_getOrAddPlaceholder a.table qualified unseen
  rw [placed] at named names before
  -- what has been seen after the class is entered is what was before it, and the class itself
  have after {seen : SymbolState → Bool} (unseen : seen .placeholder = false) (name : String) :
      ((t'.modifySymbol id fun s => { s with state := .visiting }).enterClass id outer
          head).IsSeen seen name
        ↔ a.table.IsSeen seen name ∨ name = qualified ∧ seen .visiting := by
    rw [SymbolTable.isSeen_of_roll (SymbolTable.roll_enterClass _ id outer isHead),
      SymbolTable.isSeen_setState named.1 .visiting fun isSeen => ?_, before unseen, named.2]
    rw [undeclared, unseen] at isSeen
    exact absurd isSeen Bool.false_ne_true
  refine ⟨?_, fun n => ?_, fun n => ?_, rfl, rfl, rfl⟩
  · -- the class of the name is only referred to, and it is the only one of the name
    intro declared
    obtain ⟨other, known, isNamed, isDeclared⟩ := (before rfl qualified).2 declared
    obtain rfl := names other id known named.1 (isNamed.trans named.2.symm)
    rw [undeclared] at isDeclared
    cases isDeclared
  · exact (after rfl n).trans (or_congr_right (and_iff_left rfl))
  · refine (after rfl n).trans (or_iff_left ?_)
    rintro ⟨-, complete⟩
    cases complete

theorem Opens.began {a b : Context} {id : SymbolId} (forest : a.table.Forest)
    (opens : Opens a id b) : ∃ name, Began a b name := by
  obtain ⟨begun, isHead, -, -⟩ := opens
  exact ⟨_, Context.beginClass_began forest begun isHead⟩

/-! ## The history and what waits -/

namespace Context

/-- The references that were linked as soon as they were met, each with its class. -/
def linkedRefs (cx : Context) : List (Reference × SymbolId) := cx.history.toList.filterMap Event.linked?

/-- The references that had to wait. -/
def deferredRefs (cx : Context) : List Reference := cx.history.toList.filterMap Event.deferred?

/-- The waiting references that were linked, each with its class. -/
def resumedRefs (cx : Context) : List (PendingReference × SymbolId) :=
  cx.history.toList.filterMap Event.resumed?

/-- The waiting references that were recorded as unresolved. -/
def abandonedRefs (cx : Context) : List PendingReference :=
  cx.history.toList.filterMap Event.abandoned?

theorem filterMap_happened {α : Type} (cx : Context) (e : Event) (pick : Event → Option α) :
    (cx.happened e).history.toList.filterMap pick
      = cx.history.toList.filterMap pick ++ (pick e).toList := by
  rw [happened, Array.toList_push, List.filterMap_append]
  cases picked : pick e <;> simp [picked]

/-- The account of a run that has not been settled. The references in hand have been released by the
completion of a class, and are about to be resumed. -/
structure Ledger (cx : Context) (inHand : List PendingReference) : Prop where
  owned : cx.Owned
  chronicle : Chronicle cx.table cx.history.toList
  keyed : cx.pending.Keyed
  /-- No class that is waited for has been visited. -/
  incomplete : ∀ r ∈ cx.pending.all, ¬ cx.table.Completes r.name
  account : (cx.deferredRefs.map Reference.waiting).Perm
    (cx.pending.all ++ (inHand ++ cx.resumedRefs.map (·.1)))
  log : ∀ d ∈ cx.log.diagnostics.toList, d.code ≠ 2001

theorem linkProblem_isOwn (t : SymbolTable) (link : Link) (target : SymbolId) :
    ∀ p ∈ t.linkProblem? link target, p.IsOwn := by
  intro p member
  cases link with
  | superclass child =>
    simp only [SymbolTable.linkProblem?] at member
    split at member
    · obtain rfl := Option.mem_some.1 member
      trivial
    · cases member
  | interface child index =>
    simp only [SymbolTable.linkProblem?] at member
    split at member
    · cases member
    · obtain rfl := Option.mem_some.1 member
      trivial
  | _ => cases member

namespace Ledger

variable {cx : Context} {inHand : List PendingReference} (ledger : cx.Ledger inHand)
include ledger

/-- Recording a problem found by the walk. -/
theorem log_push {d : Diagnostic} (isLocal : d.code ≠ 2001) :
    ∀ d' ∈ (cx.log.diagnostics.push d).toList, d'.code ≠ 2001 := by
  intro d' member
  rw [Array.toList_push] at member
  rcases List.mem_append.1 member with before | last
  · exact ledger.log d' before
  · rw [List.mem_singleton.1 last]
    exact isLocal

/-- What neither declares nor completes a class, and no reference has a part in. -/
theorem quiet {next : Context} (owned : next.Owned) (grows : cx.table.Grows next.table)
    (roll : next.table.roll = cx.table.roll) (history : next.history = cx.history)
    (pending : next.pending = cx.pending)
    (log : ∀ d ∈ next.log.diagnostics.toList, d.code ≠ 2001) : next.Ledger inHand where
  owned := owned
  chronicle := by
    rw [history]
    exact ledger.chronicle.grow grows (SymbolTable.isSeen_of_roll roll _)
  keyed := pending ▸ ledger.keyed
  incomplete r waits := by
    rw [pending] at waits
    rw [SymbolTable.Completes, SymbolTable.isSeen_of_roll roll]
    exact ledger.incomplete r waits
  account := by
    rw [deferredRefs, resumedRefs, history, pending]
    exact ledger.account
  log := log

theorem report (file : FileId) (pos : Position) {p : Problem} (isLocal : p.IsLocal) :
    (cx.report file pos p).Ledger inHand :=
  ledger.quiet ⟨ledger.owned.forest, ledger.owned.refs, ledger.owned.waiting⟩ (.refl _) rfl rfl rfl
    (ledger.log_push isLocal.code_ne.2)

theorem apply {target : SymbolId} (known : target.val < cx.table.size) (file : FileId)
    (pos : Position) (link : Link) : (cx.apply file pos link target).Ledger inHand := by
  have quiet := SymbolTable.Quiet.fill cx.table link target
  have filled : (cx.modifyTable fun t => t.fill link target).Ledger inHand :=
    ledger.quiet (ledger.owned.next ⟨quiet.grows, List.prefix_rfl, rfl, rfl⟩
      (ledger.owned.forest.quiet quiet) (ledger.owned.refs.fill known link) fun _ waits => waits)
      quiet.grows quiet.roll rfl rfl ledger.log
  have isOwn := linkProblem_isOwn (cx.modifyTable fun t => t.fill link target).table link target
  rw [Context.apply]
  split
  · next p found => exact filled.report file pos (isOwn p found).isLocal
  · exact filled

/-- A reference in hand is linked to the class of the name that it waited for. -/
theorem resume {r : PendingReference} {rest : List PendingReference} (inOrder : inHand = r :: rest)
    {target : SymbolId} (isOpen : cx.table.IsOpen (.symbol target))
    (named : (cx.table.symbol target).name = r.name) :
    (Context.resume r target cx).Ledger rest := by
  have noted : (cx.happened (.resumed r target)).Ledger rest := by
    refine ⟨⟨ledger.owned.forest, ledger.owned.refs, ledger.owned.waiting⟩, ?_, ledger.keyed,
      ledger.incomplete, ?_, ledger.log⟩
    · rw [happened, Array.toList_push]
      exact ledger.chronicle.append ⟨isOpen, named⟩ fun _ is => by cases is
    · have account := ledger.account
      rw [inOrder] at account
      rw [deferredRefs, resumedRefs, filterMap_happened, filterMap_happened]
      simp only [Event.deferred?, Event.resumed?, Option.toList_none, Option.toList_some,
        List.append_nil, List.map_append, List.map_cons, List.map_nil]
      -- the first reference in hand becomes the last one that was resumed
      refine account.trans (List.Perm.append_left _ ?_)
      rw [← List.append_assoc]
      exact (List.perm_append_singleton r _).symm
  exact noted.apply isOpen.1 r.file r.position r.link

/-- The references in hand are linked one after the other. -/
theorem resumeAll {target : SymbolId} (isOpen : cx.table.IsOpen (.symbol target))
    (named : ∀ r ∈ inHand, (cx.table.symbol target).name = r.name) :
    (inHand.foldl (fun cx r => Context.resume r target cx) cx).Ledger [] := by
  induction inHand generalizing cx with
  | nil => exact ledger
  | cons r rest ih =>
    have grows := (Precedes.resume cx r target).table
    refine ih (ledger.resume rfl isOpen (named r List.mem_cons_self)) (grows.isOpen isOpen) ?_
    intro other waits
    rw [grows.name target isOpen.1]
    exact named other (List.mem_cons_of_mem _ waits)

end Ledger

namespace Ledger

variable {cx : Context} (ledger : cx.Ledger [])
include ledger

/-- A primitive type is declared from the start, so what it resolves to is open. -/
theorem primitive_isOpen {name : String} (primitive : Builtin.isPrimitive name) {id : SymbolId}
    (found : cx.table.lookup? name = some id) : cx.table.IsOpen (.symbol id) := by
  have builtin : declaredBy cx.history.toList name = true := by
    rw [declaredBy, Builtin.names, List.contains_append, Bool.or_eq_true, Bool.or_eq_true]
    exact .inl (.inl primitive)
  obtain ⟨other, known, named, declared⟩ := (ledger.chronicle.declares name).2 builtin
  obtain rfl : other = id := by
    obtain ⟨known', named'⟩ := SymbolTable.lookup_eq_some found
    exact ledger.owned.forest.classes.names other id known known' (named.trans named'.symm)
  exact ⟨known, declared⟩

/-- A reference that is linked at once is linked to the first candidate declared by then. -/
theorem found_fits {f : FileScope} {scope : Option ScopeRef} {name : String} {target : SymbolId}
    (found : Resolution.ofName cx.table f (scope.map cx.table.enclosingSymbol) name = .found target)
    (file : FileId) (pos : Position) (link : Link) :
    (Event.linked (cx.reference f file scope name pos link) target).Fits cx.table
      cx.history.toList := by
  have unique := ledger.owned.forest.classes.names
  rcases Resolution.ofName_found found with candidate | ⟨primitive, denoted⟩
  · obtain ⟨tried, -, declared⟩ := List.exists_of_findSome?_eq_some candidate
    obtain ⟨known, -, isDeclared⟩ := (unique.lookupDeclared_iff tried target).1 declared
    exact ⟨⟨known, isDeclared⟩, ledger.chronicle.find_of_findSome unique candidate⟩
  · have isOpen := ledger.primitive_isOpen primitive denoted
    have named := (SymbolTable.lookup_eq_some denoted).2
    have only : Resolution.names cx.table f (scope.map cx.table.enclosingSymbol) name = [name] := by
      rw [Resolution.names, primitive, denoted]
      rfl
    have declared : declaredBy cx.history.toList name = true :=
      (ledger.chronicle.declares name).1 ⟨target, isOpen.1, named, isOpen.2⟩
    refine ⟨isOpen, ?_⟩
    simp only [reference]
    rw [only, List.find?_cons, declared, named]

/-- A reference is met that is linked at once. -/
theorem linked {r : Reference} {target : SymbolId}
    (fits : (Event.linked r target).Fits cx.table cx.history.toList) :
    (cx.happened (.linked r target)).Ledger [] where
  owned := ⟨ledger.owned.forest, ledger.owned.refs, ledger.owned.waiting⟩
  chronicle := by
    rw [happened, Array.toList_push]
    exact ledger.chronicle.append fits fun _ is => by cases is
  keyed := ledger.keyed
  incomplete := ledger.incomplete
  account := by
    rw [deferredRefs, resumedRefs, filterMap_happened, filterMap_happened]
    simp only [Event.deferred?, Event.resumed?, Option.toList_none, List.append_nil]
    exact ledger.account
  log := ledger.log

/-- A reference begins to wait, for a class that is referred to from now on. -/
theorem deferred {r : Reference} {next : Context}
    (is : next = { cx.happened (.deferred r) with
      table := (cx.table.getOrAddPlaceholder r.key).2
      pending := cx.pending.request r.waiting })
    (owned : next.Owned) (waits : r.key ∈ r.candidates)
    (absent : ∀ n ∈ r.candidates, declaredBy cx.history.toList n = false) :
    next.Ledger [] := by
  have same {seen : SymbolState → Bool} (unseen : seen .placeholder = false) :=
    SymbolTable.isSeen_getOrAddPlaceholder cx.table r.key unseen
  have requested := cx.pending.request_perm r.waiting
  subst is
  refine ⟨owned, ?_, ledger.keyed.request _, fun p isPending completes => ?_, ?_, ledger.log⟩
  · have fits : (Event.deferred r).Fits cx.table cx.history.toList := ⟨waits, absent⟩
    rw [happened, Array.toList_push]
    exact (ledger.chronicle.append fits fun _ is => by cases is).grow (.getOrAddPlaceholder _ _) (same rfl)
  · have completes := (same rfl p.name).1 completes
    rcases List.mem_cons.1 (requested.mem_iff.1 isPending) with rfl | before
    · -- none of the candidates is declared, and so neither is the one waited for
      have declared := (ledger.chronicle.declares r.key).1
        (SymbolTable.Completes.declares completes)
      exact Bool.false_ne_true ((absent r.key waits).symm.trans declared)
    · exact ledger.incomplete p before completes
  · rw [deferredRefs, resumedRefs, filterMap_happened, filterMap_happened]
    simp only [Event.deferred?, Event.resumed?, Option.toList_none, Option.toList_some,
      List.append_nil, List.map_append, List.map_cons, List.map_nil]
    calc (cx.deferredRefs.map Reference.waiting ++ [r.waiting]).Perm
          (r.waiting :: cx.deferredRefs.map Reference.waiting) := List.perm_append_singleton _ _
      List.Perm _ ((r.waiting :: cx.pending.all) ++ cx.resumedRefs.map (·.1)) :=
          ledger.account.cons r.waiting
      List.Perm _ ((cx.pending.request r.waiting).all ++ cx.resumedRefs.map (·.1)) :=
          requested.symm.append_right _

theorem linkType (file : FileId) (scope : Option ScopeRef) (written : String) (pos : Position)
    {link : Link} (hasPlace : cx.table.HasPlace link) :
    (cx.linkType file scope written pos link).Ledger [] := by
  have owned := ledger.owned.linkType file scope written pos hasPlace
  cases cx.linkType_linking file scope written pos link with
  | none is => rw [is]; exact ledger
  | now inRun found is =>
    rw [is]
    have fits := ledger.found_fits found file pos link
    exact (ledger.linked fits).apply fits.1.1 file pos link
  | @later f r inRun met waits undeclared is =>
    have unique := ledger.owned.forest.classes.names
    exact ledger.deferred is owned waits fun n candidate =>
      ledger.chronicle.undeclared unique (undeclared n candidate)

theorem act {next : Context} (act : Act cx next) : next.Ledger [] := by
  have owned := ledger.owned.act act
  cases act with
  | note e => exact ledger.quiet owned (.refl _) rfl rfl rfl ledger.log
  | report file pos isLocal => exact ledger.report file pos isLocal
  | prune file node pos isLocal =>
    exact ledger.quiet owned (.refl _) rfl rfl rfl (ledger.log_push isLocal.code_ne.2)
  | refuse e pos =>
    have other : (Problem.nestingTooDeep cx.options.maxDepth).code ≠ 2001 := by
      simp only [Problem.code]
      decide
    exact ledger.quiet owned (.refl _) rfl rfl rfl (ledger.log_push other)
  | header file keeps => exact ledger.quiet owned (.refl _) rfl rfl rfl ledger.log
  | enter step => exact ledger.quiet owned step.grows step.roll rfl rfl ledger.log
  | link file isOpen written pos hasPlace => exact ledger.linkType file _ written pos hasPlace

/-- A class is declared that was not before. -/
theorem opens {next : Context} {id : SymbolId} (opens : Opens cx id next) : next.Ledger [] := by
  have owned := ledger.owned.opens opens
  obtain ⟨name, began⟩ := opens.began ledger.owned.forest
  have isNew : declaredBy cx.history.toList name = false := by
    rw [← Bool.not_eq_true, ← ledger.chronicle.declares]
    exact began.isNew
  refine ⟨owned, ?_, ?_, fun r waits => ?_, ?_, ?_⟩
  · rw [began.history, Array.toList_push]
    exact ledger.chronicle.began opens.precedes.table isNew began.declares
  · rw [began.pending]
    exact ledger.keyed
  · rw [began.pending] at waits
    rw [began.completes]
    exact ledger.incomplete r waits
  · have history : next.history = (cx.happened (.began name)).history := began.history
    rw [deferredRefs, resumedRefs, history, filterMap_happened, filterMap_happened, began.pending]
    simp only [Event.deferred?, Event.resumed?, Option.toList_none, List.append_nil]
    exact ledger.account
  · rw [began.log]
    exact ledger.log

/-- A class is completed, which takes the references that wait for it in hand. -/
theorem release {id : SymbolId} (isOpen : cx.table.IsOpen (.symbol id)) : ({ cx with
    table := cx.table.finishDefinition id, pending := (cx.waitingFor id).2 } : Context).Ledger
      (cx.waitingFor id).1 := by
  have name : ((cx.table.finishDefinition id).symbol id).name = (cx.table.symbol id).name :=
    (SymbolTable.Grows.finishDefinition _ id).name id isOpen.1
  refine ⟨ledger.owned.release id, ?_, ledger.keyed.release _, fun r waits completes => ?_, ?_,
    ledger.log⟩
  · exact ledger.chronicle.grow (.finishDefinition _ id)
      (SymbolTable.declares_finishDefinition isOpen)
  · -- what still waits does so for a class of another name
    rw [waitingFor, name, ledger.keyed.release_snd] at waits
    obtain ⟨waits, other⟩ := List.mem_filter.1 waits
    rcases (SymbolTable.completes_finishDefinition isOpen r.name).1 completes with before | same
    · exact ledger.incomplete r waits before
    · rw [same] at other
      simp at other
  · have released : ((cx.waitingFor id).1 ++ (cx.waitingFor id).2.all).Perm cx.pending.all := by
      rw [waitingFor, ledger.keyed.release_fst, ledger.keyed.release_snd]
      exact List.filter_append_perm _ _
    calc (cx.deferredRefs.map Reference.waiting).Perm
          (cx.pending.all ++ cx.resumedRefs.map (·.1)) := ledger.account
      List.Perm _ (((cx.waitingFor id).2.all ++ (cx.waitingFor id).1)
          ++ cx.resumedRefs.map (·.1)) :=
          (released.symm.trans List.perm_append_comm).append_right _
      _ = (cx.waitingFor id).2.all ++ ((cx.waitingFor id).1 ++ cx.resumedRefs.map (·.1)) :=
          List.append_assoc _ _ _

theorem defineComplete {id : SymbolId} (isOpen : cx.table.IsOpen (.symbol id)) :
    (cx.defineComplete id).Ledger [] := by
  rw [defineComplete_eq]
  have grows := SymbolTable.Grows.finishDefinition cx.table id
  refine (ledger.release isOpen).resumeAll (grows.isOpen isOpen) fun r released => ?_
  rw [waitingFor, ledger.keyed.release_fst] at released
  exact (beq_iff_eq.1 (List.mem_filter.1 released).2).symm

theorem steps {next : Context} (steps : Steps cx next) : next.Ledger [] :=
  steps.keeps (P := fun cx => cx.Ledger []) (fun step ledger => ledger.act step)
    (fun begins ledger => ledger.opens begins) (fun isOpen ledger => ledger.defineComplete isOpen)
    ledger

theorem run {next : Context} (run : Run cx next) : next.Ledger [] := ledger.steps run.steps

theorem analyzeFile (unit : SourceUnit) : (cx.analyzeFile unit).2.Ledger [] := by
  have known := ledger.quiet (ledger.owned.addFile unit.tree.fileName unit.level) (.refl _) rfl rfl
    rfl ledger.log
  exact known.run (cx.analyzeFile_run unit)

theorem analyzeFiles (units : List SourceUnit) : (cx.analyzeFiles units).Ledger [] := by
  induction units generalizing cx with
  | nil => exact ledger
  | cons unit rest ih => exact ih (ledger.analyzeFile unit)

end Ledger

/-! ## The start of a run -/

/-- The builtin types are those that are listed, and all of them are complete. -/
theorem seeded_isSeen {seen : SymbolState → Bool} (complete : seen .complete) (name : String) :
    SymbolTable.seeded.IsSeen seen name ↔ name ∈ Builtin.names := by
  have names : SymbolTable.seeded.symbols.toList.map Symbol.name = Builtin.names := by
    decide +kernel
  have states : ∀ s ∈ SymbolTable.seeded.symbols.toList, s.state = .complete := by decide +kernel
  rw [← names, List.mem_map]
  constructor
  · rintro ⟨id, known, named, -⟩
    have found : SymbolTable.seeded.symbols[id.val]? = some (SymbolTable.seeded.symbol id) := by
      rw [SymbolTable.symbol, Array.getD_eq_getD_getElem?, Array.getElem?_eq_getElem known,
        Option.getD_some]
    exact ⟨_, Array.mem_toList_iff.2 (Array.mem_of_getElem? found), named⟩
  · rintro ⟨s, isIn, named⟩
    obtain ⟨i, known, is⟩ := Array.mem_iff_getElem.1 (Array.mem_toList_iff.1 isIn)
    have read : SymbolTable.seeded.symbol ⟨i⟩ = s := by
      rw [SymbolTable.symbol, Array.getD_eq_getD_getElem?, Array.getElem?_eq_getElem known,
        Option.getD_some, is]
    refine ⟨⟨i⟩, known, ?_, ?_⟩
    · rw [read, named]
    · rw [read, states s isIn, complete]

theorem ledger_start (options : Options) : (start options).Ledger [] where
  owned := owned_start options
  chronicle := by
    refine ⟨fun name => ?_, fun before e after is => ?_⟩
    · refine (seeded_isSeen rfl name).trans ?_
      simp [declaredBy, start, withTable]
    · simp [start, withTable] at is
  keyed := Pending.keyed_empty
  incomplete := nofun
  account := .refl _
  log := nofun

end Context

end LevelCheck
