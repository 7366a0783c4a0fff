import LevelCheck.Proofs.Placeholders
import LevelCheck.Proofs.References
set_option autoImplicit false

/-! # The life of a class

A class is referred to, its declaration begins, and its declaration ends; there is no way back. What
a reference waits for has a record that has not come to the last of these stages, since the end of a
declaration takes what waits for it out. The history of a run lists the declarations that it has
accepted: a name is accepted as long as it is neither builtin nor listed, so it is accepted once. This
holds in every state of a run, in between the requests to its analyzer and in the middle of a walk. -/

namespace LevelCheck

/-! ## Names at a stage -/

/-- The name that a declaration was accepted for. -/
def Event.began? : Event → Option String
  | .began name => some name
  | _ => none

/-- The names that declarations have been accepted for, in order. -/
def Context.declarations (cx : Context) : List String := cx.history.toList.filterMap Event.began?

namespace SymbolTable

variable {t t' : SymbolTable}

/-- The class of the name has a record, and its declaration has not ended. -/
def Awaits (t : SymbolTable) (name : String) : Prop := t.IsSeen (· != .complete) name

/-- A class that is declared has a record. -/
theorem known_of_isDeclared {id : SymbolId} (declared : (t.symbol id).isDeclared) :
    id.val < t.size := by
  by_contra beyond
  rw [symbol, Array.getD_eq_getD_getElem?, Array.getElem?_eq_none (Nat.not_lt.1 beyond)] at declared
  cases declared

theorem isOpen_symbol {id : SymbolId} : t.IsOpen (.symbol id) ↔ (t.symbol id).isDeclared :=
  ⟨And.right, fun declared => ⟨known_of_isDeclared declared, declared⟩⟩

theorem Grows.isSeen (grows : t.Grows t') {seen : SymbolState → Bool}
    (keeps : ∀ id, seen (t.symbol id).state → seen (t'.symbol id).state) {name : String}
    (isSeen : t.IsSeen seen name) : t'.IsSeen seen name := by
  obtain ⟨id, known, named, isSeen⟩ := isSeen
  exact ⟨id, known.trans_le grows.symbols, (grows.name id known).trans named, keeps id isSeen⟩

/-- A table that has grown declares nothing new, if it has no class declared that was not. -/
theorem Grows.declares_iff (grows : t.Grows t')
    (older : ∀ id, (t'.symbol id).isDeclared → (t.symbol id).isDeclared) (name : String) :
    t'.Declares name ↔ t.Declares name := by
  constructor
  · rintro ⟨id, -, named, declared⟩
    have declared := older id declared
    have known := known_of_isDeclared declared
    exact ⟨id, known, (grows.name id known).symm.trans named, declared⟩
  · rintro ⟨id, known, named, declared⟩
    exact ⟨id, known.trans_le grows.symbols, (grows.name id known).trans named,
      grows.declared id known declared⟩

/-- A class that is referred to and that nothing has declared is only referred to. -/
theorem state_placed {name : String} (undeclared : t.lookupDeclared? name = none) :
    ((t.getOrAddPlaceholder name).2.symbol (t.getOrAddPlaceholder name).1).state
      = .placeholder := by
  cases found : t.lookup? name with
  | some id =>
    rw [getOrAddPlaceholder_of_some found]
    rw [lookupDeclared?, found, Option.filter_some] at undeclared
    simpa [Symbol.isDeclared] using undeclared
  | none =>
    have isNew : (t.addSymbol (.placeholder name)).1.val = t.size := rfl
    rw [getOrAddPlaceholder_of_none found, symbol_addSymbol, if_pos isNew]
    rfl

theorem awaits_placed {name : String} (undeclared : t.lookupDeclared? name = none) :
    (t.getOrAddPlaceholder name).2.Awaits name := by
  obtain ⟨known, named⟩ := t.getOrAddPlaceholder_named name
  refine ⟨_, known, named, ?_⟩
  rw [state_placed undeclared]
  rfl

/-- A declaration is accepted unless one of the same name has been. -/
theorem beginDefinition_iff (unique : t.UniqueNames) (name : String) :
    (∃ accepted, t.beginDefinition name = .ok accepted) ↔ ¬ t.Declares name := by
  rw [← unique.lookupDeclared_isSome, Option.not_isSome_iff_eq_none, beginDefinition]
  constructor
  · rintro ⟨⟨id, next⟩, begun⟩
    obtain ⟨t', placed, referred, -⟩ := beginDefinition_ok begun
    rw [lookupDeclared?]
    cases found : t.lookup? name with
    | none => rfl
    | some other =>
      rw [getOrAddPlaceholder_of_some found] at placed
      obtain ⟨rfl, rfl⟩ := Prod.mk.inj placed
      simp [Symbol.isDeclared, referred]
  · intro undeclared
    have referred := state_placed undeclared
    generalize t.getOrAddPlaceholder name = placed at *
    simp [Symbol.isDeclared, referred]

end SymbolTable

theorem Pending.names_release (p : Pending) (name : String) :
    (p.release name).2.names = p.names.filter (· != name) := by
  rw [release, names, names, List.filter_map]
  cases found : p.groups.find? (·.1 == name) with
  | some group => rfl
  | none =>
    have all : p.groups.filter ((· != name) ∘ Prod.fst) = p.groups := by
      refine List.filter_eq_self.2 fun group isIn => ?_
      simpa using List.find?_eq_none.1 found group isIn
    rw [all]

/-! ## What a run keeps -/

namespace Context

theorem declarations_happened (cx : Context) {e : Event} (other : e.began? = none) :
    (cx.happened e).declarations = cx.declarations := by
  rw [declarations, filterMap_happened, other]
  exact List.append_nil _

theorem Resumed.declarations {a b : Context} {entries : List (PendingReference × SymbolId)}
    (resumed : a.Resumed b entries) : b.declarations = a.declarations := by
  have none : (entries.map fun e => Event.resumed e.1 e.2).filterMap Event.began? = [] := by
    simp [List.filterMap_map, Function.comp_def, Event.began?]
  rw [Context.declarations, resumed.history, List.filterMap_append, none]
  exact List.append_nil _

/-- The completion of a class takes the references in hand that wait for it, and links them. -/
theorem defineComplete_resumed (cx : Context) (id : SymbolId) :
    ({ cx with table := cx.table.finishDefinition id, pending := (cx.waitingFor id).2 } : Context).Resumed
      (cx.defineComplete id) ((cx.waitingFor id).1.map (·, id)) := by
  have resumed := resumeEach_resumed ((cx.waitingFor id).1.map (·, id))
    { cx with table := cx.table.finishDefinition id, pending := (cx.waitingFor id).2 }
  rw [List.foldl_map] at resumed
  exact resumed

end Context

/-- What a deed changes about the names that are waited for, and about the declarations. -/
theorem Deed.names {a b : Context} (deed : Deed a b) : b.declarations = a.declarations
    ∧ ∀ name ∈ b.pending.names, name ∈ a.pending.names ∨ b.table.Awaits name := by
  cases deed with
  | inspect w remaining scope idx node =>
    obtain ⟨log, is⟩ := w.inspect_changes a remaining scope idx node
    rw [is]
    exact ⟨rfl, fun _ => .inl⟩
  | refuse w idx node =>
    rw [w.refuseDepth_eq]
    exact ⟨rfl, fun _ => .inl⟩
  | @link file scope isOpen written pos link openPlace =>
    cases a.linkType_linking file scope written pos link with
    | none is => rw [is]; exact ⟨rfl, fun _ => .inl⟩
    | @now f target inRun found is =>
      let r := a.reference f file scope (baseTypeName written) pos link
      obtain ⟨pending, history, -⟩ :=
        Context.apply_records (a.happened (.linked r target)) file pos link target
      rw [is, Context.declarations, history, pending]
      exact ⟨a.declarations_happened rfl, fun _ => .inl⟩
    | @later f r inRun met waits undeclared is =>
      rw [is]
      refine ⟨a.declarations_happened rfl, fun name isIn => ?_⟩
      -- the only name that is new is that of the class that has been referred to
      simp only [Pending.names, Pending.request, Pending.requestIn_names] at isIn
      split at isIn
      · exact .inl isIn
      · rcases List.mem_append.1 isIn with before | isNew
        · exact .inl before
        · rw [List.mem_singleton.1 isNew]
          exact .inr (SymbolTable.awaits_placed (undeclared r.key waits))
  | _ => exact ⟨rfl, fun _ => .inl⟩

namespace Context

/-- The classes and the waiting references are in order, whatever stages the classes have come to. -/
structure Lifecycle (cx : Context) : Prop where
  owned : cx.Owned
  untouched : cx.Untouched
  /-- What is waited for is a class whose declaration has not ended. -/
  awaits : ∀ name ∈ cx.pending.names, cx.table.Awaits name
  /-- What is declared is builtin, or its declaration has been accepted. -/
  declares : ∀ name, cx.table.Declares name ↔ name ∈ Builtin.names ++ cx.declarations
  /-- No declaration has been accepted twice, and none of a builtin type. -/
  once : (Builtin.names ++ cx.declarations).Nodup

namespace Lifecycle

variable {cx next : Context} (lifecycle : cx.Lifecycle)
include lifecycle

theorem deed (deed : Deed cx next) : next.Lifecycle := by
  have grows := deed.steps.precedes.table
  obtain ⟨declarations, names⟩ := deed.names
  refine ⟨lifecycle.owned.steps deed.steps, lifecycle.untouched.deed lifecycle.owned.forest deed,
    fun name isIn => ?_, fun name => ?_, ?_⟩
  · rcases names name isIn with before | awaits
    · refine grows.isSeen (fun id => ?_) (lifecycle.awaits name before)
      rw [deed.state]
      exact fun is => is
    · exact awaits
  · rw [grows.declares_iff fun id => by rw [Symbol.isDeclared, deed.state]; exact fun is => is,
      lifecycle.declares, declarations]
  · rw [declarations]
    exact lifecycle.once

theorem opens {id : SymbolId} (opens : Opens cx id next) : next.Lifecycle := by
  have forest := lifecycle.owned.forest
  obtain ⟨referred, visiting, others⟩ := opens.state
  obtain ⟨name, began⟩ := opens.began forest
  have history : next.history = (cx.happened (.began name)).history := began.history
  have declarations : next.declarations = cx.declarations ++ [name] := by
    rw [Context.declarations, history, filterMap_happened]
    rfl
  have isNew : name ∉ Builtin.names ++ cx.declarations := by
    rw [← lifecycle.declares]
    exact began.isNew
  refine ⟨lifecycle.owned.opens opens, lifecycle.untouched.opens forest opens,
    fun n isIn => ?_, fun n => ?_, ?_⟩
  · rw [began.pending] at isIn
    refine opens.precedes.table.isSeen (fun other => ?_) (lifecycle.awaits n isIn)
    by_cases is : other = id
    · rw [is, visiting]
      exact fun _ => rfl
    · rw [others other is]
      exact fun isSeen => isSeen
  · rw [began.declares, lifecycle.declares, declarations, ← List.append_assoc,
      List.mem_append (t := [name]), List.mem_singleton]
  · rw [declarations, ← List.append_assoc]
    exact List.Nodup.append lifecycle.once (List.nodup_singleton _)
      (List.disjoint_singleton.2 isNew)

theorem defineComplete {id : SymbolId} (isOpen : cx.table.IsOpen (.symbol id)) :
    (cx.defineComplete id).Lifecycle := by
  have grows := (Precedes.defineComplete cx id).table
  have state := cx.defineComplete_state isOpen.1
  have resumed := cx.defineComplete_resumed id
  refine ⟨lifecycle.owned.defineComplete isOpen, lifecycle.untouched.defineComplete id,
    fun name isIn => ?_, fun name => ?_, ?_⟩
  · -- what still waits does so for another class
    rw [resumed.pending, waitingFor, Pending.names_release,
      (SymbolTable.Grows.finishDefinition cx.table id).name id isOpen.1] at isIn
    obtain ⟨before, otherName⟩ := List.mem_filter.1 isIn
    obtain ⟨other, known, named, waits⟩ := lifecycle.awaits name before
    refine ⟨other, known.trans_le grows.symbols, (grows.name other known).trans named, ?_⟩
    have isOther : other ≠ id := by
      rintro rfl
      rw [named] at otherName
      exact absurd rfl (bne_iff_ne.1 otherName)
    rw [state, if_neg isOther]
    exact waits
  · rw [resumed.declarations]
    refine (grows.declares_iff (fun other => ?_) name).trans (lifecycle.declares name)
    rw [Symbol.isDeclared, state]
    split
    · next is => rw [is]; exact fun _ => isOpen.2
    · exact fun declared => declared
  · rw [resumed.declarations]
    exact lifecycle.once

/-- Every state that a walk comes to is in order. -/
theorem course (course : Course cx next) : next.Lifecycle :=
  course.keeps (P := Lifecycle) (fun step lifecycle => lifecycle.deed step)
    (fun begins lifecycle => lifecycle.opens begins)
    (fun isOpen lifecycle => lifecycle.defineComplete isOpen) lifecycle

theorem run (run : Run cx next) : next.Lifecycle := lifecycle.course (.of_run run)

theorem addFile (name : String) (level : Level) : (cx.addFile name level).2.Lifecycle :=
  ⟨lifecycle.owned.addFile name level, ⟨lifecycle.untouched.blank, lifecycle.untouched.places⟩,
    lifecycle.awaits, lifecycle.declares, lifecycle.once⟩

theorem settle : cx.settle.Lifecycle := by
  have settles := cx.settle_settles
  have declarations : cx.settle.declarations = cx.declarations := by
    -- settling begins no declaration
    rw [Context.declarations, settles.history, List.filterMap_append, List.filterMap_append]
    simp [List.filterMap_map, Function.comp_def, Event.began?, Context.declarations]
  refine ⟨lifecycle.owned.settle, lifecycle.untouched.settle, fun name isIn => ?_, fun name => ?_, ?_⟩
  · rw [settles.pending] at isIn
    cases isIn
  · rw [declarations, SymbolTable.Declares, SymbolTable.isSeen_of_roll settles.roll]
    exact lifecycle.declares name
  · rw [declarations]
    exact lifecycle.once

theorem perform (request : Request) : (cx.perform request).Lifecycle := by
  cases request with
  | analyze unit => exact (lifecycle.addFile _ _).run (cx.analyzeFile_run unit)
  | settle => exact lifecycle.settle

theorem performAll (requests : List Request) : (cx.performAll requests).Lifecycle := by
  induction requests generalizing cx with
  | nil => exact lifecycle
  | cons request rest ih => exact ih (lifecycle.perform request)

/-- The record of what is waited for. -/
theorem awaited {name : String} (isIn : name ∈ cx.pending.names) :
    ∃ id ∈ cx.table.lookup? name, (cx.table.symbol id).state ≠ .complete := by
  obtain ⟨id, known, named, waits⟩ := lifecycle.awaits name isIn
  exact ⟨id, (lifecycle.owned.forest.classes.names.lookup_iff name id).2 ⟨known, named⟩,
    bne_iff_ne.1 waits⟩

end Lifecycle

theorem lifecycle_start (options : Options) : (start options).Lifecycle where
  owned := owned_start options
  untouched := untouched_start options
  awaits := nofun
  declares name := by
    refine (seeded_isSeen rfl name).trans ?_
    simp [declarations, start, withTable]
  once := by
    have builtin : Builtin.names.Nodup := by decide +kernel
    simpa [declarations, start, withTable] using builtin

end Context

end LevelCheck
