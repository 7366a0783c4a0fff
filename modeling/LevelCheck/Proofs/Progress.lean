import LevelCheck.Proofs.Settling
import LevelCheck.Proofs.WalkRun
set_option autoImplicit false

/-! # How far classes have been seen

A class is first referred to, then its declaration begins, and last it has been visited. Which names
have been seen how far changes only when a declaration begins and when it ends; in between, a walk
may refer to classes, but neither declares nor completes any. A run completes every class that it
begins, so between files no class is under way. -/

namespace LevelCheck

namespace SymbolTable

/-! ## Classes that have been seen -/

/-- Some class of the name has been seen as far as asked for. -/
def IsSeen (t : SymbolTable) (seen : SymbolState → Bool) (name : String) : Prop :=
  ∃ id : SymbolId, id.val < t.size ∧ (t.symbol id).name = name ∧ seen (t.symbol id).state

/-- Some class of the name has been declared. -/
def Declares (t : SymbolTable) (name : String) : Prop := t.IsSeen (· != .placeholder) name

/-- Some class of the name has been visited. -/
def Completes (t : SymbolTable) (name : String) : Prop := t.IsSeen (· == .complete) name

theorem Completes.declares {t : SymbolTable} {name : String} (completes : t.Completes name) :
    t.Declares name := by
  obtain ⟨id, known, named, complete⟩ := completes
  refine ⟨id, known, named, ?_⟩
  rw [beq_iff_eq.1 complete]
  rfl

theorem UniqueNames.lookupDeclared_iff {t : SymbolTable} (unique : t.UniqueNames) (name : String)
    (id : SymbolId) : t.lookupDeclared? name = some id
      ↔ id.val < t.size ∧ (t.symbol id).name = name ∧ (t.symbol id).isDeclared := by
  rw [lookupDeclared?, Option.filter_eq_some_iff, unique.lookup_iff, and_assoc]

theorem UniqueNames.lookupDeclared_isSome {t : SymbolTable} (unique : t.UniqueNames)
    (name : String) : (t.lookupDeclared? name).isSome ↔ t.Declares name := by
  rw [Option.isSome_iff_exists]
  exact exists_congr fun id => unique.lookupDeclared_iff name id

theorem UniqueNames.lookupComplete_iff {t : SymbolTable} (unique : t.UniqueNames) (name : String)
    (id : SymbolId) : t.lookupComplete? name = some id
      ↔ id.val < t.size ∧ (t.symbol id).name = name ∧ (t.symbol id).isComplete := by
  rw [lookupComplete?, Option.filter_eq_some_iff, unique.lookup_iff, and_assoc]

theorem UniqueNames.lookupComplete_isSome {t : SymbolTable} (unique : t.UniqueNames)
    (name : String) : (t.lookupComplete? name).isSome ↔ t.Completes name := by
  rw [Option.isSome_iff_exists]
  exact exists_congr fun id => unique.lookupComplete_iff name id

/-- The first name that denotes a class is the name of that class. -/
theorem find_of_findSome {t : SymbolTable} {class? : String → Option SymbolId}
    (named : ∀ name id, class? name = some id → (t.symbol id).name = name) {names : List String}
    {id : SymbolId} (found : names.findSome? class? = some id) :
    names.find? (fun name => (class? name).isSome) = some (t.symbol id).name := by
  induction names with
  | nil => cases found
  | cons name rest ih =>
    rw [List.findSome?_cons] at found
    rw [List.find?_cons]
    cases here : class? name with
    | some other =>
      rw [here] at found
      obtain rfl := Option.some.inj found
      exact congrArg some (named name other here).symm
    | none =>
      rw [here] at found
      exact ih found

/-- Which classes have been seen depends on the roll alone. -/
theorem isSeen_of_roll {t t' : SymbolTable} (same : t'.roll = t.roll) (seen : SymbolState → Bool)
    (name : String) : t'.IsSeen seen name ↔ t.IsSeen seen name := by
  refine exists_congr fun id => ?_
  rw [size_of_roll same, name_of_roll same, state_of_roll same]

/-- A placeholder has not been seen. -/
theorem isSeen_getOrAddPlaceholder (t : SymbolTable) (added : String) {seen : SymbolState → Bool}
    (unseen : seen .placeholder = false) (name : String) :
    (t.getOrAddPlaceholder added).2.IsSeen seen name ↔ t.IsSeen seen name := by
  cases found : t.lookup? added with
  | some id => rw [getOrAddPlaceholder_of_some found]
  | none =>
    rw [getOrAddPlaceholder_of_none found]
    constructor
    · -- the class that is seen is an older one, since the new one has not been seen at all
      rintro ⟨id, known, named, isSeen⟩
      rw [size_addSymbol] at known
      rw [symbol_addSymbol] at named isSeen
      split at isSeen
      · exact absurd isSeen (by simp [Symbol.placeholder, unseen])
      · next old =>
        rw [if_neg old] at named
        exact ⟨id, by omega, named, isSeen⟩
    · rintro ⟨id, known, named, isSeen⟩
      refine ⟨id, by simp; omega, ?_, ?_⟩
      · rw [symbol_addSymbol, if_neg known.ne, named]
      · rw [symbol_addSymbol, if_neg known.ne, isSeen]

/-- One class changes how far it has been seen. -/
theorem isSeen_setState {t : SymbolTable} {id : SymbolId} (known : id.val < t.size)
    (state : SymbolState) {seen : SymbolState → Bool} (more : seen (t.symbol id).state → seen state)
    (name : String) :
    (t.modifySymbol id fun s => { s with state }).IsSeen seen name
      ↔ t.IsSeen seen name ∨ name = (t.symbol id).name ∧ seen state := by
  constructor
  · rintro ⟨other, known', named, isSeen⟩
    rw [size_modifySymbol] at known'
    rw [symbol_modifySymbol] at named isSeen
    split at isSeen
    · next is =>
      rw [if_pos is, is.1] at named
      exact .inr ⟨named.symm, isSeen⟩
    · next isOther =>
      rw [if_neg isOther] at named
      exact .inl ⟨other, known', named, isSeen⟩
  · rintro (⟨other, known', named, isSeen⟩ | ⟨rfl, isSeen⟩)
    · refine ⟨other, by rw [size_modifySymbol]; exact known', ?_, ?_⟩
      · rw [symbol_modifySymbol]
        split <;> exact named
      · rw [symbol_modifySymbol]
        split
        · next is =>
          rw [is.1] at isSeen
          exact more isSeen
        · exact isSeen
    · refine ⟨id, by rw [size_modifySymbol]; exact known, ?_, ?_⟩
      · rw [symbol_modifySymbol, if_pos ⟨rfl, known⟩]
      · rw [symbol_modifySymbol, if_pos ⟨rfl, known⟩]
        exact isSeen

/-- Completing a class declares none. -/
theorem declares_finishDefinition {t : SymbolTable} {id : SymbolId} (isOpen : t.IsOpen (.symbol id))
    (name : String) : (t.finishDefinition id).Declares name ↔ t.Declares name := by
  rw [finishDefinition, Declares, isSeen_setState isOpen.1 .complete fun _ => rfl]
  constructor
  · rintro (before | ⟨rfl, -⟩)
    · exact before
    · exact ⟨id, isOpen.1, rfl, isOpen.2⟩
  · exact .inl

theorem completes_finishDefinition {t : SymbolTable} {id : SymbolId} (isOpen : t.IsOpen (.symbol id))
    (name : String) : (t.finishDefinition id).Completes name
      ↔ t.Completes name ∨ name = (t.symbol id).name := by
  rw [finishDefinition, Completes, isSeen_setState isOpen.1 .complete fun _ => rfl]
  exact or_congr_right (and_iff_left rfl)

end SymbolTable

/-- Entering a class in its scope leaves its name, and how far it has been seen. -/
theorem SymbolTable.roll_enterClass (t : SymbolTable) (id : SymbolId) (outer : Option ScopeRef)
    {head : Symbol → Symbol} (isHead : Symbol.IsHead head) :
    (t.enterClass id outer head).roll = t.roll := by
  have first : (t.modifySymbol id fun s => { head s with outer }).roll = t.roll := by
    refine roll_modifySymbol t id fun s => ?_
    rw [isHead s]
  cases outer with
  | none => exact first
  | some scope =>
    refine Eq.trans ?_ first
    exact roll_modifySymbol _ _ fun _ => rfl

/-- A walk on its own declares and completes no class. -/
theorem TableStep.roll {t t' : SymbolTable} (step : TableStep t t') : t'.roll = t.roll := by
  cases step with
  | number isOpen => exact SymbolTable.roll_modifySymbol _ _ fun _ => rfl
  | superclass isOpen known => exact SymbolTable.roll_modifySymbol _ _ fun _ => rfl
  | interface isOpen written => exact SymbolTable.roll_modifySymbol _ _ fun _ => rfl
  | @method owner isOpen =>
    exact SymbolTable.roll_modifySymbol { t with methods := _ } owner fun _ => rfl
  | params isOpen only areNew => rw [SymbolTable.addParams_table]; rfl
  | @fields id isOpen vars areNew =>
    rw [SymbolTable.addFields_table]
    exact SymbolTable.roll_modifySymbol (t.appendVars vars) id fun _ => rfl
  | @locals body isOpen vars areNew policy =>
    rw [SymbolTable.addVars_table]
    cases body <;> rfl
  | @block scope isOpen =>
    rw [SymbolTable.addBlock_table]
    cases scope with
    | symbol id => exact SymbolTable.roll_modifySymbol { t with blocks := _ } id fun _ => rfl
    | method id => rfl
    | block id => rfl

/-! ## Classes under way -/

/-- The class was only referred to before, and has been visited since. -/
def SymbolTable.Finishes (t t' : SymbolTable) (id : SymbolId) : Prop :=
  (t.symbol id).state = .placeholder ∧ (t'.symbol id).state = .complete

theorem SymbolTable.state_getOrAddPlaceholder (t : SymbolTable) (name : String) (id : SymbolId) :
    ((t.getOrAddPlaceholder name).2.symbol id).state = (t.symbol id).state := by
  cases found : t.lookup? name with
  | some other => rw [getOrAddPlaceholder_of_some found]
  | none =>
    rw [getOrAddPlaceholder_of_none found]
    exact view_addSymbol t id Symbol.state rfl

namespace Context

theorem apply_roll (cx : Context) (file : FileId) (pos : Position) (link : Link)
    (target : SymbolId) : (cx.apply file pos link target).table.roll = cx.table.roll := by
  rw [apply_table]
  exact (SymbolTable.Quiet.fill _ _ _).roll

theorem resumeAll_roll (cx : Context) (released : List PendingReference) (target : SymbolId) :
    (released.foldl (fun cx r => resume r target cx) cx).table.roll = cx.table.roll := by
  induction released generalizing cx with
  | nil => rfl
  | cons r rest ih => exact (ih _).trans (apply_roll _ _ _ _ _)

end Context

/-- No single deed begins or completes a class. -/
theorem Deed.state {a b : Context} (deed : Deed a b) (id : SymbolId) :
    (b.table.symbol id).state = (a.table.symbol id).state := by
  cases deed with
  | inspect w remaining scope idx node =>
    obtain ⟨log, is⟩ := w.inspect_changes a remaining scope idx node
    rw [is]
  | refuse w idx node => rw [w.refuseDepth_eq]
  | enter step => exact SymbolTable.state_of_roll step.roll id
  | @link file scope isOpen written pos link openPlace =>
    cases a.linkType_linking file scope written pos link with
    | none is => rw [is]
    | now inRun found is =>
      rw [is]
      exact SymbolTable.state_of_roll (Context.apply_roll _ _ _ _ _) id
    | later inRun met waits undeclared is =>
      rw [is]
      exact SymbolTable.state_getOrAddPlaceholder _ _ id
  | _ => rfl

theorem Opens.state {a b : Context} {id : SymbolId} (opens : Opens a id b) :
    (a.table.symbol id).state = .placeholder ∧ (b.table.symbol id).state = .visiting
      ∧ ∀ other, other ≠ id → (b.table.symbol other).state = (a.table.symbol other).state := by
  obtain @⟨qualified, outer, head, begun, isHead, -, -⟩ := opens
  obtain ⟨t, started, rfl⟩ := Context.beginClass_some begun
  have state := SymbolTable.state_of_roll (SymbolTable.roll_enterClass t id outer isHead)
  obtain ⟨-, -, visiting⟩ := SymbolTable.beginDefinition_named started
  obtain ⟨t', placed, undeclared, rfl⟩ := SymbolTable.beginDefinition_ok started
  have before := a.table.state_getOrAddPlaceholder qualified
  rw [placed] at before
  refine ⟨(before id).symm.trans undeclared, (state id).trans visiting, fun other isOther => ?_⟩
  rw [state, SymbolTable.symbol_modifySymbol, if_neg fun h => isOther h.1, before]

theorem Context.defineComplete_state (cx : Context) {id : SymbolId} (known : id.val < cx.table.size)
    (other : SymbolId) : ((cx.defineComplete id).table.symbol other).state
      = if other = id then .complete else (cx.table.symbol other).state := by
  rw [defineComplete_eq, SymbolTable.state_of_roll (resumeAll_roll _ _ _)]
  exact SymbolTable.view_modifySymbol_known cx.table known _ Symbol.state other

/-- A run completes each class that it begins, and leaves every other as it was. -/
theorem Run.state {a b : Context} (run : Run a b) (id : SymbolId) :
    (b.table.symbol id).state = (a.table.symbol id).state ∨ a.table.Finishes b.table id := by
  induction run with
  | rest cx => exact .inl rfl
  | deed deed => exact .inl (deed.state id)
  | trans _ _ first second =>
    rcases first with same | ⟨before, complete⟩
    · rcases second with same' | ⟨before, complete⟩
      · exact .inl (same'.trans same)
      · exact .inr ⟨same.symm.trans before, complete⟩
    · rcases second with same | ⟨before', -⟩
      · exact .inr ⟨before, same.trans complete⟩
      · rw [complete] at before'
        cases before'
  | @declare a b c declared opens inside ih =>
    obtain ⟨before, visiting, others⟩ := opens.state
    have known := (inside.precedes.table.isOpen opens.isOpen).1
    rw [Context.defineComplete_state c known]
    -- the class itself is completed; any other class finishes inside it or not at all
    by_cases is : id = declared
    · rw [is]
      exact .inr ⟨before, by rw [Context.defineComplete_state c known, if_pos rfl]⟩
    · rw [if_neg is, ← others id is]
      rcases ih with same | ⟨before', complete⟩
      · exact .inl same
      · refine .inr ⟨(others id is).symm.trans before', ?_⟩
        rw [Context.defineComplete_state c known, if_neg is, complete]

namespace Context

/-- No class is under way. -/
def Finished (cx : Context) : Prop := ∀ id, (cx.table.symbol id).state ≠ .visiting

theorem Finished.run {a b : Context} (finished : a.Finished) (run : Run a b) : b.Finished := by
  intro id visiting
  rcases run.state id with same | ⟨-, complete⟩
  · exact finished id (same.symm.trans visiting)
  · rw [complete] at visiting
    cases visiting

theorem finished_start (options : Options) : (start options).Finished := by
  intro id
  have states : ∀ s ∈ SymbolTable.seeded.symbols.toList, s.state ≠ .visiting := by decide +kernel
  rw [start, withTable, SymbolTable.symbol, Array.getD_eq_getD_getElem?]
  cases found : SymbolTable.seeded.symbols[id.val]? with
  | none => rintro ⟨⟩
  | some s => exact states s (Array.mem_toList_iff.2 (Array.mem_of_getElem? found))

theorem Finished.analyzeFiles {cx : Context} (finished : cx.Finished) (units : List SourceUnit) :
    (cx.analyzeFiles units).Finished := by
  induction units generalizing cx with
  | nil => exact finished
  | cons unit rest ih =>
    have known : (cx.addFile unit.tree.fileName unit.level).2.Finished := finished
    exact ih (known.run (cx.analyzeFile_run unit))

/-- Between files, a class that is declared has been visited. -/
theorem Finished.isComplete {cx : Context} (finished : cx.Finished) {id : SymbolId}
    (declared : (cx.table.symbol id).isDeclared) : (cx.table.symbol id).isComplete := by
  rw [Symbol.isDeclared] at declared
  rw [Symbol.isComplete]
  cases state : (cx.table.symbol id).state with
  | placeholder => rw [state] at declared; cases declared
  | visiting => exact absurd state (finished id)
  | complete => rfl

theorem Finished.completes_iff {cx : Context} (finished : cx.Finished) (name : String) :
    cx.table.Completes name ↔ cx.table.Declares name := by
  refine ⟨SymbolTable.Completes.declares, ?_⟩
  rintro ⟨id, known, named, declared⟩
  exact ⟨id, known, named, finished.isComplete declared⟩

end Context

end LevelCheck
