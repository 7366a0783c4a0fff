import LevelCheck.Proofs.TableCalls
import LevelCheck.Proofs.TableRelations
set_option autoImplicit false

/-! # What has been declared

A declaration is refused exactly if its name denotes a class that has been declared. Whatever a run
does, what has been declared by a name is what the name goes on to denote. This holds from any table on,
also where several classes carry one name. -/

namespace LevelCheck

namespace SymbolTable

variable {t u v : SymbolTable}

/-- What has been declared by a name is what the name goes on to denote, and stays declared. -/
def KeepsDeclared (t u : SymbolTable) : Prop :=
  ∀ name id, t.lookupDeclared? name = some id → u.lookupDeclared? name = some id

namespace KeepsDeclared

theorem refl (t : SymbolTable) : t.KeepsDeclared t := fun _ _ declared => declared

theorem trans (first : t.KeepsDeclared u) (second : u.KeepsDeclared v) : t.KeepsDeclared v :=
  fun name id declared => second name id (first name id declared)

theorem of_roll (same : u.roll = t.roll) : t.KeepsDeclared u :=
  fun name _ declared => (lookupDeclared_of_roll same name).trans declared

theorem isSome (keeps : t.KeepsDeclared u) {name : String}
    (declared : (t.lookupDeclared? name).isSome) : (u.lookupDeclared? name).isSome := by
  obtain ⟨id, is⟩ := Option.isSome_iff_exists.1 declared
  exact Option.isSome_of_eq_some (keeps name id is)

/-- A name that is looked for is added only if nothing has been declared by it. -/
theorem getOrAddPlaceholder (t : SymbolTable) (name : String) :
    t.KeepsDeclared (t.getOrAddPlaceholder name).2 := by
  cases found : t.lookup? name with
  | some id =>
    rw [getOrAddPlaceholder_of_some found]
    exact refl t
  | none =>
    rw [getOrAddPlaceholder_of_none found]
    intro other id declared
    obtain ⟨denoted, isDeclared⟩ := Option.filter_eq_some_iff.1 declared
    have differs : name ≠ other := by
      rintro rfl
      rw [found] at denoted
      cases denoted
    have older : id.val ≠ t.size := (lookup_eq_some denoted).1.ne
    refine Option.filter_eq_some_iff.2 ⟨?_, ?_⟩
    · rw [lookup_addSymbol]
      exact (if_neg differs).trans denoted
    · rw [symbol_addSymbol, if_neg older]
      exact isDeclared

/-- A class comes to a later stage. -/
theorem setState (t : SymbolTable) (id : SymbolId) {state : SymbolState}
    (later : state ≠ .placeholder) :
    t.KeepsDeclared (t.modifySymbol id fun s => { s with state }) := by
  intro name other declared
  obtain ⟨denoted, isDeclared⟩ := Option.filter_eq_some_iff.1 declared
  refine Option.filter_eq_some_iff.2 ⟨(t.lookup_setState id state name).trans denoted, ?_⟩
  rw [symbol_modifySymbol]
  split
  · exact bne_iff_ne.2 later
  · exact isDeclared

end KeepsDeclared

end SymbolTable

namespace Context

/-- The class of a declaration that is accepted is what its name denotes, and is declared. -/
theorem beginClass_declares {a b : Context} {id : SymbolId} {qualified : String}
    {outer : Option ScopeRef} {head : Symbol → Symbol}
    (begun : a.beginClass? qualified outer head = some (id, b)) (isHead : Symbol.IsHead head) :
    a.table.KeepsDeclared b.table ∧ b.table.lookupDeclared? qualified = some id := by
  obtain ⟨next, started, rfl⟩ := beginClass_some begun
  obtain ⟨placed, is, -, rfl⟩ := SymbolTable.beginDefinition_ok started
  obtain ⟨known, -, visiting⟩ := SymbolTable.beginDefinition_named started
  have same := SymbolTable.roll_enterClass
    (placed.modifySymbol id fun s => { s with state := .visiting }) id outer isHead
  have placedKeeps := SymbolTable.KeepsDeclared.getOrAddPlaceholder a.table qualified
  have denoted := a.table.lookup_getOrAddPlaceholder qualified qualified
  rw [is, if_pos rfl] at denoted
  rw [is] at placedKeeps
  refine ⟨(placedKeeps.trans (.setState placed id (by decide))).trans (.of_roll same), ?_⟩
  refine (SymbolTable.lookupDeclared_of_roll same qualified).trans (Option.filter_eq_some_iff.2 ⟨?_, ?_⟩)
  · exact (placed.lookup_setState id .visiting qualified).trans denoted
  · rw [Symbol.isDeclared, visiting]
    rfl

/-- A class is refused exactly if one has been declared by its name. -/
theorem beginClass_eq_none {cx : Context} {qualified : String} {outer : Option ScopeRef}
    {head : Symbol → Symbol} : cx.beginClass? qualified outer head = none
      ↔ (cx.table.lookupDeclared? qualified).isSome := by
  rw [beginClass?, SymbolTable.beginDefinition, SymbolTable.lookupDeclared?]
  cases found : cx.table.lookup? qualified with
  | some id =>
    rw [SymbolTable.getOrAddPlaceholder_of_some found]
    cases declared : (cx.table.symbol id).isDeclared <;> simp [declared]
  | none =>
    have isNew : (cx.table.addSymbol (.placeholder qualified)).1.val = cx.table.size := rfl
    have undeclared : (Symbol.placeholder qualified).isDeclared = false := rfl
    rw [SymbolTable.getOrAddPlaceholder_of_none found]
    simp [SymbolTable.symbol_addSymbol, isNew, undeclared]

/-- A class is refused for one that carries its name. -/
theorem declared_of_refused {cx : Context} {qualified : String} {outer : Option ScopeRef}
    {head : Symbol → Symbol} (refused : cx.beginClass? qualified outer head = none) :
    ∃ id, cx.table.IsOpen (.symbol id) ∧ (cx.table.symbol id).name = qualified := by
  obtain ⟨id, is⟩ := Option.isSome_iff_exists.1 (beginClass_eq_none.1 refused)
  obtain ⟨denoted, declared⟩ := Option.filter_eq_some_iff.1 is
  obtain ⟨known, named⟩ := SymbolTable.lookup_eq_some denoted
  exact ⟨id, ⟨known, declared⟩, named⟩

end Context

namespace SymbolTable

/-- Whatever a run does to its table keeps what has been declared. -/
theorem KeepsDeclared.holdsAcross : HoldsAcross KeepsDeclared where
  refl := refl
  trans := trans
  step step := .of_roll step.roll
  refers := getOrAddPlaceholder
  opens opens := by
    obtain ⟨begun, isHead, -, -⟩ := opens
    exact (Context.beginClass_declares begun isHead).1
  finishes t id := .setState t id (by decide)
  fills t link target := .of_roll (Quiet.fill t link target).roll

end SymbolTable

theorem Run.keepsDeclared {a b : Context} (run : Run a b) : a.table.KeepsDeclared b.table :=
  SymbolTable.KeepsDeclared.holdsAcross.course (.of_run run)

end LevelCheck
