import LevelCheck.Proofs.Lifecycle
import LevelCheck.Proofs.TableRelations
set_option autoImplicit false

/-! # What surrounds a scope

From when it is opened to the end of a run, a scope lies in the same scopes, and the type parameters of
a class or a method stay what its declaration says, as does the kind of a class. So it does not matter
when it is asked, of a name that is written in an open scope, which classes around it there are, whether
it is a type parameter, and, the imports of its file apart, which classes it may denote. -/

namespace LevelCheck

/-- The scope around the class, the type parameters that it declares, and whether it is an interface. -/
def Symbol.surroundings (s : Symbol) : Option ScopeRef × List String × Bool :=
  (s.outer, s.typeParams, s.isInterface)

namespace SymbolTable

/-- The table has grown, and the scopes that were open lie where they lay, declare the same type
parameters and are of the same kind. -/
structure KeepsSurroundings (t u : SymbolTable) : Prop where
  grows : t.Grows u
  symbol : ∀ id, t.IsOpen (.symbol id) → (u.symbol id).surroundings = (t.symbol id).surroundings
  method : ∀ id, t.IsOpen (.method id) → (u.method id).typeParams = (t.method id).typeParams

namespace KeepsSurroundings

variable {t u v : SymbolTable}

theorem refl (t : SymbolTable) : t.KeepsSurroundings t := ⟨.refl t, fun _ _ => rfl, fun _ _ => rfl⟩

theorem trans (first : t.KeepsSurroundings u) (second : u.KeepsSurroundings v) :
    t.KeepsSurroundings v where
  grows := first.grows.trans second.grows
  symbol id isOpen := (second.symbol id (first.grows.isOpen isOpen)).trans (first.symbol id isOpen)
  method id isOpen := (second.method id (first.grows.isOpen isOpen)).trans (first.method id isOpen)

/-! ## Changes of the table -/

theorem modifySymbol (t : SymbolTable) (id : SymbolId) {f : Symbol → Symbol}
    (grows : t.Grows (t.modifySymbol id f)) (keeps : ∀ s, (f s).surroundings = s.surroundings) :
    t.KeepsSurroundings (t.modifySymbol id f) :=
  ⟨grows, fun s _ => view_modifySymbol t id s Symbol.surroundings keeps, fun _ _ => rfl⟩

theorem modifyMethod (t : SymbolTable) (id : MethodId) {f : Method → Method}
    (grows : t.Grows (t.modifyMethod id f)) (keeps : ∀ m, (f m).typeParams = m.typeParams) :
    t.KeepsSurroundings (t.modifyMethod id f) :=
  ⟨grows, fun _ _ => rfl, fun m _ => view_modifyMethod t id m Method.typeParams keeps⟩

theorem step (step : TableStep t u) : t.KeepsSurroundings u := by
  have grows := step.grows
  cases step with
  | number | superclass | interface => exact modifySymbol t _ grows fun _ => rfl
  | @method owner isOpen name modifiers typeParams returnType throws isConstructor =>
    refine ⟨grows, fun s _ => ?_, fun m known => ?_⟩
    · exact view_modifySymbol { t with methods := t.methods.push _ } owner s Symbol.surroundings
        fun _ => rfl
    · have other : m.val ≠ t.methods.size := Nat.ne_of_lt known
      exact congrArg Method.typeParams ((getD_push t.methods _ m.val default).trans (if_neg other))
  | @params id isOpen only vars areNew =>
    rw [addParams_table] at grows ⊢
    exact ⟨grows, fun _ _ => rfl,
      fun m _ => view_modifyMethod (t.appendVars vars) id m Method.typeParams fun _ => rfl⟩
  | @fields id isOpen vars areNew =>
    rw [addFields_table] at grows ⊢
    exact ⟨grows, fun s _ => view_modifySymbol (t.appendVars vars) id s Symbol.surroundings
      fun _ => rfl, fun _ _ => rfl⟩
  | @locals body isOpen vars areNew policy =>
    rw [addVars_table] at grows ⊢
    cases body with
    | method id =>
      exact ⟨grows, fun _ _ => rfl,
        fun m _ => view_modifyMethod (t.appendVars vars) id m Method.typeParams fun _ => rfl⟩
    | block id => exact ⟨grows, fun _ _ => rfl, fun _ _ => rfl⟩
  | @block scope isOpen =>
    let opened : SymbolTable :=
      { t with blocks := t.blocks.push { outer := scope, vars := [], blocks := [] } }
    cases scope with
    | symbol id =>
      exact ⟨grows, fun s _ => view_modifySymbol opened id s Symbol.surroundings fun _ => rfl,
        fun _ _ => rfl⟩
    | method id =>
      exact ⟨grows, fun _ _ => rfl,
        fun m _ => view_modifyMethod opened id m Method.typeParams fun _ => rfl⟩
    | block id => exact ⟨grows, fun _ _ => rfl, fun _ _ => rfl⟩

theorem fill (t : SymbolTable) (link : Link) (target : SymbolId) :
    t.KeepsSurroundings (t.fill link target) := by
  have grows := (Quiet.fill t link target).grows
  cases link with
  | superclass child | interface child index => exact modifySymbol t child grows fun _ => rfl
  | returnType method | thrownType method index => exact modifyMethod t method grows fun _ => rfl
  | variableType | existence => exact ⟨grows, fun _ _ => rfl, fun _ _ => rfl⟩
  | anonymousBase child =>
    refine ⟨grows, fun s _ => ?_, fun m _ => ?_⟩
    · rw [SymbolTable.fill]
      split <;> exact view_modifySymbol t child s Symbol.surroundings fun _ => rfl
    · rw [SymbolTable.fill]
      split <;> rfl

theorem getOrAddPlaceholder (t : SymbolTable) (name : String) :
    t.KeepsSurroundings (t.getOrAddPlaceholder name).2 := by
  have grows := Grows.getOrAddPlaceholder t name
  cases found : t.lookup? name with
  | some id =>
    rw [getOrAddPlaceholder_of_some found]
    exact refl t
  | none =>
    rw [getOrAddPlaceholder_of_none found] at grows ⊢
    exact ⟨grows, fun id _ => view_addSymbol t id Symbol.surroundings rfl, fun _ _ => rfl⟩

theorem finishDefinition (t : SymbolTable) (id : SymbolId) :
    t.KeepsSurroundings (t.finishDefinition id) :=
  modifySymbol t id (.finishDefinition t id) fun _ => rfl

/-- A class is entered in its scope as its declaration begins; it has not been open before. -/
theorem opens {a b : Context} {id : SymbolId} (opens : Opens a id b) :
    a.table.KeepsSurroundings b.table := by
  have grows := opens.precedes.table
  have isNew {other : SymbolId} (isOpen : a.table.IsOpen (.symbol other)) : other ≠ id := by
    rintro rfl
    have declared := isOpen.2
    rw [Symbol.isDeclared, opens.state.1] at declared
    contradiction
  obtain @⟨qualified, outer, head, begun, isHead, -, -⟩ := opens
  obtain ⟨t, started, rfl⟩ := Context.beginClass_some begun
  obtain ⟨t', placed, -, rfl⟩ := beginDefinition_ok started
  have referred := getOrAddPlaceholder a.table qualified
  rw [placed] at referred
  refine ⟨grows, fun other isOpen => ?_, fun m isOpen => ?_⟩
  · refine Eq.trans ?_ (referred.symbol other isOpen)
    have apart := isNew isOpen
    have begins : ((t'.modifySymbol id fun s => { s with state := .visiting }).modifySymbol id
        fun s => { head s with outer }).symbol other = t'.symbol other := by
      rw [symbol_modifySymbol, if_neg fun is => apart is.1, symbol_modifySymbol,
        if_neg fun is => apart is.1]
    rw [← begins]
    cases outer with
    | none => rfl
    | some scope => exact view_modifySymbol _ _ other Symbol.surroundings fun _ => rfl
  · refine Eq.trans ?_ (referred.method m isOpen)
    cases outer <;> rfl

/-- Whatever a run does to its table keeps what surrounds the scopes that are open. -/
theorem holdsAcross : HoldsAcross KeepsSurroundings where
  refl := refl
  trans := trans
  step := step
  refers := getOrAddPlaceholder
  opens := opens
  finishes := finishDefinition
  fills := fill

end KeepsSurroundings

end SymbolTable

/-! ## Runs -/

namespace Context

open SymbolTable

/-- A class whose declaration begins lies in the scope that it is declared in. -/
theorem beginClass_outerOf {cx next : Context} {id : SymbolId} {qualified : String}
    {outer : Option ScopeRef} {head : Symbol → Symbol}
    (begun : cx.beginClass? qualified outer head = some (id, next)) :
    next.table.outerOf (.symbol id) = outer := by
  obtain ⟨t, started, rfl⟩ := beginClass_some begun
  obtain ⟨known, -⟩ := beginDefinition_named started
  let placed := t.modifySymbol id fun s => { head s with outer }
  have entered : (placed.symbol id).outer = outer := by
    rw [symbol_modifySymbol, if_pos ⟨rfl, known⟩]
  show ((t.enterClass id outer head).symbol id).outer = outer
  cases outer with
  | none => exact entered
  | some scope =>
    have listed := view_modifySymbol placed (placed.enclosingSymbol scope) id
      (f := fun s => { s with innerClasses := s.innerClasses ++ [id] }) Symbol.outer fun _ => rfl
    exact listed.trans entered

end Context

theorem Course.keepsSurroundings {a b : Context} (course : Course a b) :
    a.table.KeepsSurroundings b.table :=
  SymbolTable.KeepsSurroundings.holdsAcross.course course

/-! ## What is read of the surroundings -/

namespace SymbolTable

variable {t u : SymbolTable}

/-- The scope around an open scope is open. -/
theorem Forest.outerOf_isOpen (forest : t.Forest) {scope outer : ScopeRef} (isOpen : t.IsOpen scope)
    (step : t.outerOf scope = some outer) : t.IsOpen outer := by
  cases scope with
  | symbol id => exact forest.classes.outerOpen id outer step
  | method id =>
    obtain rfl : ScopeRef.symbol (t.method id).owner = outer := Option.some.inj step
    exact forest.scopes.owner_isOpen isOpen
  | block id =>
    obtain rfl : (t.block id).outer = outer := Option.some.inj step
    exact forest.scopes.outer_isOpen isOpen

/-- The classes around an open class are open. They have shorter names, which the induction is on. -/
theorem Forest.enclosingClasses_isOpen (forest : t.Forest) {id : SymbolId}
    (isOpen : t.IsOpen (.symbol id)) : ∀ other ∈ t.enclosingClasses id, t.IsOpen (.symbol other) := by
  induction length : (t.symbol id).name.length using Nat.strong_induction_on generalizing id with
  | h n ih =>
    rw [forest.enclosingClasses_eq isOpen.1]
    intro other isIn
    rcases List.mem_cons.1 isIn with rfl | further
    · exact isOpen
    · cases around : (t.symbol id).outer with
      | none => simp [around] at further
      | some scope =>
        have step : t.outerClass? id = some (t.enclosingSymbol scope) := by
          rw [outerClass?, around, Option.map_some]
        have lower := (forest.outerClass_lower id _ isOpen.1 step).2
        rw [length] at lower
        rw [around] at further
        exact ih _ lower (forest.scopes.enclosingSymbol_isOpen
          (forest.classes.outerOpen id scope around)) rfl other further

namespace KeepsSurroundings

variable (keeps : t.KeepsSurroundings u)
include keeps

theorem outerOf {scope : ScopeRef} (isOpen : t.IsOpen scope) : u.outerOf scope = t.outerOf scope := by
  cases scope with
  | symbol id => exact congrArg Prod.fst (keeps.symbol id isOpen)
  | method id => exact congrArg (fun owner => some (ScopeRef.symbol owner)) (keeps.grows.owner id isOpen)
  | block id => exact congrArg some (keeps.grows.outer id isOpen)

theorem typeParamsOf {scope : ScopeRef} (isOpen : t.IsOpen scope) :
    u.typeParamsOf scope = t.typeParamsOf scope := by
  cases scope with
  | symbol id => exact congrArg (·.2.1) (keeps.symbol id isOpen)
  | method id => exact keeps.method id isOpen
  | block id => rfl

variable (forest : t.Forest) (forest' : u.Forest)
include forest forest'

/-- Whether a name is a type parameter is found on the way outward, by induction on how far inside the
scope lies. -/
theorem isTypeParam {scope : ScopeRef} (isOpen : t.IsOpen scope) (name : String) :
    u.isTypeParam scope name = t.isTypeParam scope name := by
  induction rank : t.scopeRank scope using WellFoundedLT.induction generalizing scope with
  | ind r ih =>
    rw [forest.leadsOutward.isTypeParam scope name isOpen.holds,
      forest'.leadsOutward.isTypeParam scope name (keeps.grows.isOpen isOpen).holds,
      keeps.outerOf isOpen, keeps.typeParamsOf isOpen]
    cases step : t.outerOf scope with
    | none => rfl
    | some outer =>
      have lower := (forest.outerOf_lower scope outer isOpen.holds step).2
      rw [rank] at lower
      rw [Option.any_some, Option.any_some, ih _ lower (forest.outerOf_isOpen isOpen step) rfl]

theorem enclosingSymbol {scope : ScopeRef} (isOpen : t.IsOpen scope) :
    u.enclosingSymbol scope = t.enclosingSymbol scope := by
  induction rank : t.scopeRank scope using WellFoundedLT.induction generalizing scope with
  | ind r ih =>
    rw [forest.leadsOutward.enclosingSymbol scope isOpen.holds,
      forest'.leadsOutward.enclosingSymbol scope (keeps.grows.isOpen isOpen).holds]
    cases scope with
    | symbol id => rfl
    | method id => exact keeps.grows.owner id isOpen
    | block id =>
      have step : t.outerOf (.block id) = some (t.block id).outer := rfl
      have lower := (forest.outerOf_lower _ _ isOpen.holds step).2
      rw [rank] at lower
      simp only [keeps.grows.outer id isOpen]
      exact ih _ lower (forest.outerOf_isOpen isOpen step) rfl

/-- The classes around a class have shorter names. -/
theorem enclosingClasses {id : SymbolId} (isOpen : t.IsOpen (.symbol id)) :
    u.enclosingClasses id = t.enclosingClasses id := by
  induction length : (t.symbol id).name.length using Nat.strong_induction_on generalizing id with
  | h n ih =>
    have outer : (u.symbol id).outer = (t.symbol id).outer := keeps.outerOf isOpen
    rw [forest.enclosingClasses_eq isOpen.1,
      forest'.enclosingClasses_eq (keeps.grows.isOpen isOpen).1, outer]
    cases around : (t.symbol id).outer with
    | none => rfl
    | some scope =>
      have scopeOpen := forest.classes.outerOpen id scope around
      have step : t.outerClass? id = some (t.enclosingSymbol scope) := by
        rw [outerClass?, around, Option.map_some]
      have lower := (forest.outerClass_lower id _ isOpen.1 step).2
      rw [length] at lower
      simp only [keeps.enclosingSymbol forest forest' scopeOpen]
      rw [ih _ lower (forest.scopes.enclosingSymbol_isOpen scopeOpen) rfl]

end KeepsSurroundings

end SymbolTable

/-! ## What a name may denote -/

namespace SymbolTable

/-- The records form a forest, and the builtin types are among them. -/
structure Grounded (t : SymbolTable) : Prop where
  forest : t.Forest
  builtin : ∀ name ∈ Builtin.names, (t.lookup? name).isSome

namespace Grounded

variable {t u : SymbolTable} (grounded : t.Grounded)
include grounded

theorem grow (grows : t.Grows u) (forest : u.Forest) : u.Grounded := by
  refine ⟨forest, fun name isBuiltin => ?_⟩
  obtain ⟨id, found⟩ := Option.isSome_iff_exists.1 (grounded.builtin name isBuiltin)
  obtain ⟨known, named⟩ := lookup_eq_some found
  have still := (forest.classes.names.lookup_iff name id).2
    ⟨known.trans_le grows.symbols, (grows.name id known).trans named⟩
  rw [still]
  rfl

theorem fill (link : Link) (target : SymbolId) : (t.fill link target).Grounded :=
  grounded.grow (Quiet.fill t link target).grows (grounded.forest.quiet (.fill t link target))

theorem finishDefinition (id : SymbolId) : (t.finishDefinition id).Grounded :=
  grounded.grow (.finishDefinition t id) (grounded.forest.setState id nofun)

theorem knows_primitive {name : String} (primitive : Builtin.isPrimitive name) :
    (t.lookup? name).isSome :=
  grounded.builtin name (List.mem_append_left _ (List.contains_iff_mem.1 primitive))

/-- The root class is found, and stays the same class as the table grows. -/
theorem objectRef_eq (grows : t.Grows u) (forest : u.Forest) :
    u.objectRef = t.objectRef ∧ t.objectRef.resolved.isSome := by
  have isBuiltin : Builtin.object ∈ Builtin.names := by decide
  have isFound := grounded.builtin _ isBuiltin
  refine ⟨?_, isFound⟩
  obtain ⟨root, found⟩ := Option.isSome_iff_exists.1 isFound
  obtain ⟨known, named⟩ := lookup_eq_some found
  have still := (forest.classes.names.lookup_iff Builtin.object root).2
    ⟨known.trans_le grows.symbols, (grows.name root known).trans named⟩
  rw [objectRef, objectRef, found, still]

end Grounded

end SymbolTable

namespace Context

variable {a b : Context}

theorem Lifecycle.grounded (lifecycle : a.Lifecycle) : a.table.Grounded where
  forest := lifecycle.owned.forest
  builtin name isBuiltin := by
    have declares := (lifecycle.declares name).2 (List.mem_append_left _ isBuiltin)
    obtain ⟨id, known, named, -⟩ := declares
    rw [(lifecycle.owned.forest.classes.names.lookup_iff name id).2 ⟨known, named⟩]
    rfl

section

variable (keeps : a.table.KeepsSurroundings b.table) (grounded : a.table.Grounded)
  (grounded' : b.table.Grounded) {scope : ScopeRef} (isOpen : a.table.IsOpen scope)
include keeps grounded grounded' isOpen

/-- A name that refers to no class where it is written never does. -/
theorem namesNoClass_eq (name : String) :
    b.namesNoClass (some scope) name = a.namesNoClass (some scope) name := by
  unfold namesNoClass
  simp only [keeps.isTypeParam grounded.forest grounded'.forest isOpen]

/-- The names that a name may denote where it is written are the same at any time, by the same
imports. -/
theorem names_eq (f : FileScope) (name : String) :
    Resolution.names b.table f (some (b.table.enclosingSymbol scope)) name
      = Resolution.names a.table f (some (a.table.enclosingSymbol scope)) name := by
  have forest := grounded.forest
  have forest' := grounded'.forest
  have classOpen := forest.scopes.enclosingSymbol_isOpen isOpen
  have around := keeps.enclosingClasses forest forest' classOpen
  -- the classes around the scope carry the names that they have had
  have tried : (b.table.enclosingClasses (b.table.enclosingSymbol scope)).flatMap
        (Resolution.classCandidates b.table name)
      = (a.table.enclosingClasses (a.table.enclosingSymbol scope)).flatMap
        (Resolution.classCandidates a.table name) := by
    rw [keeps.enclosingSymbol forest forest' isOpen, around]
    refine List.flatMap_congr fun id isIn => ?_
    have known := (forest.enclosingClasses_isOpen classOpen id isIn).1
    have same := keeps.grows.name id known
    unfold Resolution.classCandidates Symbol.simpleName
    simp only [same]
  unfold Resolution.names
  by_cases primitive : Builtin.isPrimitive name = true
  · simp [primitive, grounded.knows_primitive primitive, grounded'.knows_primitive primitive]
  · simp only [primitive, Bool.false_and, Bool.false_eq_true, if_false, Resolution.candidates,
      Resolution.simpleCandidates, tried]

end

end Context

end LevelCheck
