import LevelCheck.Proofs.ForestGrowth
set_option autoImplicit false

/-! # What is written in the table

The records of methods and variables hold what their declarations say, and the classes that the types
they mention were found to denote. Linking a reference fills in a class and leaves the writing as it
is; so does everything that a walk does to classes but to declare fields in them. -/

namespace LevelCheck

/-- The type as it is written. -/
def TypeRef.written (type : TypeRef) : TypeRef := .unresolved type.name

/-- The variable as it is written. -/
def Variable.written (v : Variable) : Variable := { v with type := v.type.written }

/-- The method as it is written, with what it lists. -/
def Method.written (m : Method) : Method :=
  { m with returnType := m.returnType.map (·.written), thrown := m.thrown.map (·.written) }

namespace SymbolTable

/-- The tables say the same about methods, blocks and variables, and list the same fields. -/
structure SameWriting (t u : SymbolTable) : Prop where
  methods : u.methods.map Method.written = t.methods.map Method.written
  vars : u.vars.map Variable.written = t.vars.map Variable.written
  blocks : u.blocks = t.blocks
  fields : ∀ id, (u.symbol id).fields = (t.symbol id).fields

namespace SameWriting

variable {t u v : SymbolTable}

theorem refl (t : SymbolTable) : t.SameWriting t := ⟨rfl, rfl, rfl, fun _ => rfl⟩

theorem trans (first : t.SameWriting u) (second : u.SameWriting v) : t.SameWriting v where
  methods := second.methods.trans first.methods
  vars := second.vars.trans first.vars
  blocks := second.blocks.trans first.blocks
  fields id := (second.fields id).trans (first.fields id)

section

variable (same : t.SameWriting u)
include same

theorem method (id : MethodId) : (u.method id).written = (t.method id).written := by
  have read (t : SymbolTable) := getD_map t.methods Method.written id.val default
  have written := read u
  rw [same.methods, read t] at written
  exact written.symm

theorem var (id : VariableId) : (u.var id).written = (t.var id).written := by
  have read (t : SymbolTable) := getD_map t.vars Variable.written id.val default
  have written := read u
  rw [same.vars, read t] at written
  exact written.symm

theorem varName (id : VariableId) : (u.var id).name = (t.var id).name := by
  have name := congrArg Variable.name (same.var id)
  exact name

theorem methods_size : u.methods.size = t.methods.size := by
  simpa using congrArg Array.size same.methods

theorem varsOf (scope : ScopeRef) : u.varsOf scope = t.varsOf scope := by
  cases scope with
  | symbol id => exact same.fields id
  | method id =>
    have vars := congrArg Method.vars (same.method id)
    exact vars
  | block id => rw [SymbolTable.varsOf, SymbolTable.varsOf, block, block, same.blocks]

end

/-! ## Changes that leave the writing alone -/

theorem modifySymbol (t : SymbolTable) (id : SymbolId) {f : Symbol → Symbol}
    (fields : ∀ s, (f s).fields = s.fields) : t.SameWriting (t.modifySymbol id f) :=
  ⟨rfl, rfl, rfl, fun s => view_modifySymbol t id s Symbol.fields fields⟩

theorem modifyMethod (t : SymbolTable) (id : MethodId) {f : Method → Method}
    (written : ∀ m, (f m).written = m.written) : t.SameWriting (t.modifyMethod id f) :=
  ⟨map_modify _ _ _ Method.written written, rfl, rfl, fun _ => rfl⟩

theorem modifyVariable (t : SymbolTable) (id : VariableId) {f : Variable → Variable}
    (written : ∀ v, (f v).written = v.written) : t.SameWriting (t.modifyVariable id f) :=
  ⟨rfl, map_modify _ _ _ Variable.written written, rfl, fun _ => rfl⟩

theorem addSymbol (t : SymbolTable) (name : String) :
    t.SameWriting (t.addSymbol (.placeholder name)).2 :=
  ⟨rfl, rfl, rfl, fun id => view_addSymbol t id Symbol.fields rfl⟩

/-- Filling the place of a reference leaves the writing alone. -/
theorem fill (t : SymbolTable) (link : Link) (target : SymbolId) :
    t.SameWriting (t.fill link target) := by
  cases link with
  | superclass child | interface child index => exact modifySymbol t child fun _ => rfl
  | variableType declared => exact modifyVariable t declared fun _ => rfl
  | returnType method =>
    refine modifyMethod t method fun m => ?_
    rw [Method.written, Method.written, resolveOptional, Option.map_map]
    rfl
  | thrownType method index =>
    refine modifyMethod t method fun m => ?_
    have thrown : (resolveAt m.thrown index target).map (·.written) = m.thrown.map (·.written) := by
      refine List.ext_getElem (by simp [resolveAt]) fun i _ _ => ?_
      simp only [resolveAt, List.getElem_map, List.getElem_modify]
      split <;> rfl
    rw [Method.written, Method.written, thrown]
  | existence => exact refl t
  | anonymousBase child =>
    rw [SymbolTable.fill]
    split <;> exact modifySymbol t child fun _ => rfl

theorem getOrAddPlaceholder (t : SymbolTable) (name : String) :
    t.SameWriting (t.getOrAddPlaceholder name).2 := by
  cases found : t.lookup? name with
  | some id =>
    rw [getOrAddPlaceholder_of_some found]
    exact refl t
  | none =>
    rw [getOrAddPlaceholder_of_none found]
    exact addSymbol t name

theorem finishDefinition (t : SymbolTable) (id : SymbolId) : t.SameWriting (t.finishDefinition id) :=
  modifySymbol t id fun _ => rfl

theorem numberLocalClass (t : SymbolTable) (id : SymbolId) :
    t.SameWriting (t.numberLocalClass id).2 := modifySymbol t id fun _ => rfl

theorem beginDefinition {name : String} {id : SymbolId} (begun : t.beginDefinition name = .ok (id, u)) :
    t.SameWriting u := by
  obtain ⟨t', placed, -, rfl⟩ := beginDefinition_ok begun
  have referred := getOrAddPlaceholder t name
  rw [placed] at referred
  exact referred.trans (modifySymbol t' id fun _ => rfl)

theorem enterClass (t : SymbolTable) (id : SymbolId) (outer : Option ScopeRef)
    {head : Symbol → Symbol} (isHead : Symbol.IsHead head) :
    t.SameWriting (t.enterClass id outer head) where
  methods := by cases outer <;> rfl
  vars := by cases outer <;> rfl
  blocks := by cases outer <;> rfl
  fields s := view_enterClass t id outer isHead s Symbol.fields fun _ _ _ _ _ _ => rfl

end SameWriting

end SymbolTable

end LevelCheck
