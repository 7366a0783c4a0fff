import LevelCheck.Proofs.UnaffectedSupertypes
set_option autoImplicit false

/-! # Slots for types

Wherever a declaration writes a type, the table has a slot that holds the type as it is written and the
class that it was found to name. A place that a reference fills stands for a slot by the id of a record
and an index in a list of it, so it stands for the same slot only as long as records and lists keep
theirs. A walk adds slots and changes none, and filling a place changes what its slot is linked to and
nothing else in the table. The exception is the base of an anonymous class, which is not written in any
slot: it becomes the superclass of its class, or an interface besides the root class. -/

namespace LevelCheck

/-- A type that is written in the table, and the scope that it is written in. -/
structure Slot where
  type : TypeRef
  scope : ScopeRef
  deriving DecidableEq, Repr

/-- The class that the type names has been found. -/
def Slot.resolve (target : SymbolId) (s : Slot) : Slot :=
  { s with type := { s.type with resolved := some target } }

/-- The type of a variable, as a slot. -/
def Variable.slot (v : Variable) : Slot := { type := v.type, scope := v.enclosing }

/-- The types that a class extends. -/
def Symbol.parents (s : Symbol) : Option TypeRef × List TypeRef := (s.superclass, s.interfaces)

/-- The types that a method returns and throws. -/
def Method.types (m : Method) : Option TypeRef × List TypeRef := (m.returnType, m.thrown)

/-- The class as it is written, whatever the types it extends were found to name. -/
def Symbol.written (s : Symbol) : Symbol :=
  { s with superclass := s.superclass.map (·.written), interfaces := s.interfaces.map (·.written) }

/-- The place stands for a slot of its own, if for any. -/
def Link.IsDirect : Link → Prop
  | .anonymousBase _ => False
  | _ => True

namespace SymbolTable

variable {t u v : SymbolTable}

/-- The slot that a place stands for. -/
def slot? (t : SymbolTable) : Link → Option Slot
  | .superclass id => (t.symbol id).superclass.map (Slot.mk · (.symbol id))
  | .interface id index => (t.symbol id).interfaces[index]?.map (Slot.mk · (.symbol id))
  | .variableType id => t.vars[id.val]?.map Variable.slot
  | .returnType id => (t.method id).returnType.map (Slot.mk · (.method id))
  | .thrownType id index => (t.method id).thrown[index]?.map (Slot.mk · (.method id))
  | .existence | .anonymousBase _ => none

/-- The table as it is written: nothing in it is linked to a class. -/
def written (t : SymbolTable) : SymbolTable :=
  { symbols := t.symbols.map Symbol.written, methods := t.methods.map Method.written
    vars := t.vars.map Variable.written, blocks := t.blocks }

/-! ## Tables with the same slots -/

/-- The tables have the same slots, linked to the same classes. -/
structure SameSlots (t u : SymbolTable) : Prop where
  parents : ∀ id, (u.symbol id).parents = (t.symbol id).parents
  types : ∀ id, (u.method id).types = (t.method id).types
  vars : u.vars.map Variable.slot = t.vars.map Variable.slot

namespace SameSlots

theorem refl (t : SymbolTable) : t.SameSlots t := ⟨fun _ => rfl, fun _ => rfl, rfl⟩

theorem trans (first : t.SameSlots u) (second : u.SameSlots v) : t.SameSlots v where
  parents id := (second.parents id).trans (first.parents id)
  types id := (second.types id).trans (first.types id)
  vars := second.vars.trans first.vars

theorem slot? (same : t.SameSlots u) (link : Link) : u.slot? link = t.slot? link := by
  have superclass (id : SymbolId) := congrArg Prod.fst (same.parents id)
  have interfaces (id : SymbolId) := congrArg Prod.snd (same.parents id)
  have returnType (id : MethodId) := congrArg Prod.fst (same.types id)
  have thrown (id : MethodId) := congrArg Prod.snd (same.types id)
  simp only [Symbol.parents, Method.types] at superclass interfaces returnType thrown
  cases link with
  | superclass id => simp only [SymbolTable.slot?, superclass]
  | interface id index => simp only [SymbolTable.slot?, interfaces]
  | variableType id =>
    have vars := congrArg (·[id.val]?) same.vars
    simpa only [SymbolTable.slot?, Array.getElem?_map] using vars
  | returnType id => simp only [SymbolTable.slot?, returnType]
  | thrownType id index => simp only [SymbolTable.slot?, thrown]
  | existence | anonymousBase => rfl

theorem modifySymbol (t : SymbolTable) (id : SymbolId) {f : Symbol → Symbol}
    (keeps : ∀ s, (f s).parents = s.parents) : t.SameSlots (t.modifySymbol id f) :=
  ⟨fun other => view_modifySymbol t id other Symbol.parents keeps, fun _ => rfl, rfl⟩

theorem modifyMethod (t : SymbolTable) (id : MethodId) {f : Method → Method}
    (keeps : ∀ m, (f m).types = m.types) : t.SameSlots (t.modifyMethod id f) :=
  ⟨fun _ => rfl, fun other => view_modifyMethod t id other Method.types keeps, rfl⟩

theorem modifyBlock (t : SymbolTable) (id : BlockId) (f : Block → Block) :
    t.SameSlots (t.modifyBlock id f) := ⟨fun _ => rfl, fun _ => rfl, rfl⟩

theorem getOrAddPlaceholder (t : SymbolTable) (name : String) :
    t.SameSlots (t.getOrAddPlaceholder name).2 := by
  cases found : t.lookup? name with
  | some id =>
    rw [getOrAddPlaceholder_of_some found]
    exact refl t
  | none =>
    rw [getOrAddPlaceholder_of_none found]
    exact ⟨fun id => view_addSymbol t id Symbol.parents rfl, fun _ => rfl, rfl⟩

theorem finishDefinition (t : SymbolTable) (id : SymbolId) : t.SameSlots (t.finishDefinition id) :=
  modifySymbol t id fun _ => rfl

theorem numberLocalClass (t : SymbolTable) (id : SymbolId) :
    t.SameSlots (t.numberLocalClass id).2 := modifySymbol t id fun _ => rfl

theorem addBlock (t : SymbolTable) (outer : ScopeRef) : t.SameSlots (t.addBlock outer).2 := by
  let opened : SymbolTable := { t with blocks := t.blocks.push { outer, vars := [], blocks := [] } }
  cases outer with
  | symbol id =>
    have listed := modifySymbol opened id (f := fun s =>
      { s with initializers := s.initializers ++ [⟨t.blocks.size⟩] }) fun _ => rfl
    exact ⟨listed.parents, listed.types, listed.vars⟩
  | method id =>
    have listed := modifyMethod opened id (f := fun m =>
      { m with blocks := m.blocks ++ [⟨t.blocks.size⟩] }) fun _ => rfl
    exact ⟨listed.parents, listed.types, listed.vars⟩
  | block id => exact ⟨fun _ => rfl, fun _ => rfl, rfl⟩

theorem beginDefinition {name : String} {id : SymbolId} (begun : t.beginDefinition name = .ok (id, u)) :
    t.SameSlots u := by
  obtain ⟨t', placed, -, rfl⟩ := beginDefinition_ok begun
  have referred := getOrAddPlaceholder t name
  rw [placed] at referred
  exact referred.trans (modifySymbol t' id fun _ => rfl)

theorem enterClass (t : SymbolTable) (id : SymbolId) (outer : Option ScopeRef)
    {head : Symbol → Symbol} (isHead : Symbol.IsHead head) :
    t.SameSlots (t.enterClass id outer head) where
  parents s := view_enterClass t id outer isHead s Symbol.parents fun _ _ _ _ _ _ => rfl
  types _ := by cases outer <;> rfl
  vars := by cases outer <;> rfl

end SameSlots

/-! ## Filling a place -/

theorem view_modifySymbol_self {β : Type} (t : SymbolTable) (id : SymbolId) {f : Symbol → Symbol}
    (view : Symbol → β) (g : β → β) (acts : ∀ s, view (f s) = g (view s))
    (fixed : g (view default) = view default) :
    view ((t.modifySymbol id f).symbol id) = g (view (t.symbol id)) := by
  rw [symbol_modifySymbol]
  by_cases known : id.val < t.size
  · rw [if_pos ⟨rfl, known⟩, acts]
  · rw [if_neg fun is => known is.2, symbol, Array.getD_eq_getD_getElem?,
      Array.getElem?_eq_none (Nat.not_lt.1 known)]
    exact fixed.symm

theorem view_modifyMethod_self {β : Type} (t : SymbolTable) (id : MethodId) {f : Method → Method}
    (view : Method → β) (g : β → β) (acts : ∀ m, view (f m) = g (view m))
    (fixed : g (view default) = view default) :
    view ((t.modifyMethod id f).method id) = g (view (t.method id)) := by
  rw [method_modifyMethod]
  by_cases known : id.val < t.methods.size
  · rw [if_pos ⟨rfl, known⟩, acts]
  · rw [if_neg fun is => known is.2, method, Array.getD_eq_getD_getElem?,
      Array.getElem?_eq_none (Nat.not_lt.1 known)]
    exact fixed.symm

theorem symbol_modifySymbol_other (t : SymbolTable) {id other : SymbolId} (differs : other ≠ id)
    (f : Symbol → Symbol) : (t.modifySymbol id f).symbol other = t.symbol other := by
  rw [symbol_modifySymbol, if_neg fun is => differs is.1]

theorem method_modifyMethod_other (t : SymbolTable) {id other : MethodId} (differs : other ≠ id)
    (f : Method → Method) : (t.modifyMethod id f).method other = t.method other := by
  rw [method_modifyMethod, if_neg fun is => differs is.1]

theorem getElem?_resolveAt (types : List TypeRef) (index i : Nat) (target : SymbolId) :
    (resolveAt types index target)[i]?
      = if i = index then types[i]?.map fun type => { type with resolved := some target }
        else types[i]? := by
  rw [resolveAt, List.getElem?_modify]
  by_cases here : index = i
  · subst here
    simp
  · simp [here, Ne.symm here]

/-- The slot after its place has been filled, among the others. -/
def Filled (t : SymbolTable) (link : Link) (target : SymbolId) : Prop :=
  ∀ other, (t.fill link target).slot? other
    = if other = link then (t.slot? other).map (Slot.resolve target) else t.slot? other

theorem fill_superclass_filled (t : SymbolTable) (child target : SymbolId) :
    t.Filled (.superclass child) target := by
  intro other
  have self := view_modifySymbol_self t child Symbol.superclass (resolveOptional · target)
    (f := fun s => { s with superclass := resolveOptional s.superclass target }) (fun _ => rfl) rfl
  cases other with
  | superclass id =>
    by_cases is : id = child
    · subst is
      simp only [slot?, fill, self, if_true]
      simp only [resolveOptional, Option.map_map]
      rfl
    · simp [slot?, fill, t.symbol_modifySymbol_other is, is]
  | interface id index =>
    have same := view_modifySymbol t child id Symbol.interfaces
      (f := fun s => { s with superclass := resolveOptional s.superclass target }) fun _ => rfl
    simp [slot?, fill, same]
  | _ => rfl

theorem fill_interface_filled (t : SymbolTable) (child : SymbolId) (index : Nat) (target : SymbolId) :
    t.Filled (.interface child index) target := by
  intro other
  have self := view_modifySymbol_self t child Symbol.interfaces (resolveAt · index target)
    (f := fun s => { s with interfaces := resolveAt s.interfaces index target }) (fun _ => rfl)
    (by cases index <;> rfl)
  cases other with
  | superclass id =>
    have same := view_modifySymbol t child id Symbol.superclass
      (f := fun s => { s with interfaces := resolveAt s.interfaces index target }) fun _ => rfl
    simp [slot?, fill, same]
  | interface id i =>
    by_cases is : id = child
    · subst is
      simp only [slot?, fill, self, getElem?_resolveAt, Link.interface.injEq, true_and]
      split
      · simp only [Option.map_map]
        rfl
      · rfl
    · simp [slot?, fill, t.symbol_modifySymbol_other is, is]
  | _ => rfl

theorem fill_variableType_filled (t : SymbolTable) (declared : VariableId) (target : SymbolId) :
    t.Filled (.variableType declared) target := by
  intro other
  cases other with
  | variableType id =>
    simp only [slot?, fill, modifyVariable, Array.getElem?_modify, Link.variableType.injEq,
      VariableId.ext_iff, eq_comm (a := declared.val)]
    split
    · simp only [Option.map_map]
      rfl
    · rfl
  | _ => rfl

theorem fill_returnType_filled (t : SymbolTable) (method : MethodId) (target : SymbolId) :
    t.Filled (.returnType method) target := by
  intro other
  have self := view_modifyMethod_self t method Method.returnType (resolveOptional · target)
    (f := fun m => { m with returnType := resolveOptional m.returnType target }) (fun _ => rfl) rfl
  cases other with
  | returnType id =>
    by_cases is : id = method
    · subst is
      simp only [slot?, fill, self, if_true]
      simp only [resolveOptional, Option.map_map]
      rfl
    · simp [slot?, fill, t.method_modifyMethod_other is, is]
  | thrownType id index =>
    have same := view_modifyMethod t method id Method.thrown
      (f := fun m => { m with returnType := resolveOptional m.returnType target }) fun _ => rfl
    simp [slot?, fill, same]
  | _ => rfl

theorem fill_thrownType_filled (t : SymbolTable) (method : MethodId) (index : Nat)
    (target : SymbolId) : t.Filled (.thrownType method index) target := by
  intro other
  have self := view_modifyMethod_self t method Method.thrown (resolveAt · index target)
    (f := fun m => { m with thrown := resolveAt m.thrown index target }) (fun _ => rfl)
    (by cases index <;> rfl)
  cases other with
  | returnType id =>
    have same := view_modifyMethod t method id Method.returnType
      (f := fun m => { m with thrown := resolveAt m.thrown index target }) fun _ => rfl
    simp [slot?, fill, same]
  | thrownType id i =>
    by_cases is : id = method
    · subst is
      simp only [slot?, fill, self, getElem?_resolveAt, Link.thrownType.injEq, true_and]
      split
      · simp only [Option.map_map]
        rfl
      · rfl
    · simp [slot?, fill, t.method_modifyMethod_other is, is]
  | _ => rfl

/-- Filling a place resolves the slot that it stands for, and no other. -/
theorem fill_filled (t : SymbolTable) {link : Link} (direct : link.IsDirect) (target : SymbolId) :
    t.Filled link target := by
  cases link with
  | superclass child => exact t.fill_superclass_filled child target
  | interface child index => exact t.fill_interface_filled child index target
  | variableType declared => exact t.fill_variableType_filled declared target
  | returnType method => exact t.fill_returnType_filled method target
  | thrownType method index => exact t.fill_thrownType_filled method index target
  | existence =>
    intro other
    split
    · next is =>
      subst is
      rfl
    · rfl
  | anonymousBase child => exact direct.elim

/-- Nothing but what a slot is linked to changes when its place is filled. -/
theorem written_fill (t : SymbolTable) {link : Link} (direct : link.IsDirect) (target : SymbolId) :
    (t.fill link target).written = t.written := by
  have optional (type : Option TypeRef) :
      (resolveOptional type target).map (·.written) = type.map (·.written) := by
    cases type <;> rfl
  have listed (types : List TypeRef) (index : Nat) :
      (resolveAt types index target).map (·.written) = types.map (·.written) := by
    refine List.ext_getElem? fun i => ?_
    rw [List.getElem?_map, List.getElem?_map, getElem?_resolveAt]
    split
    · rw [Option.map_map]
      rfl
    · rfl
  have symbol (id : SymbolId) {f : Symbol → Symbol} (keeps : ∀ s, (f s).written = s.written) :
      (t.modifySymbol id f).written = t.written := by
    rw [written, written, modifySymbol, map_modify _ _ _ _ keeps]
  have method (id : MethodId) {f : Method → Method} (keeps : ∀ m, (f m).written = m.written) :
      (t.modifyMethod id f).written = t.written := by
    rw [written, written, modifyMethod, map_modify _ _ _ _ keeps]
  have var (id : VariableId) {f : Variable → Variable} (keeps : ∀ v, (f v).written = v.written) :
      (t.modifyVariable id f).written = t.written := by
    rw [written, written, modifyVariable, map_modify _ _ _ _ keeps]
  cases link with
  | superclass child => exact symbol child fun s => by simp only [Symbol.written, optional]
  | interface child index => exact symbol child fun s => by simp only [Symbol.written, listed]
  | variableType declared => exact var declared fun _ => rfl
  | returnType id => exact method id fun m => by simp only [Method.written, optional]
  | thrownType id index => exact method id fun m => by simp only [Method.written, listed]
  | existence => rfl
  | anonymousBase child => exact direct.elim

/-- The superclass and the interfaces of an anonymous class with a base. -/
def parentsOf (t : SymbolTable) (base : SymbolId) : Option TypeRef × List TypeRef :=
  let type : TypeRef := { name := (t.symbol base).name, resolved := some base }
  if (t.symbol base).isInterface then (some t.objectRef, [type]) else (some type, [])

/-- A class that extends nothing yet gets its base, and nothing else in the table changes. -/
theorem fill_anonymousBase (t : SymbolTable) {child : SymbolId}
    (bare : (t.symbol child).parents = (none, [])) (target : SymbolId) :
    t.fill (.anonymousBase child) target = t.modifySymbol child fun s =>
      { s with superclass := (t.parentsOf target).1, interfaces := (t.parentsOf target).2 } := by
  obtain ⟨superclass, interfaces⟩ := Prod.mk.inj bare
  have congr {f g : Symbol → Symbol} (agree : f (t.symbol child) = g (t.symbol child)) :
      t.modifySymbol child f = t.modifySymbol child g := by
    have same : t.symbols.modify child.val f = t.symbols.modify child.val g := by
      refine Array.ext (by simp) fun i inF inG => ?_
      have known : i < t.symbols.size := by simpa using inF
      simp only [Array.getElem_modify]
      split
      · next is =>
        subst is
        have record : t.symbol child = t.symbols[child.val] := by simp [SymbolTable.symbol, known]
        rwa [record] at agree
      · rfl
    rw [modifySymbol, modifySymbol, same]
  rw [fill, parentsOf]
  split
  · refine congr ?_
    simp only [interfaces, List.nil_append]
  · refine congr ?_
    simp only [interfaces]

/-- The base of an anonymous class fills no slot but those of the class itself. -/
theorem fill_anonymousBase_others (t : SymbolTable) {child : SymbolId}
    (bare : (t.symbol child).parents = (none, [])) (target : SymbolId) :
    (∀ id, id ≠ child →
        ((t.fill (.anonymousBase child) target).symbol id).parents = (t.symbol id).parents)
      ∧ (∀ id, ((t.fill (.anonymousBase child) target).method id).types = (t.method id).types)
      ∧ (t.fill (.anonymousBase child) target).vars.map Variable.slot = t.vars.map Variable.slot := by
  rw [t.fill_anonymousBase bare]
  refine ⟨fun id differs => ?_, fun _ => rfl, rfl⟩
  rw [t.symbol_modifySymbol_other differs]

end SymbolTable

/-! ## Writing types -/

/-- A type as a declaration writes it: the place that it is to fill, the scope in which it stands, and
its position. -/
structure Mention where
  link : Link
  scope : ScopeRef
  written : String
  pos : Position
  deriving DecidableEq, Repr

namespace Mention

/-- The slot that the type is written in. -/
def slot (m : Mention) : Slot := { type := .unresolved m.written, scope := m.scope }

/-- The types that a method may throw, counted from an index. -/
def thrown (id : MethodId) (pos : Position) (index : Nat) (throws : List String) : List Mention :=
  (throws.zipIdx index).map fun e =>
    { link := .thrownType id e.2, scope := .method id, written := e.1, pos }

/-- The types of a method's signature. -/
def signature (id : MethodId) (pos : Position) (decl : Walk.MethodDecl) : List Mention :=
  (decl.returnType.map fun written =>
      { link := .returnType id, scope := .method id, written, pos }).toList
    ++ thrown id pos 0 decl.throws

/-- The types of variables that are declared in a scope. -/
def declared (scope : ScopeRef) (declarators : List Walk.Declarator) (ids : List VariableId) :
    List Mention :=
  (declarators.zip ids).map fun e =>
    { link := .variableType e.2, scope, written := e.1.type, pos := e.1.pos }

theorem mem_signature {id : MethodId} {pos : Position} {decl : Walk.MethodDecl} {m : Mention} :
    m ∈ signature id pos decl ↔ m.scope = .method id ∧ m.pos = pos
      ∧ (m.link = .returnType id ∧ decl.returnType = some m.written
        ∨ ∃ i, m.link = .thrownType id i ∧ decl.throws[i]? = some m.written) := by
  obtain ⟨link, scope, written, at'⟩ := m
  simp only [signature, thrown, List.mem_append, Option.mem_toList, Option.map_eq_some_iff,
    List.mem_map, Prod.exists, List.mem_zipIdx_iff_getElem?, Mention.mk.injEq]
  constructor
  · rintro (⟨type, is, rfl, rfl, rfl, rfl⟩ | ⟨type, i, is, rfl, rfl, rfl, rfl⟩)
    · exact ⟨rfl, rfl, .inl ⟨rfl, is⟩⟩
    · exact ⟨rfl, rfl, .inr ⟨i, rfl, is⟩⟩
  · rintro ⟨rfl, rfl, ⟨rfl, is⟩ | ⟨i, rfl, is⟩⟩
    · exact .inl ⟨written, is, rfl, rfl, rfl, rfl⟩
    · exact .inr ⟨written, i, is, rfl, rfl, rfl, rfl⟩

theorem signature_nodup (id : MethodId) (pos : Position) (decl : Walk.MethodDecl) :
    ((signature id pos decl).map (·.link)).Nodup := by
  have thrown : (thrown id pos 0 decl.throws).map (·.link)
      = (decl.throws.zipIdx.map Prod.snd).map (Link.thrownType id) := by
    rw [Mention.thrown, List.map_map, List.map_map]
    rfl
  have each : ((decl.throws.zipIdx.map Prod.snd).map (Link.thrownType id)).Nodup := by
    rw [List.zipIdx_map_snd]
    exact List.Nodup.map (fun _ _ same => (Link.thrownType.inj same).2) List.nodup_range'
  rw [signature, List.map_append, thrown]
  cases decl.returnType with
  | none => exact each
  | some type => exact List.nodup_cons.2 ⟨by simp, each⟩

section

variable {t : SymbolTable} {scope : ScopeRef} {declarators : List Walk.Declarator}

theorem declared_links : (declared scope declarators (t.nextVariables declarators.length)).map (·.link)
    = (t.nextVariables declarators.length).map Link.variableType := by
  have zipped : (declarators.zip (t.nextVariables declarators.length)).map Prod.snd
      = t.nextVariables declarators.length := by
    refine List.map_snd_zip ?_
    simp [SymbolTable.nextVariables]
  rw [declared, List.map_map]
  conv_rhs => rw [← zipped, List.map_map]
  rfl

/-- The id of a new variable is its place among all variables. -/
theorem mem_declared {m : Mention}
    (isIn : m ∈ declared scope declarators (t.nextVariables declarators.length)) :
    ∃ (i : Nat) (d : Walk.Declarator), declarators[i]? = some d
      ∧ m = { link := .variableType ⟨t.vars.size + i⟩, scope, written := d.type, pos := d.pos } := by
  obtain ⟨⟨d, id⟩, isPair, rfl⟩ := List.mem_map.1 isIn
  obtain ⟨i, inRange, is⟩ := List.getElem_of_mem isPair
  rw [List.getElem_zip, Prod.mk.injEq] at is
  refine ⟨i, d, ?_, ?_⟩
  · rw [← is.1]
    exact List.getElem?_eq_getElem _
  · rw [← is.2]
    simp [SymbolTable.nextVariables]

end

end Mention

namespace SymbolTable

/-- A superclass is entered in its own slot only. -/
theorem slot?_enterSuperclass (t : SymbolTable) (id : SymbolId) (superclass : Option TypeRef)
    {link : Link} (other : link ≠ .superclass id) :
    (t.modifySymbol id fun s => { s with superclass }).slot? link = t.slot? link := by
  cases link with
  | superclass s =>
    have differs : s ≠ id := fun is => other (congrArg Link.superclass is)
    simp only [slot?, t.symbol_modifySymbol_other differs]
  | interface s i =>
    have same := view_modifySymbol t id s Symbol.interfaces (f := fun s => { s with superclass })
      fun _ => rfl
    simp only [slot?, same]
  | _ => rfl

/-- A superclass that is entered is in its slot. -/
theorem slot?_enteredSuperclass (t : SymbolTable) {id : SymbolId} (known : id.val < t.size)
    (type : TypeRef) : (t.modifySymbol id fun s => { s with superclass := some type }).slot?
      (.superclass id) = some { type, scope := .symbol id } := by
  rw [slot?, view_modifySymbol_known t known _ Symbol.superclass id, if_pos rfl]
  rfl

/-- The second table has one more slot for each of the types, and is the same about the others. -/
structure Writes (t : SymbolTable) (news : List Mention) (u : SymbolTable) : Prop where
  once : (news.map (·.link)).Nodup
  fresh : ∀ m ∈ news, t.slot? m.link = none
  slots : ∀ m ∈ news, u.slot? m.link = some m.slot
  others : ∀ link, link ∉ news.map (·.link) → u.slot? link = t.slot? link

namespace Writes

variable {t u v : SymbolTable} {news : List Mention}

theorem of_same (same : t.SameSlots u) : t.Writes [] u where
  once := List.nodup_nil
  fresh _ isIn := absurd isIn List.not_mem_nil
  slots _ isIn := absurd isIn List.not_mem_nil
  others link _ := same.slot? link

theorem trans_same (writes : t.Writes news u) (same : u.SameSlots v) : t.Writes news v where
  once := writes.once
  fresh := writes.fresh
  slots m isIn := (same.slot? m.link).trans (writes.slots m isIn)
  others link other := (same.slot? link).trans (writes.others link other)

/-- Variables are appended, each with a slot for its type. -/
theorem appendVars (t : SymbolTable) {vars : List Variable} {scope : ScopeRef}
    {declarators : List Walk.Declarator}
    (areWritten : vars.map Variable.slot
      = declarators.map fun d => { type := .unresolved d.type, scope }) :
    t.Writes (Mention.declared scope declarators (t.nextVariables vars.length))
      (t.appendVars vars) := by
  have lengths : vars.length = declarators.length := by
    simpa using congrArg List.length areWritten
  rw [lengths]
  refine ⟨?_, fun m isIn => ?_, fun m isIn => ?_, fun link other => ?_⟩
  · rw [Mention.declared_links]
    exact (t.nodup_nextVariables _).map fun _ _ same => Link.variableType.inj same
  · obtain ⟨i, d, -, rfl⟩ := Mention.mem_declared isIn
    simp [slot?]
  · obtain ⟨i, d, given, rfl⟩ := Mention.mem_declared isIn
    have written := congrArg (·[i]?) areWritten
    simp only [List.getElem?_map, given, Option.map_some] at written
    simp only [slot?, SymbolTable.appendVars, Array.getElem?_append]
    simpa [Mention.slot] using written
  · rw [Mention.declared_links] at other
    cases link with
    | variableType id =>
      have old : id ∉ t.nextVariables declarators.length := fun isIn => other (List.mem_map_of_mem isIn)
      simp only [slot?, SymbolTable.appendVars, Array.getElem?_append]
      split
      · rfl
      · next beyond =>
        rw [mem_nextVariables] at old
        simp only [List.getElem?_toArray]
        rw [List.getElem?_eq_none (by omega), Array.getElem?_eq_none (by omega)]
    | _ => rfl

end Writes

theorem method_addMethod (t : SymbolTable) (record : Method) (m : MethodId) :
    (t.addMethod record).2.method m = if m = (t.addMethod record).1 then record else t.method m := by
  have pushed := getD_push t.methods record m.val default
  by_cases is : m = (t.addMethod record).1
  · rw [if_pos is]
    exact pushed.trans (if_pos (congrArg MethodId.val is))
  · rw [if_neg is]
    exact pushed.trans (if_neg fun same => is (MethodId.ext same))

namespace Writes

variable {t u v : SymbolTable} {news : List Mention}

/-- A method is added, with slots for the types of its signature. -/
theorem addMethod (t : SymbolTable) (owner : SymbolId) (pos : Position) (decl : Walk.MethodDecl) :
    t.Writes (Mention.signature (t.addMethod (decl.record owner)).1 pos decl)
      (t.addMethod (decl.record owner)).2 := by
  set id := (t.addMethod (decl.record owner)).1 with isId
  set u := (t.addMethod (decl.record owner)).2
  have parents (s : SymbolId) : (u.symbol s).parents = (t.symbol s).parents :=
    view_modifySymbol { t with methods := t.methods.push (decl.record owner) } owner s Symbol.parents
      fun _ => rfl
  have record (m : MethodId) : u.method m = if m = id then decl.record owner else t.method m :=
    t.method_addMethod (decl.record owner) m
  have noTypes : (t.method id).returnType = none ∧ (t.method id).thrown = [] := by
    have absent : t.method id = default := by
      simp [method, isId, SymbolTable.addMethod]
    rw [absent]
    exact ⟨rfl, rfl⟩
  refine ⟨Mention.signature_nodup id pos decl, fun m isIn => ?_, fun m isIn => ?_, fun link other => ?_⟩
  · obtain ⟨-, -, ⟨is, -⟩ | ⟨i, is, -⟩⟩ := Mention.mem_signature.1 isIn
    · simp [is, slot?, noTypes.1]
    · simp [is, slot?, noTypes.2]
  · obtain ⟨inMethod, -, ⟨is, written⟩ | ⟨i, is, written⟩⟩ := Mention.mem_signature.1 isIn
    all_goals
      simp [is, slot?, record, Walk.MethodDecl.record, Method.declared, written, Mention.slot, inMethod]
  · -- a place of the method itself has no slot unless the signature mentions it
    have unwritten (written : String) :
        ({ link, scope := .method id, written, pos } : Mention) ∉ Mention.signature id pos decl :=
      fun isIn => other (List.mem_map.2 ⟨_, isIn, rfl⟩)
    cases link with
    | superclass s =>
      have superclass : (u.symbol s).superclass = (t.symbol s).superclass :=
        congrArg Prod.fst (parents s)
      simp only [slot?, superclass]
    | interface s i =>
      have interfaces : (u.symbol s).interfaces = (t.symbol s).interfaces :=
        congrArg Prod.snd (parents s)
      simp only [slot?, interfaces]
    | returnType m =>
      by_cases is : m = id
      · subst is
        cases written : decl.returnType with
        | none => simp [slot?, record, noTypes.1, Walk.MethodDecl.record, Method.declared, written]
        | some type =>
          exact absurd (Mention.mem_signature.2 ⟨rfl, rfl, .inl ⟨rfl, written⟩⟩) (unwritten type)
      · simp only [slot?, record, if_neg is]
    | thrownType m i =>
      by_cases is : m = id
      · subst is
        cases written : decl.throws[i]? with
        | none => simp [slot?, record, noTypes.2, Walk.MethodDecl.record, Method.declared, written]
        | some type =>
          exact absurd (Mention.mem_signature.2 ⟨rfl, rfl, .inr ⟨i, rfl, written⟩⟩) (unwritten type)
      · simp only [slot?, record, if_neg is]
    | variableType | existence | anonymousBase => rfl

theorem addFields (t : SymbolTable) (id : SymbolId) {vars : List Variable} {scope : ScopeRef}
    {declarators : List Walk.Declarator}
    (areWritten : vars.map Variable.slot
      = declarators.map fun d => { type := .unresolved d.type, scope }) :
    t.Writes (Mention.declared scope declarators (t.addFields id vars).1.ids)
      (t.addFields id vars).2 := by
  rw [addFields_ids, addFields_table]
  exact (Writes.appendVars t areWritten).trans_same (.modifySymbol _ id fun _ => rfl)

theorem addParams (t : SymbolTable) (id : MethodId) {vars : List Variable} {scope : ScopeRef}
    {declarators : List Walk.Declarator}
    (areWritten : vars.map Variable.slot
      = declarators.map fun d => { type := .unresolved d.type, scope }) :
    t.Writes (Mention.declared scope declarators (t.addParams id vars).1.ids)
      (t.addParams id vars).2 := by
  rw [addParams_ids, addParams_table]
  exact (Writes.appendVars t areWritten).trans_same (.modifyMethod _ id fun _ => rfl)

theorem addVars (t : SymbolTable) (body : BodyId) {vars : List Variable} {scope : ScopeRef}
    {declarators : List Walk.Declarator}
    (areWritten : vars.map Variable.slot
      = declarators.map fun d => { type := .unresolved d.type, scope }) (policy : DuplicateScope) :
    t.Writes (Mention.declared scope declarators (t.addVars body vars policy).1.ids)
      (t.addVars body vars policy).2 := by
  rw [addVars_ids, addVars_table]
  refine (Writes.appendVars t areWritten).trans_same ?_
  cases body with
  | method id => exact .modifyMethod _ id fun _ => rfl
  | block id => exact .modifyBlock _ id _

/-- The superclass of a class that has none is entered. -/
theorem superclass (t : SymbolTable) {id : SymbolId} (known : id.val < t.size)
    (none : (t.symbol id).superclass = none) (written : String) (pos : Position) :
    t.Writes [{ link := .superclass id, scope := .symbol id, written, pos }]
      (t.modifySymbol id fun s => { s with superclass := some (.unresolved written) }) := by
  refine ⟨List.nodup_singleton _, ?_, ?_, fun link other => ?_⟩
  · rintro m (_ | ⟨_, ⟨⟩⟩)
    simp [slot?, none]
  · rintro m (_ | ⟨_, ⟨⟩⟩)
    simp [slot?, view_modifySymbol_known t known _ Symbol.superclass, Mention.slot]
  · exact t.slot?_enterSuperclass id _ fun is => other (List.mem_singleton.2 is)

/-- An interface is entered after those that a class has. -/
theorem interface (t : SymbolTable) {id : SymbolId} (known : id.val < t.size) (written : String)
    (pos : Position) :
    t.Writes [{ link := .interface id (t.symbol id).interfaces.length, scope := .symbol id, written
                pos }]
      (t.modifySymbol id fun s => { s with interfaces := s.interfaces ++ [.unresolved written] }) := by
  refine ⟨List.nodup_singleton _, ?_, ?_, fun link other => ?_⟩
  · rintro m (_ | ⟨_, ⟨⟩⟩)
    simp [slot?]
  · rintro m (_ | ⟨_, ⟨⟩⟩)
    simp [slot?, view_modifySymbol_known t known _ Symbol.interfaces, Mention.slot]
  · cases link with
    | superclass s =>
      have same := view_modifySymbol t id s Symbol.superclass
        (f := fun s => { s with interfaces := s.interfaces ++ [.unresolved written] }) fun _ => rfl
      simp only [slot?, same]
    | interface s i =>
      by_cases is : s = id
      · subst is
        have differs : i ≠ (t.symbol s).interfaces.length := by
          rintro rfl
          exact other List.mem_cons_self
        simp only [slot?, view_modifySymbol_known t known _ Symbol.interfaces, if_true,
          List.getElem?_append]
        split
        · rfl
        · rw [List.getElem?_eq_none (by simp; omega), List.getElem?_eq_none (by omega)]
      · simp only [slot?, t.symbol_modifySymbol_other is]
    | _ => rfl

end Writes

end SymbolTable

end LevelCheck
