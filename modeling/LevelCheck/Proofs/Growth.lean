import LevelCheck.Context
import LevelCheck.Proofs.Table
import Mathlib.Tactic
set_option autoImplicit false

/-! # How the symbol table grows

Most changes of the table are quiet: they leave alone which records there are, which scopes they lie
in and what the scopes list, as well as the names of the classes and how far each has been seen. The
others append records, or take a class further in its declaration. In each case the records that
were there keep their ids and the scopes around them, and a scope that was open stays open. -/

namespace LevelCheck

namespace SymbolTable

/-! ## Scopes and places of the table -/

/-- The scope is one of the table, and the declaration of a class has begun. -/
def IsOpen (t : SymbolTable) : ScopeRef → Prop
  | .symbol id => id.val < t.size ∧ (t.symbol id).isDeclared
  | .method id => id.val < t.methods.size
  | .block id => id.val < t.blocks.size

/-- The place that a reference fills belongs to a record of the table. -/
def HasPlace (t : SymbolTable) : Link → Prop
  | .superclass child => child.val < t.size
  | .interface child _ => child.val < t.size
  | .variableType declared => declared.val < t.vars.size
  | .returnType method => method.val < t.methods.size
  | .thrownType method _ => method.val < t.methods.size
  | .existence => True
  | .anonymousBase child => child.val < t.size

/-- The place that a reference fills belongs to a record of the table, and to a declared class if it
belongs to a class. -/
def OpenPlace (t : SymbolTable) : Link → Prop
  | .superclass child | .interface child _ | .anonymousBase child => t.IsOpen (.symbol child)
  | link => t.HasPlace link

theorem OpenPlace.hasPlace {t : SymbolTable} {link : Link} (openPlace : t.OpenPlace link) :
    t.HasPlace link := by
  cases link with
  | superclass child | interface child index | anonymousBase child => exact openPlace.1
  | _ => exact openPlace

/-! ## Growth -/

/-- The second table has the records of the first, under the same ids and around the same scopes,
and every class declared in the first is declared in it. -/
structure Grows (t t' : SymbolTable) : Prop where
  symbols : t.size ≤ t'.size
  methods : t.methods.size ≤ t'.methods.size
  vars : t.vars.size ≤ t'.vars.size
  blocks : t.blocks.size ≤ t'.blocks.size
  name : ∀ id : SymbolId, id.val < t.size → (t'.symbol id).name = (t.symbol id).name
  declared : ∀ id : SymbolId, id.val < t.size → (t.symbol id).isDeclared → (t'.symbol id).isDeclared
  owner : ∀ id : MethodId, id.val < t.methods.size → (t'.method id).owner = (t.method id).owner
  outer : ∀ id : BlockId, id.val < t.blocks.size → (t'.block id).outer = (t.block id).outer

theorem Grows.refl (t : SymbolTable) : Grows t t :=
  ⟨le_rfl, le_rfl, le_rfl, le_rfl, fun _ _ => rfl, fun _ _ h => h, fun _ _ => rfl, fun _ _ => rfl⟩

theorem Grows.trans {t t' t'' : SymbolTable} (first : Grows t t') (second : Grows t' t'') :
    Grows t t'' where
  symbols := first.symbols.trans second.symbols
  methods := first.methods.trans second.methods
  vars := first.vars.trans second.vars
  blocks := first.blocks.trans second.blocks
  name id h := (second.name id (h.trans_le first.symbols)).trans (first.name id h)
  declared id h d := second.declared id (h.trans_le first.symbols) (first.declared id h d)
  owner id h := (second.owner id (h.trans_le first.methods)).trans (first.owner id h)
  outer id h := (second.outer id (h.trans_le first.blocks)).trans (first.outer id h)

theorem Grows.isOpen {t t' : SymbolTable} (grows : Grows t t') {scope : ScopeRef}
    (isOpen : t.IsOpen scope) : t'.IsOpen scope := by
  cases scope with
  | symbol id => exact ⟨isOpen.1.trans_le grows.symbols, grows.declared id isOpen.1 isOpen.2⟩
  | method id => exact Nat.lt_of_lt_of_le isOpen grows.methods
  | block id => exact Nat.lt_of_lt_of_le isOpen grows.blocks

theorem Grows.hasPlace {t t' : SymbolTable} (grows : Grows t t') {link : Link}
    (hasPlace : t.HasPlace link) : t'.HasPlace link := by
  cases link with
  | superclass child => exact Nat.lt_of_lt_of_le hasPlace grows.symbols
  | interface child index => exact Nat.lt_of_lt_of_le hasPlace grows.symbols
  | variableType declared => exact Nat.lt_of_lt_of_le hasPlace grows.vars
  | returnType method => exact Nat.lt_of_lt_of_le hasPlace grows.methods
  | thrownType method index => exact Nat.lt_of_lt_of_le hasPlace grows.methods
  | existence => trivial
  | anonymousBase child => exact Nat.lt_of_lt_of_le hasPlace grows.symbols

theorem Grows.openPlace {t t' : SymbolTable} (grows : Grows t t') {link : Link}
    (openPlace : t.OpenPlace link) : t'.OpenPlace link := by
  cases link with
  | superclass child | interface child index | anonymousBase child =>
    have isOpen : t.IsOpen (.symbol child) := openPlace
    exact grows.isOpen isOpen
  | variableType declared => exact Nat.lt_of_lt_of_le openPlace grows.vars
  | returnType method => exact Nat.lt_of_lt_of_le openPlace grows.methods
  | thrownType method index => exact Nat.lt_of_lt_of_le openPlace grows.methods
  | existence => trivial

/-! ## Quiet changes -/

end SymbolTable

/-- What a class says about the scopes of the table: its name, the scope around it and what it
lists. -/
def Symbol.shape (s : Symbol) : Symbol :=
  { s with
    modifiers := 0, isInterface := false, isPrimitive := false, state := .placeholder
    typeParams := [], superclass := none, interfaces := [], localClasses := 0 }

/-- What a method says about the scopes of the table. -/
def Method.shape (m : Method) : Method :=
  { m with
    name := "", modifiers := 0, typeParams := [], returnType := none, thrown := []
    isConstructor := false }

/-- What a variable says about the scopes of the table. -/
def Variable.shape (v : Variable) : Variable :=
  { v with name := "", modifiers := 0, type := .unresolved "", hasInitializer := false
           isFinal := false }

namespace SymbolTable

/-- The records of the table as far as they tell which scope lies in which, and what each lists. -/
def shape (t : SymbolTable) : SymbolTable :=
  { symbols := t.symbols.map Symbol.shape, methods := t.methods.map Method.shape
    vars := t.vars.map Variable.shape, blocks := t.blocks }

theorem symbol_shape (t : SymbolTable) (id : SymbolId) : t.shape.symbol id = (t.symbol id).shape :=
  getD_map t.symbols Symbol.shape id.val default

theorem method_shape (t : SymbolTable) (id : MethodId) : t.shape.method id = (t.method id).shape :=
  getD_map t.methods Method.shape id.val default

theorem var_shape (t : SymbolTable) (id : VariableId) : t.shape.var id = (t.var id).shape :=
  getD_map t.vars Variable.shape id.val default

section

variable {t t' : SymbolTable} (same : t'.shape = t.shape)
include same

theorem symbol_of_shape (id : SymbolId) : (t'.symbol id).shape = (t.symbol id).shape := by
  rw [← symbol_shape, ← symbol_shape, same]

theorem method_of_shape (id : MethodId) : (t'.method id).shape = (t.method id).shape := by
  rw [← method_shape, ← method_shape, same]

theorem var_of_shape (id : VariableId) : (t'.var id).shape = (t.var id).shape := by
  rw [← var_shape, ← var_shape, same]

end

/-- The tables differ neither in their shape nor in what their classes are called and how far each
has been seen. -/
structure Quiet (t t' : SymbolTable) : Prop where
  shape : t'.shape = t.shape
  roll : t'.roll = t.roll

theorem Quiet.refl (t : SymbolTable) : Quiet t t := ⟨rfl, rfl⟩

theorem shape_modifySymbol (t : SymbolTable) (id : SymbolId) {f : Symbol → Symbol}
    (keeps : ∀ s, (f s).shape = s.shape) : (t.modifySymbol id f).shape = t.shape := by
  simp only [SymbolTable.shape, SymbolTable.modifySymbol, map_modify _ _ _ Symbol.shape keeps]

theorem Quiet.modifySymbol (t : SymbolTable) (id : SymbolId) {f : Symbol → Symbol}
    (shape : ∀ s, (f s).shape = s.shape) (state : ∀ s, (f s).state = s.state) :
    Quiet t (t.modifySymbol id f) where
  shape := shape_modifySymbol t id shape
  roll := by
    refine roll_modifySymbol t id fun s => ?_
    have name : (f s).shape.name = s.shape.name := by rw [shape]
    exact Prod.ext name (state s)

theorem Quiet.modifyMethod (t : SymbolTable) (id : MethodId) {f : Method → Method}
    (shape : ∀ m, (f m).shape = m.shape) : Quiet t (t.modifyMethod id f) where
  shape := by
    simp only [SymbolTable.shape, SymbolTable.modifyMethod, map_modify _ _ _ Method.shape shape]
  roll := rfl

theorem Quiet.modifyVariable (t : SymbolTable) (id : VariableId) {f : Variable → Variable}
    (shape : ∀ v, (f v).shape = v.shape) : Quiet t (t.modifyVariable id f) where
  shape := by
    simp only [SymbolTable.shape, SymbolTable.modifyVariable,
      map_modify _ _ _ Variable.shape shape]
  roll := rfl

theorem size_of_shape {t t' : SymbolTable} (shape : t'.shape = t.shape) :
    t'.size = t.size ∧ t'.methods.size = t.methods.size ∧ t'.vars.size = t.vars.size
      ∧ t'.blocks = t.blocks := by
  have symbols := congrArg (·.symbols.size) shape
  have methods := congrArg (·.methods.size) shape
  have vars := congrArg (·.vars.size) shape
  have blocks := congrArg (·.blocks) shape
  simp only [SymbolTable.shape, Array.size_map] at symbols methods vars blocks
  exact ⟨symbols, methods, vars, blocks⟩

/-- The class around a scope depends on the owners of the methods and on the blocks alone. -/
theorem enclosingSymbol_congr {t t' : SymbolTable}
    (owner : ∀ id, (t'.method id).owner = (t.method id).owner) (blocks : t'.blocks = t.blocks)
    (scope : ScopeRef) : t'.enclosingSymbol scope = t.enclosingSymbol scope := by
  have within (n : Nat) : t'.enclosingSymbolFrom n scope = t.enclosingSymbolFrom n scope := by
    induction n generalizing scope with
    | zero => cases scope with
      | symbol id => rfl
      | method id => exact owner id
      | block id => rfl
    | succ n ih => cases scope with
      | symbol id => rfl
      | method id => exact owner id
      | block id => rw [enclosingSymbolFrom, enclosingSymbolFrom, ih, block, block, blocks]
  rw [enclosingSymbol, enclosingSymbol, blocks, within]

theorem enclosingSymbol_of_shape {t t' : SymbolTable} (shape : t'.shape = t.shape)
    (scope : ScopeRef) : t'.enclosingSymbol scope = t.enclosingSymbol scope := by
  refine enclosingSymbol_congr (fun id => ?_) (size_of_shape shape).2.2.2 scope
  have owner := congrArg Method.owner (method_of_shape shape id)
  exact owner

theorem enclosingSymbol_modifySymbol (t : SymbolTable) (id : SymbolId) (f : Symbol → Symbol)
    (scope : ScopeRef) : (t.modifySymbol id f).enclosingSymbol scope = t.enclosingSymbol scope := by
  refine enclosingSymbol_congr (fun id => ?_) ?_ scope
  · rfl
  · rfl

theorem Quiet.grows {t t' : SymbolTable} (quiet : Quiet t t') : Grows t t' := by
  obtain ⟨symbols, methods, vars, blocks⟩ := size_of_shape quiet.shape
  refine ⟨symbols.ge, methods.ge, vars.ge, (congrArg Array.size blocks).ge, ?_, ?_, ?_, ?_⟩
  · intro id _
    exact name_of_roll quiet.roll id
  · intro id _ declared
    rw [Symbol.isDeclared, state_of_roll quiet.roll id]
    exact declared
  · intro id _
    have same := method_of_shape quiet.shape id
    have owner := congrArg Method.owner same
    exact owner
  · intro id _
    rw [block, block, blocks]

/-- Filling the place of a reference is quiet. -/
theorem Quiet.fill (t : SymbolTable) (link : Link) (target : SymbolId) :
    Quiet t (t.fill link target) := by
  cases link with
  | superclass child => exact .modifySymbol t child (fun _ => rfl) (fun _ => rfl)
  | interface child index => exact .modifySymbol t child (fun _ => rfl) (fun _ => rfl)
  | variableType declared => exact .modifyVariable t declared fun _ => rfl
  | returnType method => exact .modifyMethod t method fun _ => rfl
  | thrownType method index => exact .modifyMethod t method fun _ => rfl
  | existence => exact .refl t
  | anonymousBase child =>
    rw [SymbolTable.fill]
    split
    · exact .modifySymbol t child (fun _ => rfl) (fun _ => rfl)
    · exact .modifySymbol t child (fun _ => rfl) (fun _ => rfl)

theorem Quiet.numberLocalClass (t : SymbolTable) (id : SymbolId) :
    Quiet t (t.numberLocalClass id).2 :=
  .modifySymbol t id (fun _ => rfl) (fun _ => rfl)

/-! ## Changes of one record -/

theorem Grows.modifySymbol (t : SymbolTable) (id : SymbolId) {f : Symbol → Symbol}
    (name : ∀ s, (f s).name = s.name) (declared : ∀ s, s.isDeclared → (f s).isDeclared) :
    Grows t (t.modifySymbol id f) := by
  refine { Grows.refl t with symbols := (size_modifySymbol t id f).ge, name := ?_, declared := ?_ }
  · intro other _
    exact view_modifySymbol t id other Symbol.name name
  · intro other _ before
    rw [symbol_modifySymbol]
    split
    · exact declared _ before
    · exact before

theorem Grows.modifyMethod (t : SymbolTable) (id : MethodId) {f : Method → Method}
    (owner : ∀ m, (f m).owner = m.owner) : Grows t (t.modifyMethod id f) := by
  refine { Grows.refl t with methods := by simp [SymbolTable.modifyMethod], owner := ?_ }
  intro other _
  exact view_modifyMethod t id other Method.owner owner

theorem Grows.modifyBlock (t : SymbolTable) (id : BlockId) {f : Block → Block}
    (outer : ∀ b, (f b).outer = b.outer) : Grows t (t.modifyBlock id f) := by
  refine { Grows.refl t with blocks := by simp [SymbolTable.modifyBlock], outer := ?_ }
  intro other _
  exact view_modifyBlock t id other Block.outer outer

/-! ## New records -/

theorem Grows.addSymbol (t : SymbolTable) (s : Symbol) : Grows t (t.addSymbol s).2 := by
  have older : ∀ id : SymbolId, id.val < t.size → (t.addSymbol s).2.symbol id = t.symbol id := by
    intro id known
    rw [symbol_addSymbol, if_neg (Nat.ne_of_lt known)]
  refine { Grows.refl t with symbols := by simp, name := ?_, declared := ?_ }
  · intro id known
    rw [older id known]
  · intro id known declared
    rwa [older id known]

theorem Grows.pushMethod (t : SymbolTable) (m : Method) :
    Grows t { t with methods := t.methods.push m } := by
  refine { Grows.refl t with methods := by simp, owner := ?_ }
  intro id known
  simp only [method, getD_push, if_neg (Nat.ne_of_lt known)]

theorem Grows.pushBlock (t : SymbolTable) (b : Block) :
    Grows t { t with blocks := t.blocks.push b } := by
  refine { Grows.refl t with blocks := by simp, outer := ?_ }
  intro id known
  simp only [block, getD_push, if_neg (Nat.ne_of_lt known)]

theorem Grows.appendVars (t : SymbolTable) (vs : List Variable) : Grows t (t.appendVars vs) :=
  { Grows.refl t with vars := by simp [SymbolTable.appendVars] }

theorem Grows.addMethod (t : SymbolTable) (m : Method) : Grows t (t.addMethod m).2 :=
  (Grows.pushMethod t m).trans (.modifySymbol _ m.owner (fun _ => rfl) (fun _ h => h))

theorem Grows.addBlock (t : SymbolTable) (outer : ScopeRef) : Grows t (t.addBlock outer).2 := by
  have first := Grows.pushBlock t { outer, vars := [], blocks := [] }
  cases outer with
  | symbol id => exact first.trans (.modifySymbol _ id (fun _ => rfl) (fun _ h => h))
  | method id => exact first.trans (.modifyMethod _ id fun _ => rfl)
  | block id => exact first.trans (.modifyBlock _ id fun _ => rfl)

theorem Grows.addFields (t : SymbolTable) (id : SymbolId) (vs : List Variable) :
    Grows t (t.addFields id vs).2 := by
  rw [addFields_table]
  exact (Grows.appendVars t vs).trans (.modifySymbol _ id (fun _ => rfl) (fun _ h => h))

theorem Grows.addParams (t : SymbolTable) (id : MethodId) (vs : List Variable) :
    Grows t (t.addParams id vs).2 := by
  rw [addParams_table]
  exact (Grows.appendVars t vs).trans (.modifyMethod _ id fun _ => rfl)

theorem Grows.addVars (t : SymbolTable) (body : BodyId) (vs : List Variable)
    (policy : DuplicateScope) : Grows t (t.addVars body vs policy).2 := by
  rw [addVars_table]
  have first := Grows.appendVars t vs
  cases body with
  | method id => exact first.trans (.modifyMethod _ id fun _ => rfl)
  | block id => exact first.trans (.modifyBlock _ id fun _ => rfl)

/-! ## Declaring a class -/

theorem getOrAddPlaceholder_of_some {t : SymbolTable} {name : String} {id : SymbolId}
    (found : t.lookup? name = some id) : t.getOrAddPlaceholder name = (id, t) := by
  rw [getOrAddPlaceholder, found]

theorem getOrAddPlaceholder_of_none {t : SymbolTable} {name : String}
    (absent : t.lookup? name = none) :
    t.getOrAddPlaceholder name = t.addSymbol (.placeholder name) := by
  rw [getOrAddPlaceholder, absent]

/-- The class that a name leads to is in the table, and carries the name. -/
theorem getOrAddPlaceholder_named (t : SymbolTable) (name : String) :
    (t.getOrAddPlaceholder name).1.val < (t.getOrAddPlaceholder name).2.size
      ∧ ((t.getOrAddPlaceholder name).2.symbol (t.getOrAddPlaceholder name).1).name = name := by
  cases found : t.lookup? name with
  | some id =>
    rw [getOrAddPlaceholder_of_some found]
    exact lookup_eq_some found
  | none =>
    have isNew : (t.addSymbol (.placeholder name)).1.val = t.size := rfl
    rw [getOrAddPlaceholder_of_none found, size_addSymbol, symbol_addSymbol, if_pos isNew]
    exact ⟨Nat.lt_succ_self _, rfl⟩

theorem Grows.getOrAddPlaceholder (t : SymbolTable) (name : String) :
    Grows t (t.getOrAddPlaceholder name).2 := by
  cases found : t.lookup? name with
  | some id => rw [getOrAddPlaceholder_of_some found]; exact .refl t
  | none => rw [getOrAddPlaceholder_of_none found]; exact .addSymbol t _

/-- A declaration begins with a class that is only referred to so far, or with a new one. -/
theorem beginDefinition_ok {t next : SymbolTable} {name : String} {id : SymbolId}
    (begun : t.beginDefinition name = .ok (id, next)) :
    ∃ t', t.getOrAddPlaceholder name = (id, t') ∧ (t'.symbol id).state = .placeholder
      ∧ next = t'.modifySymbol id fun s => { s with state := .visiting } := by
  rw [beginDefinition] at begun
  generalize placed : t.getOrAddPlaceholder name = entry at begun
  obtain ⟨id', t'⟩ := entry
  simp only at begun
  split at begun
  · cases begun
  · next undeclared =>
    cases begun
    exact ⟨t', rfl, by simpa [Symbol.isDeclared] using undeclared, rfl⟩

/-- A class whose declaration begins carries the name that it is declared under. -/
theorem beginDefinition_named {t next : SymbolTable} {name : String} {id : SymbolId}
    (begun : t.beginDefinition name = .ok (id, next)) :
    id.val < next.size ∧ (next.symbol id).name = name ∧ (next.symbol id).state = .visiting := by
  obtain ⟨t', placed, -, rfl⟩ := beginDefinition_ok begun
  have named := t.getOrAddPlaceholder_named name
  rw [placed] at named
  rw [size_modifySymbol, symbol_modifySymbol, if_pos ⟨rfl, named.1⟩]
  exact ⟨named.1, named.2, rfl⟩

theorem Grows.beginDefinition {t next : SymbolTable} {name : String} {id : SymbolId}
    (begun : t.beginDefinition name = .ok (id, next)) : Grows t next := by
  obtain ⟨t', placed, _, rfl⟩ := beginDefinition_ok begun
  have first := Grows.getOrAddPlaceholder t name
  rw [placed] at first
  exact first.trans (.modifySymbol _ id (fun _ => rfl) (fun _ _ => rfl))

theorem Grows.finishDefinition (t : SymbolTable) (id : SymbolId) :
    Grows t (t.finishDefinition id) :=
  .modifySymbol t id (fun _ => rfl) (fun _ _ => rfl)

end SymbolTable

/-- The function enters what a declaration says about its class itself, and nothing else. -/
def Symbol.IsHead (head : Symbol → Symbol) : Prop :=
  ∀ s, head s = { s with
    modifiers := (head s).modifiers, isInterface := (head s).isInterface
    typeParams := (head s).typeParams }

namespace Symbol.IsHead

variable {head : Symbol → Symbol} (isHead : IsHead head) (s : Symbol)
include isHead

theorem name : (head s).name = s.name := by rw [isHead s]

theorem state : (head s).state = s.state := by rw [isHead s]

/-- A class that is declared stays so as it is entered in a scope. -/
theorem isDeclared {outer : Option ScopeRef} (declared : s.isDeclared) :
    ({ head s with outer } : Symbol).isDeclared := by
  rw [Symbol.isDeclared]
  simp only [isHead.state]
  exact declared

end Symbol.IsHead

theorem SymbolTable.Grows.enterClass (t : SymbolTable) (id : SymbolId) (outer : Option ScopeRef)
    {head : Symbol → Symbol} (isHead : Symbol.IsHead head) :
    Grows t (t.enterClass id outer head) := by
  have first : Grows t (t.modifySymbol id fun s => { head s with outer }) :=
    .modifySymbol t id isHead.name fun s => isHead.isDeclared s
  cases outer with
  | none => exact first
  | some scope => exact first.trans (.modifySymbol _ _ (fun _ => rfl) (fun _ h => h))

end LevelCheck
