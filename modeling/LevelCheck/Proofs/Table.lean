import LevelCheck.Symbol.Builtin
import Mathlib.Tactic
set_option autoImplicit false

/-! # Reading a changed table

How each operation of the symbol table shows through the functions that read it. Records are only
appended or changed in place, so a reading is that of the table before, except at the one record that
an operation is about. What a name denotes depends on the names of the classes alone, and is settled
by them when no two classes share one. -/

namespace LevelCheck

/-! ## Arrays with a default -/

theorem getD_modify {α : Type} (xs : Array α) (i j : Nat) (f : α → α) (d : α) :
    (xs.modify i f).getD j d = if j = i ∧ i < xs.size then f (xs.getD j d) else xs.getD j d := by
  simp only [Array.getD_eq_getD_getElem?, Array.getElem?_modify]
  by_cases same : j = i
  · subst same
    by_cases bound : j < xs.size <;> simp [bound]
  · have : ¬ i = j := fun h => same h.symm
    simp [same, this]

theorem getD_push {α : Type} (xs : Array α) (x : α) (j : Nat) (d : α) :
    (xs.push x).getD j d = if j = xs.size then x else xs.getD j d := by
  simp only [Array.getD_eq_getD_getElem?, Array.getElem?_push]
  split <;> simp

/-- A new record that a view cannot tell from the default changes nothing about the view. -/
theorem view_push {α β : Type} (xs : Array α) {x d : α} (j : Nat) (view : α → β)
    (blank : view x = view d) : view ((xs.push x).getD j d) = view (xs.getD j d) := by
  rw [getD_push]
  split
  · next isNew =>
    have absent : xs.getD j d = d := by
      rw [Array.getD_eq_getD_getElem?, Array.getElem?_eq_none isNew.ge, Option.getD_none]
    rw [absent, blank]
  · rfl

/-- A change that a view commutes with may be made before or after. -/
theorem map_modify_comm {α β : Type} (xs : Array α) (i : Nat) (f : α → α) (f' : β → β)
    {view : α → β} (commutes : ∀ x, view (f x) = f' (view x)) :
    (xs.modify i f).map view = (xs.map view).modify i f' := by
  apply Array.ext
  · simp
  · intro j _ _
    simp only [Array.getElem_map, Array.getElem_modify]
    split
    · exact commutes _
    · rfl

/-- A view of the records that a change keeps is the view of the changed records. -/
theorem map_modify {α β : Type} (xs : Array α) (i : Nat) (f : α → α) (view : α → β)
    (keeps : ∀ x, view (f x) = view x) : (xs.modify i f).map view = xs.map view := by
  rw [map_modify_comm xs i f id keeps]
  apply Array.ext
  · simp
  · intro j _ _
    simp only [Array.getElem_modify, id, ite_self]

/-- A view of all records gives the view of the record at a place. -/
theorem getD_map {α β : Type} (xs : Array α) (view : α → β) (j : Nat) (d : α) :
    (xs.map view).getD j (view d) = view (xs.getD j d) := by
  simp only [Array.getD_eq_getD_getElem?, Array.getElem?_map, Option.getD_map]

/-- What new records at the end of an array belong to. -/
theorem owner_append {α κ : Type} (xs : Array α) (ys : List α) (d : α) (key : α → κ) {k : κ}
    (same : ∀ y ∈ ys, key y = k) (j : Nat) :
    (if j < (xs ++ ys.toArray).size then some (key ((xs ++ ys.toArray).getD j d)) else none)
      = if xs.size ≤ j ∧ j < xs.size + ys.length then some k
        else if j < xs.size then some (key (xs.getD j d)) else none := by
  simp only [Array.size_append, List.size_toArray, Array.getD_eq_getD_getElem?]
  by_cases older : j < xs.size
  · rw [Array.getElem?_append_left older, if_pos (by omega), if_neg (by omega), if_pos older]
  · by_cases isNew : j < xs.size + ys.length
    · have bound : j - xs.size < ys.length := by omega
      rw [Array.getElem?_append_right (by omega), if_pos isNew, if_pos ⟨by omega, isNew⟩]
      rw [List.getElem?_toArray, List.getElem?_eq_getElem bound, Option.getD_some]
      exact congrArg some (same _ (List.getElem_mem bound))
    · rw [if_neg isNew, if_neg (by omega), if_neg older]

theorem owner_push {α κ : Type} (xs : Array α) (x d : α) (key : α → κ) (j : Nat) :
    (if j < (xs.push x).size then some (key ((xs.push x).getD j d)) else none)
      = if j = xs.size then some (key x)
        else if j < xs.size then some (key (xs.getD j d)) else none := by
  have appended := owner_append xs [x] d key (fun y is => by rw [List.mem_singleton.1 is]) j
  have only : (xs.size ≤ j ∧ j < xs.size + 1) = (j = xs.size) := propext (by omega)
  simpa only [List.length_singleton, only, Array.append_singleton] using appended

namespace SymbolTable

variable {t : SymbolTable}

/-! ## Changing one record -/

theorem symbol_modifySymbol (t : SymbolTable) (id s : SymbolId) (f : Symbol → Symbol) :
    (t.modifySymbol id f).symbol s
      = if s = id ∧ id.val < t.size then f (t.symbol s) else t.symbol s := by
  simp only [symbol, modifySymbol, getD_modify, size, SymbolId.ext_iff]

theorem method_modifyMethod (t : SymbolTable) (id m : MethodId) (f : Method → Method) :
    (t.modifyMethod id f).method m
      = if m = id ∧ id.val < t.methods.size then f (t.method m) else t.method m := by
  simp only [method, modifyMethod, getD_modify, MethodId.ext_iff]

theorem var_modifyVariable (t : SymbolTable) (id v : VariableId) (f : Variable → Variable) :
    (t.modifyVariable id f).var v
      = if v = id ∧ id.val < t.vars.size then f (t.var v) else t.var v := by
  simp only [var, modifyVariable, getD_modify, VariableId.ext_iff]

theorem block_modifyBlock (t : SymbolTable) (id b : BlockId) (f : Block → Block) :
    (t.modifyBlock id f).block b
      = if b = id ∧ id.val < t.blocks.size then f (t.block b) else t.block b := by
  simp only [block, modifyBlock, getD_modify, BlockId.ext_iff]

/-- A view of the record that is changed, if the table has it, and of the others. -/
theorem view_modifySymbol_known {β : Type} (t : SymbolTable) {id : SymbolId}
    (known : id.val < t.size) (f : Symbol → Symbol) (view : Symbol → β) (s : SymbolId) :
    view ((t.modifySymbol id f).symbol s)
      = if s = id then view (f (t.symbol s)) else view (t.symbol s) := by
  rw [symbol_modifySymbol]
  by_cases is : s = id <;> simp [is, known]

theorem view_modifyMethod_known {β : Type} (t : SymbolTable) {id : MethodId}
    (known : id.val < t.methods.size) (f : Method → Method) (view : Method → β) (m : MethodId) :
    view ((t.modifyMethod id f).method m)
      = if m = id then view (f (t.method m)) else view (t.method m) := by
  rw [method_modifyMethod]
  by_cases is : m = id <;> simp [is, known]

theorem view_modifyBlock_known {β : Type} (t : SymbolTable) {id : BlockId}
    (known : id.val < t.blocks.size) (f : Block → Block) (view : Block → β) (b : BlockId) :
    view ((t.modifyBlock id f).block b)
      = if b = id then view (f (t.block b)) else view (t.block b) := by
  rw [block_modifyBlock]
  by_cases is : b = id <;> simp [is, known]

/-- What a change of one class keeps of every class, the changed table shows as before. -/
theorem view_modifySymbol {β : Type} (t : SymbolTable) (id s : SymbolId) {f : Symbol → Symbol}
    (view : Symbol → β) (keeps : ∀ x, view (f x) = view x) :
    view ((t.modifySymbol id f).symbol s) = view (t.symbol s) := by
  rw [symbol_modifySymbol]
  split
  · exact keeps _
  · rfl

theorem view_modifyMethod {β : Type} (t : SymbolTable) (id m : MethodId) {f : Method → Method}
    (view : Method → β) (keeps : ∀ x, view (f x) = view x) :
    view ((t.modifyMethod id f).method m) = view (t.method m) := by
  rw [method_modifyMethod]
  split
  · exact keeps _
  · rfl

theorem view_modifyBlock {β : Type} (t : SymbolTable) (id b : BlockId) {f : Block → Block}
    (view : Block → β) (keeps : ∀ x, view (f x) = view x) :
    view ((t.modifyBlock id f).block b) = view (t.block b) := by
  rw [block_modifyBlock]
  split
  · exact keeps _
  · rfl

@[simp] theorem size_modifySymbol (t : SymbolTable) (id : SymbolId) (f : Symbol → Symbol) :
    (t.modifySymbol id f).size = t.size := by simp [size, modifySymbol]

@[simp] theorem methods_modifySymbol (t : SymbolTable) (id : SymbolId) (f : Symbol → Symbol) :
    (t.modifySymbol id f).methods = t.methods := rfl

@[simp] theorem vars_modifySymbol (t : SymbolTable) (id : SymbolId) (f : Symbol → Symbol) :
    (t.modifySymbol id f).vars = t.vars := rfl

@[simp] theorem blocks_modifySymbol (t : SymbolTable) (id : SymbolId) (f : Symbol → Symbol) :
    (t.modifySymbol id f).blocks = t.blocks := rfl

@[simp] theorem symbols_modifyMethod (t : SymbolTable) (id : MethodId) (f : Method → Method) :
    (t.modifyMethod id f).symbols = t.symbols := rfl

@[simp] theorem vars_modifyMethod (t : SymbolTable) (id : MethodId) (f : Method → Method) :
    (t.modifyMethod id f).vars = t.vars := rfl

@[simp] theorem blocks_modifyMethod (t : SymbolTable) (id : MethodId) (f : Method → Method) :
    (t.modifyMethod id f).blocks = t.blocks := rfl

@[simp] theorem symbols_modifyBlock (t : SymbolTable) (id : BlockId) (f : Block → Block) :
    (t.modifyBlock id f).symbols = t.symbols := rfl

@[simp] theorem methods_modifyBlock (t : SymbolTable) (id : BlockId) (f : Block → Block) :
    (t.modifyBlock id f).methods = t.methods := rfl

@[simp] theorem vars_modifyBlock (t : SymbolTable) (id : BlockId) (f : Block → Block) :
    (t.modifyBlock id f).vars = t.vars := rfl

/-! ## Appending records -/

theorem symbol_addSymbol (t : SymbolTable) (s : Symbol) (id : SymbolId) :
    (t.addSymbol s).2.symbol id = if id.val = t.size then s else t.symbol id :=
  getD_push t.symbols s id.val default

theorem view_addSymbol {β : Type} (t : SymbolTable) {s : Symbol} (id : SymbolId) (view : Symbol → β)
    (blank : view s = view default) : view ((t.addSymbol s).2.symbol id) = view (t.symbol id) :=
  view_push t.symbols id.val view blank

@[simp] theorem size_addSymbol (t : SymbolTable) (s : Symbol) :
    (t.addSymbol s).2.size = t.size + 1 := by simp [size, addSymbol]

theorem addVariables_eq (t : SymbolTable) (vs : List Variable) :
    t.addVariables vs
      = ((List.range' t.vars.size vs.length).map VariableId.mk,
          { t with vars := t.vars ++ vs.toArray }) := by
  induction vs generalizing t with
  | nil => simp [addVariables]
  | cons v rest ih =>
    simp only [addVariables, addVariable, ih]
    simp [List.range'_succ]

/-- A name collides if it has been seen before or is declared twice. -/
theorem mem_collisions {seen reported names : List String} {n : String} :
    n ∈ collisions seen reported names
      ↔ n ∉ reported ∧ n ∈ names ∧ (n ∈ seen ∨ 2 ≤ names.count n) := by
  induction names generalizing seen reported with
  | nil => simp [collisions]
  | cons name rest ih =>
    unfold collisions
    have more : 2 ≤ rest.count n + 1 ↔ n ∈ rest := by
      rw [← List.count_pos_iff]
      omega
    by_cases known : name ∈ seen
    · by_cases twice : name ∈ reported <;> by_cases here : n = name
      · subst here
        simp [known, twice, ih]
      · simp [known, twice, ih, here, Ne.symm here]
      · subst here
        simp [known, twice]
      · simp [known, twice, ih, here, Ne.symm here]
    · by_cases here : n = name
      · subst here
        simp [known, ih, more]
      · simp [known, ih, here, Ne.symm here]

/-- Each name that collides is reported once. -/
theorem nodup_collisions (seen reported names : List String) :
    (collisions seen reported names).Nodup := by
  induction names generalizing seen reported with
  | nil => exact List.nodup_nil
  | cons name rest ih =>
    unfold collisions
    split
    · split
      · exact ih _ _
      · refine List.nodup_cons.2 ⟨fun again => ?_, ih _ _⟩
        exact (mem_collisions.1 again).1 (List.mem_cons_self ..)
    · exact ih _ _

/-- The ids that a declaration of variables gives out. -/
def nextVariables (t : SymbolTable) (count : Nat) : List VariableId :=
  (List.range' t.vars.size count).map VariableId.mk

theorem declare_fst (t : SymbolTable) (seen : List String) (vs : List Variable) :
    (t.declare seen vs).1 = { ids := t.nextVariables vs.length
                              duplicates := collisions seen [] (vs.map (·.name)) } := by
  simp [declare, addVariables_eq, nextVariables]

theorem declare_ids (t : SymbolTable) (seen : List String) (vs : List Variable) :
    (t.declare seen vs).1.ids = t.nextVariables vs.length := by rw [declare_fst]

theorem mem_nextVariables {count : Nat} {id : VariableId} :
    id ∈ t.nextVariables count ↔ t.vars.size ≤ id.val ∧ id.val < t.vars.size + count := by
  simp only [nextVariables, List.mem_map, List.mem_range'_1]
  constructor
  · rintro ⟨i, bounds, rfl⟩
    exact bounds
  · exact fun bounds => ⟨id.val, bounds, rfl⟩

theorem nodup_nextVariables (t : SymbolTable) (count : Nat) : (t.nextVariables count).Nodup :=
  List.Nodup.map (fun _ _ same => VariableId.mk.inj same) List.nodup_range'

/-- The table with variables that no scope lists yet. -/
def appendVars (t : SymbolTable) (vs : List Variable) : SymbolTable :=
  { t with vars := t.vars ++ vs.toArray }

theorem declare_table (t : SymbolTable) (seen : List String) (vs : List Variable) :
    (t.declare seen vs).2 = t.appendVars vs := by
  simp [declare, addVariables_eq, appendVars]

theorem addFields_ids (t : SymbolTable) (id : SymbolId) (vs : List Variable) :
    (t.addFields id vs).1.ids = t.nextVariables vs.length := declare_ids ..

theorem addFields_table (t : SymbolTable) (id : SymbolId) (vs : List Variable) :
    (t.addFields id vs).2 = (t.appendVars vs).modifySymbol id fun s =>
      { s with fields := s.fields ++ t.nextVariables vs.length } := by
  simp only [addFields, declare_ids, declare_table]

theorem addParams_ids (t : SymbolTable) (id : MethodId) (vs : List Variable) :
    (t.addParams id vs).1.ids = t.nextVariables vs.length := declare_ids ..

theorem addParams_table (t : SymbolTable) (id : MethodId) (vs : List Variable) :
    (t.addParams id vs).2 = (t.appendVars vs).modifyMethod id fun m =>
      { m with
        params := m.params ++ t.nextVariables vs.length
        vars := m.vars ++ t.nextVariables vs.length } := by
  simp only [addParams, declare_ids, declare_table]

/-- List variables in a body. -/
def listVars (t : SymbolTable) (body : BodyId) (ids : List VariableId) : SymbolTable :=
  match body with
  | .method id => t.modifyMethod id fun m => { m with vars := m.vars ++ ids }
  | .block id => t.modifyBlock id fun b => { b with vars := b.vars ++ ids }

theorem addVars_ids (t : SymbolTable) (body : BodyId) (vs : List Variable)
    (policy : DuplicateScope) : (t.addVars body vs policy).1.ids = t.nextVariables vs.length := by
  cases body <;> simp only [addVars, declare_ids]

theorem addVars_table (t : SymbolTable) (body : BodyId) (vs : List Variable)
    (policy : DuplicateScope) :
    (t.addVars body vs policy).2 = (t.appendVars vs).listVars body (t.nextVariables vs.length) := by
  cases body <;> simp only [addVars, listVars, declare_ids, declare_table]

/-- List a block in the scope around it. -/
def listBlock (t : SymbolTable) (outer : ScopeRef) (id : BlockId) : SymbolTable :=
  match outer with
  | .symbol parent => t.modifySymbol parent fun s => { s with initializers := s.initializers ++ [id] }
  | .method parent => t.modifyMethod parent fun m => { m with blocks := m.blocks ++ [id] }
  | .block parent => t.modifyBlock parent fun b => { b with blocks := b.blocks ++ [id] }

theorem addBlock_table (t : SymbolTable) (outer : ScopeRef) :
    (t.addBlock outer).2
      = { t with blocks := t.blocks.push { outer, vars := [], blocks := [] } }.listBlock outer
          ⟨t.blocks.size⟩ := by
  cases outer <;> rfl

/-! ## Names -/

theorem lookupBelow_eq_some {name : String} {id : SymbolId} {n : Nat}
    (h : t.lookupBelow name n = some id) : id.val < n ∧ (t.symbol id).name = name := by
  induction n with
  | zero => simp [lookupBelow] at h
  | succ n ih =>
    rw [lookupBelow] at h
    split at h
    · next named =>
      obtain rfl := Option.some.inj h
      exact ⟨Nat.lt_succ_self n, named⟩
    · exact ⟨Nat.lt_succ_of_lt (ih h).1, (ih h).2⟩

theorem lookupBelow_eq_none {name : String} {n : Nat}
    (h : t.lookupBelow name n = none) (id : SymbolId) (below : id.val < n) :
    (t.symbol id).name ≠ name := by
  induction n with
  | zero => exact absurd below (Nat.not_lt_zero _)
  | succ n ih =>
    rw [lookupBelow] at h
    split at h
    · cases h
    · next other =>
      rcases Nat.lt_succ_iff_lt_or_eq.1 below with earlier | last
      · exact ih h earlier
      · obtain rfl : id = ⟨n⟩ := SymbolId.ext last
        exact other

/-- A name denotes a class of the table that carries it. -/
theorem lookup_eq_some {name : String} {id : SymbolId}
    (h : t.lookup? name = some id) : id.val < t.size ∧ (t.symbol id).name = name :=
  lookupBelow_eq_some h

theorem lookup_eq_none {name : String} (h : t.lookup? name = none)
    (id : SymbolId) (known : id.val < t.size) : (t.symbol id).name ≠ name :=
  lookupBelow_eq_none h id known

/-- No two classes carry the same name. -/
def UniqueNames (t : SymbolTable) : Prop :=
  ∀ i j : SymbolId, i.val < t.size → j.val < t.size →
    (t.symbol i).name = (t.symbol j).name → i = j

theorem UniqueNames.congr {t' : SymbolTable} (unique : t.UniqueNames) (size : t'.size = t.size)
    (name : ∀ id, (t'.symbol id).name = (t.symbol id).name) : t'.UniqueNames := by
  intro i j hi hj same
  rw [size] at hi hj
  rw [name, name] at same
  exact unique i j hi hj same

theorem UniqueNames.of_nodup (names : (t.symbols.toList.map Symbol.name).Nodup) :
    t.UniqueNames := by
  intro i j hi hj same
  have bound {k : SymbolId} (known : k.val < t.size) :
      k.val < (t.symbols.toList.map Symbol.name).length := by
    rw [List.length_map, Array.length_toList]
    exact known
  have read {k : SymbolId} (known : k.val < t.size) :
      (t.symbols.toList.map Symbol.name).get ⟨k.val, bound known⟩ = (t.symbol k).name := by
    rw [List.get_eq_getElem, List.getElem_map, Array.getElem_toList, symbol,
      Array.getD_eq_getD_getElem?, Array.getElem?_eq_getElem known, Option.getD_some]
    rfl
  have places := List.nodup_iff_injective_get.1 names ((read hi).trans (same.trans (read hj).symm))
  exact SymbolId.ext (Fin.mk.inj places)

theorem UniqueNames.lookup_iff (unique : t.UniqueNames) (name : String) (id : SymbolId) :
    t.lookup? name = some id ↔ id.val < t.size ∧ (t.symbol id).name = name := by
  refine ⟨lookup_eq_some, fun ⟨known, named⟩ => ?_⟩
  cases found : t.lookup? name with
  | none => exact absurd named (lookup_eq_none found id known)
  | some other =>
    obtain ⟨knownOther, namedOther⟩ := lookup_eq_some found
    rw [unique other id knownOther known (namedOther.trans named.symm)]

/-- The names of the classes and how far each has been seen. -/
def roll (t : SymbolTable) : Array (String × SymbolState) :=
  t.symbols.map fun s => (s.name, s.state)

theorem roll_modifySymbol (t : SymbolTable) (id : SymbolId) {f : Symbol → Symbol}
    (keeps : ∀ s, ((f s).name, (f s).state) = (s.name, s.state)) :
    (t.modifySymbol id f).roll = t.roll :=
  map_modify _ _ _ (fun s : Symbol => (s.name, s.state)) keeps

theorem getD_roll (t : SymbolTable) (id : SymbolId) :
    t.roll.getD id.val ((default : Symbol).name, (default : Symbol).state)
      = ((t.symbol id).name, (t.symbol id).state) :=
  getD_map t.symbols (fun s : Symbol => (s.name, s.state)) id.val default

section Roll

variable {t' : SymbolTable} (same : t'.roll = t.roll)
include same

theorem size_of_roll : t'.size = t.size := by
  have := congrArg Array.size same
  simpa [roll, size] using this

theorem name_of_roll (id : SymbolId) : (t'.symbol id).name = (t.symbol id).name := by
  have := t'.getD_roll id
  rw [same, t.getD_roll id] at this
  exact (congrArg Prod.fst this).symm

theorem state_of_roll (id : SymbolId) : (t'.symbol id).state = (t.symbol id).state := by
  have := t'.getD_roll id
  rw [same, t.getD_roll id] at this
  exact (congrArg Prod.snd this).symm

theorem lookup_of_roll (name : String) : t'.lookup? name = t.lookup? name := by
  have below : ∀ n, t'.lookupBelow name n = t.lookupBelow name n := by
    intro n
    induction n with
    | zero => rfl
    | succ n ih => rw [lookupBelow, lookupBelow, name_of_roll same, ih]
  rw [lookup?, lookup?, size_of_roll same, below]

theorem lookupComplete_of_roll (name : String) :
    t'.lookupComplete? name = t.lookupComplete? name := by
  simp only [lookupComplete?, lookup_of_roll same, Symbol.isComplete, state_of_roll same]

theorem lookupDeclared_of_roll (name : String) :
    t'.lookupDeclared? name = t.lookupDeclared? name := by
  simp only [lookupDeclared?, lookup_of_roll same, Symbol.isDeclared, state_of_roll same]

theorem UniqueNames.of_roll (unique : t.UniqueNames) : t'.UniqueNames :=
  unique.congr (size_of_roll same) (name_of_roll same)

end Roll

end SymbolTable

end LevelCheck
