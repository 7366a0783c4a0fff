import LevelCheck.Proofs.Forest
set_option autoImplicit false

/-! # A growing forest

Every way of changing the table that a walk knows keeps the table a forest: classes are referred to,
declared and entered in their scopes, methods and blocks are added, and variables are declared. The
table that a run starts from is a forest of classes without members. -/

namespace LevelCheck

namespace SymbolTable

/-! ## Classes -/

section Placeholder

/-- A class with a scope around it is one of the table. -/
theorem known_of_outer {t : SymbolTable} {id : SymbolId} {scope : ScopeRef}
    (is : (t.symbol id).outer = some scope) : id.val < t.size := by
  by_contra beyond
  rw [symbol, Array.getD_eq_getD_getElem?, Array.getElem?_eq_none (Nat.not_lt.1 beyond),
    Option.getD_none] at is
  cases is

variable {t : SymbolTable} {name : String} (absent : t.lookup? name = none)
include absent

/-- The new class is the only one that carries its name. -/
theorem UniqueNames.addPlaceholder (unique : t.UniqueNames) :
    (t.addSymbol (.placeholder name)).2.UniqueNames := by
  intro i j hi hj same
  rw [size_addSymbol] at hi hj
  rw [symbol_addSymbol, symbol_addSymbol] at same
  have other (id : SymbolId) (below : id.val < t.size + 1) (old : id.val ≠ t.size) :
      id.val < t.size ∧ (t.symbol id).name ≠ name :=
    have known : id.val < t.size := by omega
    ⟨known, lookup_eq_none absent id known⟩
  split at same <;> split at same
  · next isNew isNew' => exact SymbolId.ext (isNew.trans isNew'.symm)
  · next old => exact absurd same.symm (other j hj old).2
  · next old _ => exact absurd same (other i hi old).2
  · next old old' => exact unique i j (other i hi old).1 (other j hj old').1 same

theorem ClassTree.addPlaceholder (classes : t.ClassTree) (scopes : t.ScopeTree) :
    (t.addSymbol (.placeholder name)).2.ClassTree := by
  have grows := Grows.addSymbol t (.placeholder name)
  have outer (id : SymbolId) :
      ((t.addSymbol (.placeholder name)).2.symbol id).outer = (t.symbol id).outer :=
    view_addSymbol t id Symbol.outer rfl
  have around (id : SymbolId) :
      (t.addSymbol (.placeholder name)).2.outerClass? id = t.outerClass? id := by
    rw [outerClass?, outerClass?, outer]
    refine Option.map_congr fun scope is => ?_
    exact scopes.enclosingSymbol_of_grows grows (classes.outerOpen id scope is)
  have older (id : SymbolId) (known : id.val < t.size) :
      (t.addSymbol (.placeholder name)).2.symbol id = t.symbol id := by
    rw [symbol_addSymbol, if_neg known.ne]
  refine ⟨classes.names.addPlaceholder absent, ?_, ?_, ?_, ?_⟩
  · exact classes.inner.congr (fun id => view_addSymbol t id Symbol.innerClasses rfl) around
  · intro id scope is
    rw [outer] at is
    exact grows.isOpen (classes.outerOpen id scope is)
  · intro id is
    rw [outer]
    rw [symbol_addSymbol] at is
    split at is
    · next isNew =>
      rw [← outer, symbol_addSymbol, if_pos isNew]
      rfl
    · exact classes.undeclared id is
  · -- a class in a scope is an older one, and so is the class around it
    intro id owner is
    rw [around] at is
    obtain ⟨own, named⟩ := classes.named id owner is
    obtain ⟨scope, inScope, rfl⟩ := Option.map_eq_some_iff.1 is
    have ownerOpen := scopes.enclosingSymbol_isOpen (classes.outerOpen id scope inScope)
    exact ⟨own, by rw [older id (known_of_outer inScope), older _ ownerOpen.1, named]⟩

/-- A placeholder for a name that no class carries. -/
theorem Forest.addPlaceholder (forest : t.Forest) : (t.addSymbol (.placeholder name)).2.Forest := by
  have grows := Grows.addSymbol t (.placeholder name)
  refine ⟨?_, ?_, forest.classes.addPlaceholder absent forest.scopes⟩
  · exact forest.scopes.keep_symbols grows rfl rfl
      (fun id => view_addSymbol t id Symbol.methods rfl)
      fun id => view_addSymbol t id Symbol.initializers rfl
  · exact forest.vars.keep_symbols grows rfl rfl rfl fun id => view_addSymbol t id Symbol.fields rfl

end Placeholder

theorem Forest.getOrAddPlaceholder {t : SymbolTable} (forest : t.Forest) (name : String) :
    (t.getOrAddPlaceholder name).2.Forest := by
  cases found : t.lookup? name with
  | some id => rw [getOrAddPlaceholder_of_some found]; exact forest
  | none => rw [getOrAddPlaceholder_of_none found]; exact forest.addPlaceholder found

/-- How far the declaration of a class has been seen may change, but not back. -/
theorem Forest.setState {t : SymbolTable} (forest : t.Forest) (id : SymbolId) {state : SymbolState}
    (declared : state ≠ .placeholder) :
    (t.modifySymbol id fun s => { s with state }).Forest := by
  refine forest.of_shape (.modifySymbol t id (fun _ => rfl) fun s _ => ?_)
    (shape_modifySymbol t id fun _ => rfl) fun other is => ?_
  · simpa [Symbol.isDeclared] using declared
  · rw [symbol_modifySymbol] at is
    split at is
    · exact absurd is declared
    · exact is

/-- A class whose declaration begins has no scope around it yet. -/
theorem Forest.beginDefinition {t next : SymbolTable} (forest : t.Forest) {name : String}
    {id : SymbolId} (begun : t.beginDefinition name = .ok (id, next)) :
    next.Forest ∧ (next.symbol id).outer = none := by
  obtain ⟨t', placed, undeclared, rfl⟩ := beginDefinition_ok begun
  have forest' := forest.getOrAddPlaceholder name
  rw [placed] at forest'
  refine ⟨forest'.setState id nofun, ?_⟩
  refine (view_modifySymbol t' id id Symbol.outer fun s => ?_).trans
    (forest'.classes.undeclared id undeclared)
  rfl

section EnterClass

variable (t : SymbolTable) (id : SymbolId) (outer : Option ScopeRef) {head : Symbol → Symbol}

/-- What depends neither on the head of a class nor on the scope around it and its inner classes stays
as it was. -/
theorem view_enterClass {β : Type} (isHead : Symbol.IsHead head) (s : SymbolId) (view : Symbol → β)
    (keeps : ∀ (x : Symbol) (modifiers : Nat) (isInterface : Bool) (typeParams : List String)
      (outer : Option ScopeRef) (innerClasses : List SymbolId),
      view { x with modifiers, isInterface, typeParams, outer, innerClasses } = view x) :
    view ((t.enterClass id outer head).symbol s) = view (t.symbol s) := by
  -- the class takes its head and its scope, and then the class around it lists it
  have first : view ((t.modifySymbol id fun s => { head s with outer }).symbol s)
      = view (t.symbol s) := by
    refine view_modifySymbol t id s view fun x => ?_
    rw [isHead x]
    exact keeps x _ _ _ outer x.innerClasses
  cases outer with
  | none => exact first
  | some scope =>
    rw [← first]
    exact view_modifySymbol _ _ s view fun x => keeps x _ _ _ x.outer _

theorem enterClass_outer (known : id.val < t.size) (s : SymbolId) :
    ((t.enterClass id outer head).symbol s).outer = if s = id then outer else (t.symbol s).outer := by
  have first : ((t.modifySymbol id fun s => { head s with outer }).symbol s).outer
      = if s = id then outer else (t.symbol s).outer :=
    view_modifySymbol_known t known _ Symbol.outer s
  cases outer with
  | none => exact first
  | some scope =>
    rw [← first]
    exact view_modifySymbol _ _ s Symbol.outer fun _ => rfl

/-- A class that is entered is listed by the class around it. -/
theorem enterClass_inner (isHead : Symbol.IsHead head) {scope : ScopeRef}
    (known : (t.enclosingSymbol scope).val < t.size) (s : SymbolId) :
    ((t.enterClass id (some scope) head).symbol s).innerClasses
      = if s = t.enclosingSymbol scope then (t.symbol s).innerClasses ++ [id]
        else (t.symbol s).innerClasses := by
  have first : ((t.modifySymbol id fun s => { head s with outer := some scope }).symbol s).innerClasses
      = (t.symbol s).innerClasses := by
    refine view_modifySymbol t id s Symbol.innerClasses fun x => ?_
    rw [isHead x]
  rw [enterClass]
  simp only
  rw [addInnerClass, enclosingSymbol_modifySymbol, ← first]
  refine view_modifySymbol_known _ ?_ _ Symbol.innerClasses s
  rw [size_modifySymbol]
  exact known

end EnterClass

/-- A class is entered in an open scope, under the name of the class around it. -/
theorem Forest.enterClass {t : SymbolTable} (forest : t.Forest) {id : SymbolId}
    (isOpen : t.IsOpen (.symbol id)) (free : (t.symbol id).outer = none) {outer : Option ScopeRef}
    (around : ∀ s ∈ outer, t.IsOpen s) {head : Symbol → Symbol} (isHead : Symbol.IsHead head)
    (named : ∀ s ∈ outer, ∃ own, (t.symbol id).name
      = Resolution.memberName (t.symbol (t.enclosingSymbol s)).name own) :
    (t.enterClass id outer head).Forest := by
  have grows := Grows.enterClass t id outer isHead
  have view {β : Type} (view : Symbol → β)
      (keeps : ∀ (x : Symbol) (modifiers : Nat) (isInterface : Bool) (typeParams : List String)
        (outer : Option ScopeRef) (innerClasses : List SymbolId),
        view { x with modifiers, isInterface, typeParams, outer, innerClasses } = view x)
      (s : SymbolId) : view ((t.enterClass id outer head).symbol s) = view (t.symbol s) :=
    view_enterClass t id outer isHead s view keeps
  have name := view Symbol.name fun _ _ _ _ _ _ => rfl
  have state := view Symbol.state fun _ _ _ _ _ _ => rfl
  have size : (t.enterClass id outer head).size = t.size := by
    cases outer with
    | none => exact size_modifySymbol _ _ _
    | some scope => exact (size_modifySymbol _ _ _).trans (size_modifySymbol _ _ _)
  have methods : (t.enterClass id outer head).methods = t.methods := by cases outer <;> rfl
  have blocks : (t.enterClass id outer head).blocks = t.blocks := by cases outer <;> rfl
  have vars : (t.enterClass id outer head).vars = t.vars := by cases outer <;> rfl
  refine ⟨?_, ?_, ?_⟩
  · exact forest.scopes.keep_symbols grows methods blocks
      (view Symbol.methods fun _ _ _ _ _ _ => rfl) (view Symbol.initializers fun _ _ _ _ _ _ => rfl)
  · exact forest.vars.keep_symbols grows vars methods blocks
      (view Symbol.fields fun _ _ _ _ _ _ => rfl)
  · have outside (s : SymbolId) : ((t.enterClass id outer head).symbol s).outer
        = if s = id then outer else (t.symbol s).outer := enterClass_outer t id outer isOpen.1 s
    cases outer with
    | none =>
      -- a class at the top of a file had no scope around it, and has none
      refine forest.classes.keep grows forest.scopes size name (fun s => ?_) (fun s => ?_)
        fun s is => ?_
      · exact view_modifySymbol t id s Symbol.innerClasses fun x => by rw [isHead x]
      · rw [outside]
        split
        · next is => rw [is, free]
        · rfl
      · rw [← state]
        exact is
    | some scope =>
      have parentOpen := forest.scopes.enclosingSymbol_isOpen (around scope rfl)
      exact forest.classes.enter grows forest.scopes isOpen (around scope rfl) free size name state
        outside (enterClass_inner t id isHead parentOpen.1) (named scope rfl)

/-! ## Methods and blocks -/

/-- A method without variables and blocks is entered in an open class. -/
theorem Forest.addMethod {t : SymbolTable} (forest : t.Forest) {m : Method}
    (isOpen : t.IsOpen (.symbol m.owner)) (params : m.params = []) (vars : m.vars = [])
    (blocks : m.blocks = []) : (t.addMethod m).2.Forest := by
  have grows := Grows.addMethod t m
  have view {β : Type} (view : Symbol → β)
      (keeps : ∀ (x : Symbol) (methods : List MethodId), view { x with methods } = view x)
      (s : SymbolId) : view ((t.addMethod m).2.symbol s) = view (t.symbol s) :=
    view_modifySymbol { t with methods := t.methods.push m } m.owner s view fun x => keeps x _
  -- the new method shows like one beyond the end in what it has not got yet
  have blank {β : Type} (view : Method → β) (empty : view m = view default) (id : MethodId) :
      view ((t.addMethod m).2.method id) = view (t.method id) :=
    view_push t.methods id.val view empty
  have size : (t.addMethod m).2.size = t.size := size_modifySymbol _ _ _
  have lists (s : SymbolId) : ((t.addMethod m).2.symbol s).methods
      = if s = m.owner then (t.symbol s).methods ++ [⟨t.methods.size⟩] else (t.symbol s).methods :=
    view_modifySymbol_known { t with methods := t.methods.push m } isOpen.1 _ Symbol.methods s
  have owner (id : MethodId) : (t.addMethod m).2.methodOwner? id
      = if id ∈ [(⟨t.methods.size⟩ : MethodId)] then some m.owner else t.methodOwner? id := by
    simp only [List.mem_singleton, MethodId.ext_iff]
    exact owner_push t.methods m default Method.owner id.val
  refine ⟨?_, ?_, ?_⟩
  · refine ⟨?_, ?_, fun id o is => ?_, fun id o is => ?_, fun id o is => ?_⟩
    · -- the id of the new method is the next one, so no class lists it yet
      refine forest.scopes.methods.add (List.nodup_singleton _) (fun id new => ?_) lists owner
      obtain rfl := List.mem_singleton.1 new
      exact if_neg (Nat.lt_irrefl _)
    · refine forest.scopes.blocks.congr (fun s => ?_) fun _ => rfl
      cases s with
      | symbol s => exact view Symbol.initializers (fun _ _ => rfl) s
      | method id => exact blank Method.blocks blocks id
      | block b => rfl
    · rw [owner] at is
      split at is
      · obtain rfl := Option.some.inj is
        exact grows.isOpen isOpen
      · exact grows.isOpen (forest.scopes.methodOpen id o is)
    · exact grows.isOpen (forest.scopes.blockOpen id o is)
    · exact forest.scopes.inward id o is
  · refine forest.vars.keep grows (fun s => ?_) (fun _ => rfl) (blank Method.params params)
    cases s with
    | symbol s => exact view Symbol.fields (fun _ _ => rfl) s
    | method id => exact blank Method.vars vars id
    | block b => rfl
  · refine forest.classes.keep grows forest.scopes size (view Symbol.name fun _ _ => rfl)
      (view Symbol.innerClasses fun _ _ => rfl) (view Symbol.outer fun _ _ => rfl) fun s is => ?_
    rw [← view Symbol.state fun _ _ => rfl]
    exact is

theorem listBlock_blocksOf {t : SymbolTable} {outer : ScopeRef} (isOpen : t.IsOpen outer)
    (id : BlockId) (s : ScopeRef) :
    (t.listBlock outer id).blocksOf s
      = if s = outer then t.blocksOf s ++ [id] else t.blocksOf s := by
  cases outer with
  | symbol parent =>
    cases s with
    | symbol s =>
      simp only [ScopeRef.symbol.injEq]
      exact view_modifySymbol_known t isOpen.1 _ Symbol.initializers s
    | method m | block b => rfl
  | method parent =>
    cases s with
    | method m =>
      simp only [ScopeRef.method.injEq]
      exact view_modifyMethod_known t isOpen _ Method.blocks m
    | symbol s | block b => rfl
  | block parent =>
    cases s with
    | block b =>
      simp only [ScopeRef.block.injEq]
      exact view_modifyBlock_known t isOpen _ Block.blocks b
    | symbol s | method m => rfl

section ListBlock

variable (t : SymbolTable) (outer : ScopeRef) (id : BlockId)

theorem listBlock_symbol {β : Type} (view : Symbol → β)
    (keeps : ∀ (x : Symbol) (initializers : List BlockId), view { x with initializers } = view x)
    (s : SymbolId) : view ((t.listBlock outer id).symbol s) = view (t.symbol s) := by
  cases outer with
  | symbol parent => exact view_modifySymbol t parent s view fun x => keeps x _
  | method parent => rfl
  | block parent => rfl

theorem listBlock_method {β : Type} (view : Method → β)
    (keeps : ∀ (x : Method) (blocks : List BlockId), view { x with blocks } = view x)
    (m : MethodId) : view ((t.listBlock outer id).method m) = view (t.method m) := by
  cases outer with
  | symbol parent => rfl
  | method parent => exact view_modifyMethod t parent m view fun x => keeps x _
  | block parent => rfl

theorem listBlock_block {β : Type} (view : Block → β)
    (keeps : ∀ (x : Block) (blocks : List BlockId), view { x with blocks } = view x)
    (b : BlockId) : view ((t.listBlock outer id).block b) = view (t.block b) := by
  cases outer with
  | symbol parent => rfl
  | method parent => rfl
  | block parent => exact view_modifyBlock t parent b view fun x => keeps x _

theorem listBlock_sizes : (t.listBlock outer id).size = t.size
    ∧ (t.listBlock outer id).methods.size = t.methods.size
    ∧ (t.listBlock outer id).blocks.size = t.blocks.size ∧ (t.listBlock outer id).vars = t.vars := by
  cases outer with
  | symbol parent => exact ⟨size_modifySymbol _ _ _, rfl, rfl, rfl⟩
  | method parent => exact ⟨rfl, by simp [listBlock, modifyMethod], rfl, rfl⟩
  | block parent => exact ⟨rfl, rfl, by simp [listBlock, modifyBlock], rfl⟩

end ListBlock

section AddBlock

variable (t : SymbolTable) (outer : ScopeRef)

theorem addBlock_symbol {β : Type} (view : Symbol → β)
    (keeps : ∀ (x : Symbol) (initializers : List BlockId), view { x with initializers } = view x)
    (s : SymbolId) : view ((t.addBlock outer).2.symbol s) = view (t.symbol s) := by
  rw [addBlock_table, listBlock_symbol _ _ _ view keeps]
  rfl

theorem addBlock_method {β : Type} (view : Method → β)
    (keeps : ∀ (x : Method) (blocks : List BlockId), view { x with blocks } = view x)
    (m : MethodId) : view ((t.addBlock outer).2.method m) = view (t.method m) := by
  rw [addBlock_table, listBlock_method _ _ _ view keeps]
  rfl

/-- A new block shows like no block in what neither says where it lies nor which blocks lie in it. -/
theorem addBlock_block {β : Type} (view : Block → β)
    (keeps : ∀ (x : Block) (blocks : List BlockId), view { x with blocks } = view x)
    (empty : view { outer, vars := [], blocks := [] } = view default) (b : BlockId) :
    view ((t.addBlock outer).2.block b) = view (t.block b) := by
  rw [addBlock_table, listBlock_block _ _ _ view keeps]
  exact view_push t.blocks b.val view empty

theorem addBlock_sizes : (t.addBlock outer).2.size = t.size
    ∧ (t.addBlock outer).2.methods.size = t.methods.size ∧ (t.addBlock outer).2.vars = t.vars := by
  rw [addBlock_table]
  obtain ⟨size, methods, -, vars⟩ := listBlock_sizes
    { t with blocks := t.blocks.push { outer, vars := [], blocks := [] } } outer ⟨t.blocks.size⟩
  exact ⟨size, methods, vars⟩

theorem addBlock_blockOuter (b : BlockId) : (t.addBlock outer).2.blockOuter? b
    = if b ∈ [(⟨t.blocks.size⟩ : BlockId)] then some outer else t.blockOuter? b := by
  rw [addBlock_table]
  obtain ⟨-, -, blocks, -⟩ := listBlock_sizes
    { t with blocks := t.blocks.push { outer, vars := [], blocks := [] } } outer ⟨t.blocks.size⟩
  rw [blockOuter?, blocks, listBlock_block _ _ _ Block.outer fun _ _ => rfl]
  simp only [List.mem_singleton, BlockId.ext_iff]
  exact owner_push t.blocks { outer, vars := [], blocks := [] } default Block.outer b.val

theorem addBlock_methodOwner (m : MethodId) :
    (t.addBlock outer).2.methodOwner? m = t.methodOwner? m := by
  rw [methodOwner?, methodOwner?, (t.addBlock_sizes outer).2.1,
    t.addBlock_method outer Method.owner fun _ _ => rfl]

theorem addBlock_blocksOf {outer : ScopeRef} (isOpen : t.IsOpen outer) (s : ScopeRef) :
    (t.addBlock outer).2.blocksOf s
      = if s = outer then t.blocksOf s ++ [⟨t.blocks.size⟩] else t.blocksOf s := by
  have pushed : ({ t with blocks := t.blocks.push { outer, vars := [], blocks := [] } } :
      SymbolTable).blocksOf s = t.blocksOf s := by
    cases s with
    | symbol s | method m => rfl
    | block b => exact view_push t.blocks b.val Block.blocks rfl
  rw [addBlock_table, listBlock_blocksOf ((Grows.pushBlock t _).isOpen isOpen), pushed]

end AddBlock

/-- A block is entered in an open scope. -/
theorem Forest.addBlock {t : SymbolTable} (forest : t.Forest) {outer : ScopeRef}
    (isOpen : t.IsOpen outer) : (t.addBlock outer).2.Forest := by
  have grows := Grows.addBlock t outer
  obtain ⟨size, methods, vars⟩ := t.addBlock_sizes outer
  refine ⟨⟨?_, ?_, fun m o is => ?_, fun b o is => ?_, fun b o is => ?_⟩, ?_, ?_⟩
  · exact forest.scopes.methods.congr (t.addBlock_symbol outer Symbol.methods fun _ _ => rfl)
      (t.addBlock_methodOwner outer)
  · refine forest.scopes.blocks.add (List.nodup_singleton _) (fun b new => ?_)
      (t.addBlock_blocksOf isOpen) (t.addBlock_blockOuter outer)
    obtain rfl := List.mem_singleton.1 new
    exact if_neg (Nat.lt_irrefl _)
  · rw [addBlock_methodOwner] at is
    exact grows.isOpen (forest.scopes.methodOpen m o is)
  · rw [addBlock_blockOuter] at is
    split at is
    · obtain rfl := Option.some.inj is
      exact grows.isOpen isOpen
    · exact grows.isOpen (forest.scopes.blockOpen b o is)
  · -- a new block has the highest number
    rw [addBlock_blockOuter] at is
    split at is
    · next new =>
      obtain rfl := List.mem_singleton.1 new
      obtain rfl := Option.some.inj is
      exact isOpen
    · exact forest.scopes.inward b o is
  · refine forest.vars.keep grows (fun s => ?_) (fun v => ?_)
      (t.addBlock_method outer Method.params fun _ _ => rfl)
    · cases s with
      | symbol s => exact t.addBlock_symbol outer Symbol.fields (fun _ _ => rfl) s
      | method m => exact t.addBlock_method outer Method.vars (fun _ _ => rfl) m
      | block b => exact t.addBlock_block outer Block.vars (fun _ _ => rfl) rfl b
    · rw [varScope?, varScope?, var, var, vars]
  · have view {β : Type} (view : Symbol → β)
        (keeps : ∀ (x : Symbol) (initializers : List BlockId), view { x with initializers } = view x)
        (s : SymbolId) := t.addBlock_symbol outer view keeps s
    refine forest.classes.keep grows forest.scopes size (view Symbol.name fun _ _ => rfl)
      (view Symbol.innerClasses fun _ _ => rfl) (view Symbol.outer fun _ _ => rfl) fun s is => ?_
    rw [← view Symbol.state fun _ _ => rfl]
    exact is

/-! ## Variables -/

/-- The table lists new variables in a scope, and differs in nothing else that the forest is about. -/
structure Lists (t t' : SymbolTable) (scope : ScopeRef) (vs : List Variable) : Prop where
  vars : t'.vars = (t.appendVars vs).vars
  lists : ∀ s, t'.varsOf s
    = if s = scope then t.varsOf s ++ t.nextVariables vs.length else t.varsOf s
  params : ∀ id, (t'.method id).params <+: (t'.method id).vars
  size : t'.size = t.size
  symbol : ∀ s, (t'.symbol s).shape = { (t.symbol s).shape with fields := (t'.symbol s).fields }
  state : ∀ s, (t'.symbol s).state = (t.symbol s).state
  methods : t'.methods.size = t.methods.size
  owner : ∀ id, (t'.method id).owner = (t.method id).owner
  name : ∀ id, (t'.method id).name = (t.method id).name
  isConstructor : ∀ id, (t'.method id).isConstructor = (t.method id).isConstructor
  blocks : t'.blocks.size = t.blocks.size
  outer : ∀ id, (t'.block id).outer = (t.block id).outer
  blocksOf : ∀ s, t'.blocksOf s = t.blocksOf s

theorem Lists.grows {t t' : SymbolTable} {scope : ScopeRef} {vs : List Variable}
    (lists : Lists t t' scope vs) : Grows t t' where
  symbols := lists.size.ge
  methods := lists.methods.ge
  vars := by
    rw [lists.vars]
    exact (Grows.appendVars t vs).vars
  blocks := lists.blocks.ge
  name id _ := by
    have name := congrArg Symbol.name (lists.symbol id)
    exact name
  declared id _ declared := by
    rw [Symbol.isDeclared, lists.state]
    exact declared
  owner id _ := lists.owner id
  outer id _ := lists.outer id

/-- New variables are listed in an open scope. -/
theorem Forest.list {t t' : SymbolTable} (forest : t.Forest) {scope : ScopeRef}
    (isOpen : t.IsOpen scope) {vs : List Variable} (areNew : ∀ v ∈ vs, v.enclosing = scope)
    (lists : Lists t t' scope vs) : t'.Forest := by
  have grows := lists.grows
  have view {β : Type} (view : Symbol → β)
      (keeps : ∀ (x : Symbol) (fields : List VariableId), view { x with fields } = view x)
      (s : SymbolId) : view (t'.symbol s).shape = view (t.symbol s).shape := by
    rw [lists.symbol, keeps]
  have varScope (v : VariableId) : t'.varScope? v
      = if v ∈ t.nextVariables vs.length then some scope else t.varScope? v := by
    rw [varScope?, var, lists.vars]
    simp only [mem_nextVariables]
    exact owner_append t.vars vs default Variable.enclosing areNew v.val
  refine ⟨?_, ⟨?_, fun v s is => ?_, lists.params⟩, ?_⟩
  · refine forest.scopes.keep grows (view Symbol.methods fun _ _ => rfl) (fun m => ?_) lists.blocksOf
      fun b => ?_
    · rw [methodOwner?, methodOwner?, lists.methods, lists.owner]
    · rw [blockOuter?, blockOuter?, lists.blocks, lists.outer]
  · refine forest.vars.lists.add (t.nodup_nextVariables _) (fun v new => ?_) lists.lists varScope
    exact if_neg (Nat.not_lt.2 (mem_nextVariables.1 new).1)
  · rw [varScope] at is
    split at is
    · obtain rfl := Option.some.inj is
      exact grows.isOpen isOpen
    · exact grows.isOpen (forest.vars.varOpen v s is)
  · refine forest.classes.keep grows forest.scopes lists.size (view Symbol.name fun _ _ => rfl)
      (view Symbol.innerClasses fun _ _ => rfl) (view Symbol.outer fun _ _ => rfl) fun s is => ?_
    rw [← lists.state]
    exact is

/-- Fields are listed in their class. -/
theorem addFields_lists {t : SymbolTable} (lists : t.VariableLists) {id : SymbolId}
    (isOpen : t.IsOpen (.symbol id)) (vs : List Variable) :
    Lists t (t.addFields id vs).2 (.symbol id) vs := by
  rw [addFields_table]
  have read (s : SymbolId) := symbol_modifySymbol (t.appendVars vs) id s fun x =>
    { x with fields := x.fields ++ t.nextVariables vs.length }
  have view {β : Type} (view : Symbol → β)
      (keeps : ∀ (x : Symbol) (fields : List VariableId), view { x with fields } = view x)
      (s : SymbolId) := view_modifySymbol (t.appendVars vs) id s view fun x =>
        keeps x (x.fields ++ t.nextVariables vs.length)
  refine ⟨rfl, fun s => ?_, lists.params, size_modifySymbol _ _ _, fun s => ?_, ?_, rfl,
    fun _ => rfl, fun _ => rfl, fun _ => rfl, rfl, fun _ => rfl, fun s => ?_⟩
  · cases s with
    | symbol s =>
      simp only [ScopeRef.symbol.injEq]
      exact view_modifySymbol_known (t.appendVars vs) isOpen.1 _ Symbol.fields s
    | method m | block b => rfl
  · rw [read]
    split
    · rfl
    · rfl
  · exact view Symbol.state fun _ _ => rfl
  · cases s with
    | symbol s => exact view Symbol.initializers (fun _ _ => rfl) s
    | method m => rfl
    | block b => rfl

theorem Forest.addFields {t : SymbolTable} (forest : t.Forest) {id : SymbolId}
    (isOpen : t.IsOpen (.symbol id)) {vs : List Variable}
    (areNew : ∀ v ∈ vs, v.enclosing = .symbol id) : (t.addFields id vs).2.Forest :=
  forest.list isOpen areNew (addFields_lists forest.vars isOpen vs)

/-- New variables are listed in a method. -/
theorem listInMethod_lists {t : SymbolTable} (kept : t.VariableLists) {id : MethodId}
    (isOpen : t.IsOpen (.method id)) {vs : List Variable} {f : Method → Method}
    (lists : ∀ m, (f m).vars = m.vars ++ t.nextVariables vs.length)
    (keeps : ∀ m, f m = { m with params := (f m).params, vars := (f m).vars })
    (params : (f (t.method id)).params <+: (f (t.method id)).vars) :
    Lists t ((t.appendVars vs).modifyMethod id f) (.method id) vs := by
  have read (m : MethodId) := method_modifyMethod (t.appendVars vs) id m f
  have view {β : Type} (view : Method → β)
      (blind : ∀ (x : Method) (params vars : List VariableId), view { x with params, vars } = view x)
      (m : MethodId) := view_modifyMethod (f := f) (t.appendVars vs) id m view fun x => by
        have same := blind x (f x).params (f x).vars
        rw [← keeps x] at same
        exact same
  refine ⟨rfl, fun s => ?_, fun m => ?_, rfl, fun _ => rfl, fun _ => rfl, ?_,
    view Method.owner fun _ _ _ => rfl, view Method.name fun _ _ _ => rfl,
    view Method.isConstructor fun _ _ _ => rfl, rfl, fun _ => rfl, fun s => ?_⟩
  · cases s with
    | symbol s => rfl
    | method m =>
      have listed := view_modifyMethod_known (t.appendVars vs) isOpen f Method.vars m
      rw [lists] at listed
      simp only [ScopeRef.method.injEq]
      exact listed
    | block b => rfl
  · -- only in the method itself could the parameters come to stand elsewhere
    rw [read]
    split
    · next is =>
      rw [is.1]
      exact params
    · exact kept.params m
  · simp [modifyMethod, appendVars]
  · cases s with
    | symbol s => rfl
    | method m => exact view Method.blocks (fun _ _ _ => rfl) m
    | block b => rfl

theorem addParams_lists {t : SymbolTable} (lists : t.VariableLists) {id : MethodId}
    (isOpen : t.IsOpen (.method id)) (only : (t.method id).vars = (t.method id).params)
    (vs : List Variable) : Lists t (t.addParams id vs).2 (.method id) vs := by
  rw [addParams_table]
  refine listInMethod_lists lists isOpen (fun _ => rfl) (fun _ => rfl) ?_
  -- a method without other variables has its parameters first
  rw [only]

theorem Forest.addParams {t : SymbolTable} (forest : t.Forest) {id : MethodId}
    (isOpen : t.IsOpen (.method id)) (only : (t.method id).vars = (t.method id).params)
    {vs : List Variable} (areNew : ∀ v ∈ vs, v.enclosing = .method id) :
    (t.addParams id vs).2.Forest :=
  forest.list isOpen areNew (addParams_lists forest.vars isOpen only vs)

/-- Local variables are listed in their body. -/
theorem addVars_lists {t : SymbolTable} (lists : t.VariableLists) {body : BodyId}
    (isOpen : t.IsOpen body.scope) (vs : List Variable) (policy : DuplicateScope) :
    Lists t (t.addVars body vs policy).2 body.scope vs := by
  rw [addVars_table]
  cases body with
  | method id =>
    refine listInMethod_lists lists isOpen (fun _ => rfl) (fun _ => rfl) ?_
    exact (lists.params id).trans (List.prefix_append _ _)
  | block id =>
    have read (b : BlockId) := block_modifyBlock (t.appendVars vs) id b fun x =>
      { x with vars := x.vars ++ t.nextVariables vs.length }
    refine ⟨rfl, fun s => ?_, lists.params, rfl, fun _ => rfl, fun _ => rfl, rfl, fun _ => rfl,
      fun _ => rfl, fun _ => rfl, ?_, fun b => ?_, fun s => ?_⟩
    · cases s with
      | symbol s => rfl
      | method m => rfl
      | block b =>
        simp only [BodyId.scope, ScopeRef.block.injEq]
        exact view_modifyBlock_known (t.appendVars vs) isOpen _ Block.vars b
    · simp [listVars, modifyBlock, appendVars]
    · rw [listVars, read]
      split
      · rfl
      · rfl
    · cases s with
      | symbol s => rfl
      | method m => rfl
      | block b =>
        rw [blocksOf, listVars, read]
        split
        · rfl
        · rfl

theorem Forest.addVars {t : SymbolTable} (forest : t.Forest) {body : BodyId}
    (isOpen : t.IsOpen body.scope) {vs : List Variable}
    (areNew : ∀ v ∈ vs, v.enclosing = body.scope) (policy : DuplicateScope) :
    (t.addVars body vs policy).2.Forest :=
  forest.list isOpen areNew (addVars_lists forest.vars isOpen vs policy)

/-! ## The table that a run starts from -/

/-- The table holds nothing but classes, and they have neither members nor scopes around them. -/
structure Bare (t : SymbolTable) : Prop where
  methods : t.methods = #[]
  vars : t.vars = #[]
  blocks : t.blocks = #[]
  symbols : ∀ s ∈ t.symbols.toList, s.methods = [] ∧ s.fields = [] ∧ s.initializers = []
    ∧ s.innerClasses = [] ∧ s.outer = none

namespace Bare

variable {t : SymbolTable} (bare : t.Bare)
include bare

theorem symbol (id : SymbolId) : (t.symbol id).methods = [] ∧ (t.symbol id).fields = []
    ∧ (t.symbol id).initializers = [] ∧ (t.symbol id).innerClasses = []
    ∧ (t.symbol id).outer = none := by
  rw [SymbolTable.symbol, Array.getD_eq_getD_getElem?]
  cases found : t.symbols[id.val]? with
  | none => exact ⟨rfl, rfl, rfl, rfl, rfl⟩
  | some s => exact bare.symbols s (Array.mem_toList_iff.2 (Array.mem_of_getElem? found))

theorem method (id : MethodId) : t.method id = default := by
  rw [SymbolTable.method, bare.methods]
  rfl

theorem block (id : BlockId) : t.block id = default := by
  rw [SymbolTable.block, bare.blocks]
  rfl

theorem scopes : t.ScopeTree := by
  have noMethod (id : MethodId) : t.methodOwner? id = none := by
    rw [methodOwner?, bare.methods]
    exact if_neg (Nat.not_lt_zero _)
  have noBlock (id : BlockId) : t.blockOuter? id = none := by
    rw [blockOuter?, bare.blocks]
    exact if_neg (Nat.not_lt_zero _)
  refine ⟨.of_empty (fun s => (bare.symbol s).1) noMethod, .of_empty (fun s => ?_) noBlock,
    fun id owner is => ?_, fun id outer is => ?_, fun id outer is => ?_⟩
  · cases s with
    | symbol s => exact (bare.symbol s).2.2.1
    | method m => rw [blocksOf, bare.method]; rfl
    | block b => rw [blocksOf, bare.block]; rfl
  · rw [noMethod] at is
    cases is
  · rw [noBlock] at is
    cases is
  · rw [noBlock] at is
    cases is

theorem variableLists : t.VariableLists := by
  have noVar (id : VariableId) : t.varScope? id = none := by
    rw [varScope?, bare.vars]
    exact if_neg (Nat.not_lt_zero _)
  refine ⟨.of_empty (fun s => ?_) noVar, fun id scope is => ?_, fun id => ?_⟩
  · cases s with
    | symbol s => exact (bare.symbol s).2.1
    | method m => rw [varsOf, bare.method]; rfl
    | block b => rw [varsOf, bare.block]; rfl
  · rw [noVar] at is
    cases is
  · rw [bare.method]
    exact List.prefix_rfl

theorem classTree (names : (t.symbols.toList.map Symbol.name).Nodup) : t.ClassTree := by
  have noScope (id : SymbolId) : (t.symbol id).outer = none := (bare.symbol id).2.2.2.2
  have noClass (id : SymbolId) : t.outerClass? id = none := by
    rw [outerClass?, noScope, Option.map_none]
  refine ⟨.of_nodup names, .of_empty (fun s => (bare.symbol s).2.2.2.1) noClass,
    fun id scope is => ?_, fun id _ => noScope id, fun id outer is => ?_⟩
  · rw [noScope] at is
    cases is
  · rw [noClass] at is
    cases is

/-- Classes without members and scopes around them are a forest, if their names differ. -/
theorem forest (names : (t.symbols.toList.map Symbol.name).Nodup) : t.Forest :=
  ⟨bare.scopes, bare.variableLists, bare.classTree names⟩

end Bare

theorem seeded_bare : seeded.Bare := ⟨rfl, rfl, rfl, by decide +kernel⟩

theorem seeded_forest : seeded.Forest := seeded_bare.forest (by decide +kernel)

end SymbolTable

end LevelCheck
