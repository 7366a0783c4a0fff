import LevelCheck.Proofs.Growth
set_option autoImplicit false

/-! # The table as a forest of scopes

Every record that lies in a scope is listed by that scope and by no other, and only once. Methods lie
in a class, blocks and variables in any scope, and an inner class is listed by the class around its
scope. Whatever lies in a scope lies in an open one: a class that is only referred to has no members
and no scope around it. Blocks are entered from the outside in, so the way outward from a block ends
at a class, and the names of nested classes grow inward.

`Forest` collects this; each way of changing the table that a walk knows keeps it. -/

namespace LevelCheck

/-! ## Lists that divide ids among owners -/

/-- Each id is listed once by its owner, and by no other; an id without an owner is not listed. -/
def Divides {κ ι : Type} [DecidableEq κ] [DecidableEq ι] (list : κ → List ι)
    (owner? : ι → Option κ) : Prop :=
  ∀ k i, (list k).count i = if owner? i = some k then 1 else 0

section Divides

variable {κ ι : Type} [DecidableEq κ] [DecidableEq ι] {list list' : κ → List ι}
  {owner? owner?' : ι → Option κ}

theorem Divides.congr (divides : Divides list owner?) (lists : ∀ k, list' k = list k)
    (owners : ∀ i, owner?' i = owner? i) : Divides list' owner?' := by
  intro k i
  rw [lists, owners]
  exact divides k i

theorem Divides.of_empty (lists : ∀ k, list k = []) (owners : ∀ i, owner? i = none) :
    Divides list owner? := by
  intro k i
  rw [lists, owners, List.count_nil, if_neg nofun]

/-- New ids are appended to the list of their owner. -/
theorem Divides.add (divides : Divides list owner?) {owner : κ} {new : List ι} (nodup : new.Nodup)
    (free : ∀ i ∈ new, owner? i = none)
    (lists : ∀ k, list' k = if k = owner then list k ++ new else list k)
    (owners : ∀ i, owner?' i = if i ∈ new then some owner else owner? i) :
    Divides list' owner?' := by
  intro k i
  rw [lists, owners]
  by_cases isNew : i ∈ new
  · -- no one listed a new id before
    have before : (list k).count i = 0 := by rw [divides k i, free i isNew, if_neg nofun]
    rw [if_pos isNew]
    by_cases isOwner : k = owner
    · rw [if_pos isOwner, List.count_append, before, List.count_eq_one_of_mem nodup isNew, isOwner,
        if_pos rfl]
    · rw [if_neg isOwner, before, if_neg fun h => isOwner (Option.some.inj h).symm]
  · -- an older id is listed as often as it was
    have absent : new.count i = 0 := List.count_eq_zero.2 isNew
    rw [if_neg isNew, ← divides k i]
    split
    · rw [List.count_append, absent, Nat.add_zero]
    · rfl

end Divides

namespace SymbolTable

/-! ## Who lists what -/

/-- The class that a method belongs to. -/
def methodOwner? (t : SymbolTable) (id : MethodId) : Option SymbolId :=
  if id.val < t.methods.size then some (t.method id).owner else none

/-- The scope around a block. -/
def blockOuter? (t : SymbolTable) (id : BlockId) : Option ScopeRef :=
  if id.val < t.blocks.size then some (t.block id).outer else none

/-- The scope that a variable is declared in. -/
def varScope? (t : SymbolTable) (id : VariableId) : Option ScopeRef :=
  if id.val < t.vars.size then some (t.var id).enclosing else none

/-- The class around a class. -/
def outerClass? (t : SymbolTable) (id : SymbolId) : Option SymbolId :=
  (t.symbol id).outer.map t.enclosingSymbol

/-- The blocks that lie directly in a scope; those of a class are its initializers. -/
def blocksOf (t : SymbolTable) : ScopeRef → List BlockId
  | .symbol id => (t.symbol id).initializers
  | .method id => (t.method id).blocks
  | .block id => (t.block id).blocks

/-- Methods and blocks are listed by the scopes they lie in, which are open, and blocks are entered
from the outside in. -/
structure ScopeTree (t : SymbolTable) : Prop where
  methods : Divides (fun s => (t.symbol s).methods) t.methodOwner?
  blocks : Divides t.blocksOf t.blockOuter?
  methodOpen : ∀ id owner, t.methodOwner? id = some owner → t.IsOpen (.symbol owner)
  blockOpen : ∀ id outer, t.blockOuter? id = some outer → t.IsOpen outer
  inward : ∀ id outer, t.blockOuter? id = some (.block outer) → outer.val < id.val

/-- Variables are listed by the scopes they are declared in, which are open; the parameters of a
method come first. -/
structure VariableLists (t : SymbolTable) : Prop where
  lists : Divides t.varsOf t.varScope?
  varOpen : ∀ id scope, t.varScope? id = some scope → t.IsOpen scope
  params : ∀ id, (t.method id).params <+: (t.method id).vars

/-- Classes have names of their own. A class in a scope is listed by the class around it and carries
its name; the scope is open, and the class has been declared. -/
structure ClassTree (t : SymbolTable) : Prop where
  names : t.UniqueNames
  inner : Divides (fun s => (t.symbol s).innerClasses) t.outerClass?
  outerOpen : ∀ id scope, (t.symbol id).outer = some scope → t.IsOpen scope
  undeclared : ∀ id, (t.symbol id).state = .placeholder → (t.symbol id).outer = none
  named : ∀ id outer, t.outerClass? id = some outer →
    ∃ own, (t.symbol id).name = Resolution.memberName (t.symbol outer).name own

/-- The records of the table are the nodes of a forest. -/
structure Forest (t : SymbolTable) : Prop where
  scopes : t.ScopeTree
  vars : t.VariableLists
  classes : t.ClassTree

/-! ## The way outward -/

namespace ScopeTree

variable {t t' : SymbolTable} (scopes : t.ScopeTree)
include scopes

theorem outer_isOpen {id : BlockId} (isOpen : t.IsOpen (.block id)) :
    t.IsOpen (t.block id).outer :=
  scopes.blockOpen id _ (if_pos isOpen)

theorem owner_isOpen {id : MethodId} (isOpen : t.IsOpen (.method id)) :
    t.IsOpen (.symbol (t.method id).owner) :=
  scopes.methodOpen id _ (if_pos isOpen)

/-- On the way outward from a block, more steps than its number lead no further; and a table that
has grown leads the same way. -/
theorem enclosingSymbolFrom_of_grows (grows : Grows t t') {scope : ScopeRef}
    (isOpen : t.IsOpen scope) (n m : Nat)
    (enough : ∀ id, scope = .block id → id.val < n ∧ id.val < m) :
    t'.enclosingSymbolFrom n scope = t.enclosingSymbolFrom m scope := by
  induction n generalizing m scope with
  | zero => cases scope with
    | symbol id => simp only [enclosingSymbolFrom]
    | method id => simp only [enclosingSymbolFrom, grows.owner id isOpen]
    | block id => exact absurd (enough id rfl).1 (Nat.not_lt_zero _)
  | succ n ih => cases scope with
    | symbol id => simp only [enclosingSymbolFrom]
    | method id => simp only [enclosingSymbolFrom, grows.owner id isOpen]
    | block id =>
      obtain ⟨below, below'⟩ := enough id rfl
      cases m with
      | zero => exact absurd below' (Nat.not_lt_zero _)
      | succ m =>
        -- the block outside has a lower number, so fewer steps are enough for it
        rw [enclosingSymbolFrom, enclosingSymbolFrom, grows.outer id isOpen]
        refine ih (scopes.outer_isOpen isOpen) m fun outer is => ?_
        have inward := scopes.inward id outer (is ▸ if_pos isOpen)
        omega

theorem enclosingSymbol_of_grows (grows : Grows t t') {scope : ScopeRef} (isOpen : t.IsOpen scope) :
    t'.enclosingSymbol scope = t.enclosingSymbol scope := by
  refine scopes.enclosingSymbolFrom_of_grows grows isOpen _ _ fun id is => ?_
  subst is
  have known : id.val < t.blocks.size := isOpen
  have more := grows.blocks
  omega

/-- The class around a block is the class around the scope that the block lies in. -/
theorem enclosingSymbol_block {id : BlockId} (isOpen : t.IsOpen (.block id)) :
    t.enclosingSymbol (.block id) = t.enclosingSymbol (t.block id).outer := by
  rw [enclosingSymbol, enclosingSymbolFrom]
  refine scopes.enclosingSymbolFrom_of_grows (.refl t) (scopes.outer_isOpen isOpen) _ _
    fun outer is => ?_
  have inward := scopes.inward id outer (is ▸ if_pos isOpen)
  have known : id.val < t.blocks.size := isOpen
  omega

/-- The class around an open scope is open. -/
theorem enclosingSymbol_isOpen {scope : ScopeRef} (isOpen : t.IsOpen scope) :
    t.IsOpen (.symbol (t.enclosingSymbol scope)) := by
  -- on the way outward the numbers of the blocks go down
  have block (n : Nat) : ∀ id : BlockId, id.val < n → t.IsOpen (.block id) →
      t.IsOpen (.symbol (t.enclosingSymbol (.block id))) := by
    induction n with
    | zero => exact fun id below => absurd below (Nat.not_lt_zero _)
    | succ n ih =>
      intro id below isOpen
      rw [scopes.enclosingSymbol_block isOpen]
      have outside := scopes.outer_isOpen isOpen
      have inward (outer : BlockId) (is : (t.block id).outer = .block outer) :=
        scopes.inward id outer (is ▸ if_pos isOpen)
      cases outer : (t.block id).outer with
      | symbol owner =>
        rw [outer] at outside
        exact outside
      | method m =>
        rw [outer] at outside
        exact scopes.owner_isOpen outside
      | block b =>
        rw [outer] at outside
        have := inward b outer
        exact ih b (by omega) outside
  cases scope with
  | symbol id => exact isOpen
  | method id => exact scopes.owner_isOpen isOpen
  | block id => exact block (id.val + 1) id (Nat.lt_succ_self _) isOpen

end ScopeTree

/-! ## What leaves a part of the forest alone -/

section Keep

variable {t t' : SymbolTable} (grows : Grows t t')
include grows

theorem ScopeTree.keep (scopes : t.ScopeTree)
    (methods : ∀ s, (t'.symbol s).methods = (t.symbol s).methods)
    (owner : ∀ id, t'.methodOwner? id = t.methodOwner? id)
    (blocks : ∀ s, t'.blocksOf s = t.blocksOf s)
    (outer : ∀ id, t'.blockOuter? id = t.blockOuter? id) : t'.ScopeTree where
  methods := scopes.methods.congr methods owner
  blocks := scopes.blocks.congr blocks outer
  methodOpen id o is := grows.isOpen (scopes.methodOpen id o (by rw [← owner id, is]))
  blockOpen id o is := grows.isOpen (scopes.blockOpen id o (by rw [← outer id, is]))
  inward id o is := scopes.inward id o (by rw [← outer id, is])

theorem VariableLists.keep (vars : t.VariableLists)
    (lists : ∀ s, t'.varsOf s = t.varsOf s) (scope : ∀ id, t'.varScope? id = t.varScope? id)
    (params : ∀ id, (t'.method id).params = (t.method id).params) : t'.VariableLists where
  lists := vars.lists.congr lists scope
  varOpen id s is := grows.isOpen (vars.varOpen id s (by rw [← scope id, is]))
  params id := by
    have same : (t'.method id).vars = (t.method id).vars := lists (.method id)
    rw [params, same]
    exact vars.params id

/-- Changing classes keeps the tree of methods and blocks, as long as their lists stay. -/
theorem ScopeTree.keep_symbols (scopes : t.ScopeTree) (sameMethods : t'.methods = t.methods)
    (sameBlocks : t'.blocks = t.blocks)
    (methods : ∀ s, (t'.symbol s).methods = (t.symbol s).methods)
    (initializers : ∀ s, (t'.symbol s).initializers = (t.symbol s).initializers) :
    t'.ScopeTree := by
  refine scopes.keep grows methods (fun m => ?_) (fun s => ?_) fun b => ?_
  · rw [methodOwner?, methodOwner?, method, method, sameMethods]
  · cases s with
    | symbol s => exact initializers s
    | method m => rw [blocksOf, blocksOf, method, method, sameMethods]
    | block b => rw [blocksOf, blocksOf, block, block, sameBlocks]
  · rw [blockOuter?, blockOuter?, block, block, sameBlocks]

theorem VariableLists.keep_symbols (vars : t.VariableLists) (sameVars : t'.vars = t.vars)
    (sameMethods : t'.methods = t.methods) (sameBlocks : t'.blocks = t.blocks)
    (fields : ∀ s, (t'.symbol s).fields = (t.symbol s).fields) : t'.VariableLists := by
  refine vars.keep grows (fun s => ?_) (fun v => ?_) fun m => ?_
  · cases s with
    | symbol s => exact fields s
    | method m => rw [varsOf, varsOf, method, method, sameMethods]
    | block b => rw [varsOf, varsOf, block, block, sameBlocks]
  · rw [varScope?, varScope?, var, var, sameVars]
  · rw [method, method, sameMethods]

theorem ClassTree.keep (classes : t.ClassTree) (scopes : t.ScopeTree) (size : t'.size = t.size)
    (name : ∀ id, (t'.symbol id).name = (t.symbol id).name)
    (inner : ∀ id, (t'.symbol id).innerClasses = (t.symbol id).innerClasses)
    (outer : ∀ id, (t'.symbol id).outer = (t.symbol id).outer)
    (undeclared : ∀ id, (t'.symbol id).state = .placeholder → (t.symbol id).state = .placeholder) :
    t'.ClassTree := by
  -- the scope around a class is open, so the way outward from it is still the same
  have outerClass (id : SymbolId) : t'.outerClass? id = t.outerClass? id := by
    rw [outerClass?, outerClass?, outer]
    refine Option.map_congr fun scope is => ?_
    exact scopes.enclosingSymbol_of_grows grows (classes.outerOpen id scope is)
  refine ⟨classes.names.congr size name, classes.inner.congr inner outerClass, ?_, ?_, ?_⟩
  · intro id scope is
    rw [outer] at is
    exact grows.isOpen (classes.outerOpen id scope is)
  · intro id is
    rw [outer]
    exact classes.undeclared id (undeclared id is)
  · intro id outer is
    rw [outerClass] at is
    rw [name, name]
    exact classes.named id outer is

/-- A declared class without a scope around it is entered in one, under the name of the class around
that scope. -/
theorem ClassTree.enter (classes : t.ClassTree) (scopes : t.ScopeTree) {id : SymbolId}
    {scope : ScopeRef} (isOpen : t.IsOpen (.symbol id)) (around : t.IsOpen scope)
    (free : (t.symbol id).outer = none) (size : t'.size = t.size)
    (name : ∀ s, (t'.symbol s).name = (t.symbol s).name)
    (state : ∀ s, (t'.symbol s).state = (t.symbol s).state)
    (outer : ∀ s, (t'.symbol s).outer = if s = id then some scope else (t.symbol s).outer)
    (inner : ∀ s, (t'.symbol s).innerClasses
      = if s = t.enclosingSymbol scope then (t.symbol s).innerClasses ++ [id]
        else (t.symbol s).innerClasses)
    (named : ∃ own, (t.symbol id).name
      = Resolution.memberName (t.symbol (t.enclosingSymbol scope)).name own) : t'.ClassTree := by
  have outerClass (s : SymbolId) : t'.outerClass? s
      = if s ∈ [id] then some (t.enclosingSymbol scope) else t.outerClass? s := by
    rw [outerClass?, outer]
    simp only [List.mem_singleton]
    split
    · rw [Option.map_some, scopes.enclosingSymbol_of_grows grows around]
    · rw [outerClass?]
      refine Option.map_congr fun other is => ?_
      exact scopes.enclosingSymbol_of_grows grows (classes.outerOpen s other is)
  refine ⟨classes.names.congr size name, ?_, ?_, ?_, ?_⟩
  · refine classes.inner.add (List.nodup_singleton id) (fun s new => ?_) inner outerClass
    obtain rfl := List.mem_singleton.1 new
    rw [outerClass?, free, Option.map_none]
  · intro s other is
    rw [outer] at is
    split at is
    · obtain rfl := Option.some.inj is
      exact grows.isOpen around
    · exact grows.isOpen (classes.outerOpen s other is)
  · -- what is only referred to is not the class that is entered
    intro s is
    rw [state] at is
    rw [outer, if_neg, classes.undeclared s is]
    rintro rfl
    have declared := isOpen.2
    rw [Symbol.isDeclared, is] at declared
    exact absurd declared (by decide)
  · intro s owner is
    rw [outerClass] at is
    rw [name, name]
    split at is
    · next new =>
      obtain rfl := List.mem_singleton.1 new
      obtain rfl := Option.some.inj is
      exact named
    · exact classes.named s owner is

end Keep

/-- A table of the same shape is as much a forest, if it has grown. -/
theorem Forest.of_shape {t t' : SymbolTable} (forest : t.Forest) (grows : Grows t t')
    (shape : t'.shape = t.shape)
    (undeclared : ∀ id, (t'.symbol id).state = .placeholder → (t.symbol id).state = .placeholder) :
    t'.Forest := by
  obtain ⟨size, methods, vars, blocks⟩ := size_of_shape shape
  have symbol {β : Type} (view : Symbol → β) (id : SymbolId) :
      view (t'.symbol id).shape = view (t.symbol id).shape := by rw [symbol_of_shape shape]
  have method {β : Type} (view : Method → β) (id : MethodId) :
      view (t'.method id).shape = view (t.method id).shape := by rw [method_of_shape shape]
  have var {β : Type} (view : Variable → β) (id : VariableId) :
      view (t'.var id).shape = view (t.var id).shape := by rw [var_of_shape shape]
  have block (id : BlockId) : t'.block id = t.block id := by rw [block, block, blocks]
  refine ⟨?_, ?_, ?_⟩
  · refine forest.scopes.keep grows (symbol Symbol.methods) (fun id => ?_) (fun s => ?_) fun id => ?_
    · have owner := method Method.owner id
      simp only [Method.shape] at owner
      rw [methodOwner?, methodOwner?, methods, owner]
    · cases s with
      | symbol id => exact symbol Symbol.initializers id
      | method id => exact method Method.blocks id
      | block id => rw [blocksOf, blocksOf, block]
    · rw [blockOuter?, blockOuter?, blocks, block]
  · refine forest.vars.keep grows (fun s => ?_) (fun id => ?_) (method Method.params)
    · cases s with
      | symbol id => exact symbol Symbol.fields id
      | method id => exact method Method.vars id
      | block id => rw [varsOf, varsOf, block]
    · have scope := var Variable.enclosing id
      simp only [Variable.shape] at scope
      rw [varScope?, varScope?, vars, scope]
  · exact forest.classes.keep grows forest.scopes size (symbol Symbol.name)
      (symbol Symbol.innerClasses) (symbol Symbol.outer) undeclared

theorem Forest.quiet {t t' : SymbolTable} (forest : t.Forest) (quiet : Quiet t t') : t'.Forest := by
  refine forest.of_shape quiet.grows quiet.shape fun id is => ?_
  rw [← state_of_roll quiet.roll]
  exact is

end SymbolTable

end LevelCheck
