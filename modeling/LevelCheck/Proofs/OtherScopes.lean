import LevelCheck.Proofs.Outline
set_option autoImplicit false

/-! # What a walk does to other scopes

While nodes are visited in a scope, the bodies that were open before list what they listed, that scope
apart: whatever is new is listed there or in scopes that are new themselves. So once the walk has left
a method or a block for good, the table goes on mirroring what was written there. -/

namespace LevelCheck

/-- Who lists an id owns it. -/
theorem Divides.owner_of_mem {κ ι : Type} [DecidableEq κ] [DecidableEq ι] {list : κ → List ι}
    {owner? : ι → Option κ} (divides : Divides list owner?) {k : κ} {i : ι} (isIn : i ∈ list k) :
    owner? i = some k := by
  have once := divides k i
  have listed := List.count_pos_iff.2 isIn
  by_contra other
  rw [if_neg other] at once
  omega

namespace SymbolTable

/-- A block that a scope lists is one of the table, and the scope lies around it. -/
theorem ScopeTree.of_mem_blocksOf {t : SymbolTable} (scopes : t.ScopeTree) {scope : ScopeRef}
    {id : BlockId} (isIn : id ∈ t.blocksOf scope) :
    id.val < t.blocks.size ∧ (t.block id).outer = scope := by
  have owner := scopes.blocks.owner_of_mem isIn
  rw [blockOuter?] at owner
  split at owner
  · next known => exact ⟨known, Option.some.inj owner⟩
  · cases owner

/-- The blocks in a scope that is not open yet are still to come. -/
theorem ScopeTree.new_of_mem_blocksOf {t u : SymbolTable} (before : t.ScopeTree)
    (after : u.ScopeTree) (grows : t.Grows u) {scope : ScopeRef} (closed : ¬ t.IsOpen scope)
    {id : BlockId} (isIn : id ∈ u.blocksOf scope) : t.blocks.size ≤ id.val := by
  by_contra older
  have known : id.val < t.blocks.size := Nat.lt_of_not_le older
  have outer := (after.of_mem_blocksOf isIn).2
  rw [grows.outer id known] at outer
  exact closed (outer ▸ before.outer_isOpen known)

/-- The second table has grown from the first. Variables and methods are written as they were, and
bodies list what they listed, one scope apart. -/
structure Spares (t u : SymbolTable) (scope : Option ScopeRef) : Prop where
  grows : t.Grows u
  var : ∀ v, v.val < t.vars.size → (u.var v).written = (t.var v).written
  method : ∀ m, m.val < t.methods.size → (u.method m).name = (t.method m).name
    ∧ (u.method m).isConstructor = (t.method m).isConstructor
  lists : ∀ body : BodyId, t.IsOpen body.scope → some body.scope ≠ scope →
    u.varsOf body.scope = t.varsOf body.scope ∧ u.blocksOf body.scope = t.blocksOf body.scope

namespace Spares

variable {t u v : SymbolTable} {scope : Option ScopeRef}

theorem refl (t : SymbolTable) (scope : Option ScopeRef) : t.Spares t scope :=
  ⟨.refl t, fun _ _ => rfl, fun _ _ => ⟨rfl, rfl⟩, fun _ _ _ => ⟨rfl, rfl⟩⟩

theorem weaken (spares : t.Spares u none) (scope : Option ScopeRef) : t.Spares u scope :=
  ⟨spares.grows, spares.var, spares.method, fun body isOpen _ => spares.lists body isOpen nofun⟩

/-- What is done in a second scope spares the bodies that were open before, if it is none of them. -/
theorem append {inner : Option ScopeRef} (first : t.Spares u scope) (second : u.Spares v inner)
    (apart : ∀ body : BodyId, t.IsOpen body.scope → some body.scope ≠ scope →
      some body.scope ≠ inner) : t.Spares v scope where
  grows := first.grows.trans second.grows
  var x known := (second.var x (known.trans_le first.grows.vars)).trans (first.var x known)
  method m known := by
    have earlier := first.method m known
    have later := second.method m (known.trans_le first.grows.methods)
    exact ⟨later.1.trans earlier.1, later.2.trans earlier.2⟩
  lists body isOpen other := by
    have earlier := first.lists body isOpen other
    have later := second.lists body (first.grows.isOpen isOpen) (apart body isOpen other)
    exact ⟨later.1.trans earlier.1, later.2.trans earlier.2⟩

theorem trans (first : t.Spares u scope) (second : u.Spares v scope) : t.Spares v scope :=
  first.append second fun _ _ other => other

/-- What is done in a scope that was not open before spares all that was. -/
theorem inside (first : t.Spares u scope) {inner : ScopeRef} (closed : ¬ t.IsOpen inner)
    (second : u.Spares v (some inner)) : t.Spares v scope := by
  refine first.append second fun body isOpen _ is => ?_
  exact closed (Option.some.inj is ▸ isOpen)

/-- A class is no body. -/
theorem of_symbol {id : SymbolId} (spares : t.Spares u (some (.symbol id))) : t.Spares u none := by
  refine ⟨spares.grows, spares.var, spares.method, fun body isOpen _ => ?_⟩
  refine spares.lists body isOpen fun is => ?_
  cases body <;> cases is

/-! ## Changes of the table -/

theorem of_written (written : t.SameWriting u) (grows : t.Grows u) : t.Spares u none where
  grows := grows
  var x _ := written.var x
  method m _ := by
    have name := congrArg Method.name (written.method m)
    have isConstructor := congrArg Method.isConstructor (written.method m)
    exact ⟨name, isConstructor⟩
  lists body _ _ := by
    refine ⟨written.varsOf _, ?_⟩
    cases body with
    | method m =>
      have blocks := congrArg Method.blocks (written.method m)
      exact blocks
    | block b => rw [BodyId.scope, blocksOf, blocksOf, block, block, written.blocks]

theorem of_lists {scope : ScopeRef} {vs : List Variable} (lists : Lists t u scope vs) :
    t.Spares u (some scope) where
  grows := lists.grows
  var x known := by
    rw [SymbolTable.var, SymbolTable.var, lists.vars, appendVars]
    simp [Array.getD_eq_getD_getElem?, Array.getElem?_append_left known]
  method m _ := ⟨lists.name m, lists.isConstructor m⟩
  lists body _ other := by
    refine ⟨?_, lists.blocksOf _⟩
    rw [lists.lists, if_neg]
    rintro rfl
    exact other rfl

theorem addMethod (t : SymbolTable) (m : Method) : t.Spares (t.addMethod m).2 none := by
  have older (id : MethodId) (known : id.val < t.methods.size) :
      (t.addMethod m).2.method id = t.method id := by
    simp only [SymbolTable.addMethod, SymbolTable.method, methods_modifySymbol, getD_push,
      if_neg (Nat.ne_of_lt known)]
  refine ⟨.addMethod t m, fun _ _ => rfl, fun id known => ?_, fun body isOpen _ => ?_⟩
  · rw [older id known]
    exact ⟨rfl, rfl⟩
  · cases body with
    | method id => simp only [BodyId.scope, varsOf, blocksOf, older id isOpen, and_self]
    | block id => exact ⟨rfl, rfl⟩

theorem addBlock {outer : ScopeRef} (isOpen : t.IsOpen outer) :
    t.Spares (t.addBlock outer).2 (some outer) where
  grows := .addBlock t outer
  var x _ := by rw [SymbolTable.var, SymbolTable.var, (t.addBlock_sizes outer).2.2]
  method m _ := ⟨t.addBlock_method outer Method.name (fun _ _ => rfl) m,
    t.addBlock_method outer Method.isConstructor (fun _ _ => rfl) m⟩
  lists body _ other := by
    constructor
    · cases body with
      | method m => exact t.addBlock_method outer Method.vars (fun _ _ => rfl) m
      | block b => exact t.addBlock_block outer Block.vars (fun _ _ => rfl) rfl b
    · rw [t.addBlock_blocksOf isOpen, if_neg]
      rintro rfl
      exact other rfl

/-! ## What stays mirrored -/

theorem reads (spares : t.Spares u scope) {x : VariableId} {d : Walk.Declarator}
    (reads : t.Reads x d) : u.Reads x d := by
  have same := spares.var x reads.known
  have name := congrArg Variable.name same
  have type := congrArg (fun v => v.type.name) same
  have modifiers := congrArg Variable.modifiers same
  have hasInitializer := congrArg Variable.hasInitializer same
  exact ⟨reads.known.trans_le spares.grows.vars, name.trans reads.name, type.trans reads.type,
    modifiers.trans reads.modifiers, hasInitializer.trans reads.hasInitializer⟩

theorem readsAll (spares : t.Spares u scope) {ids : List VariableId} {ds : List Walk.Declarator}
    (reads : List.Forall₂ t.Reads ids ds) : List.Forall₂ u.Reads ids ds :=
  reads.imp fun _ _ => spares.reads

variable {bound : Nat} (spares : t.Spares u scope) (scopes : t.ScopeTree)
  (below : ∀ id, scope = some (.block id) → id.val < bound)
include spares scopes below

/-- Blocks with higher numbers than the scope in which something is done go on mirroring an outline,
since the blocks in a block have higher numbers still. -/
theorem mirrors {ids : List BlockId} {blocks : List ScopeOutline} (mirrors : t.Mirrors ids blocks)
    (above : ∀ id ∈ ids, bound ≤ id.val ∧ id.val < t.blocks.size) : u.Mirrors ids blocks := by
  induction mirrors with
  | nil => exact .nil
  | @cons id ids vars blocks rest reads _ _ inside after =>
    obtain ⟨high, known⟩ := above id List.mem_cons_self
    have other : some (BodyId.block id).scope ≠ scope := by
      rintro rfl
      have := below id rfl
      omega
    obtain ⟨sameVars, sameBlocks⟩ := spares.lists (.block id) known other
    have within : ∀ b ∈ (t.block id).blocks, bound ≤ b.val ∧ b.val < t.blocks.size := by
      intro b isIn
      obtain ⟨knownInside, outer⟩ := scopes.of_mem_blocksOf (show b ∈ t.blocksOf (.block id) from isIn)
      have higher := scopes.inward b id (outer ▸ if_pos knownInside)
      omega
    refine .cons ?_ ?_ (after fun b isIn => above b (List.mem_cons_of_mem _ isIn))
    · rw [show (u.block id).vars = (t.block id).vars from sameVars]
      exact spares.readsAll reads
    · rw [show (u.block id).blocks = (t.block id).blocks from sameBlocks]
      exact inside within

/-- A body whose blocks have higher numbers goes on being filled with what is written there. -/
theorem fills {w : Walk} (body : BodyId) (isOpen : t.IsOpen body.scope)
    (other : some body.scope ≠ scope) (above : ∀ id ∈ t.blocksOf body.scope, bound ≤ id.val)
    {own : List Walk.Declarator} {nodes : List (BlockMode × NodeIndex)}
    (fills : w.Fills t body.scope own nodes) : w.Fills u body.scope own nodes := by
  obtain ⟨vars, blocks, outline, reads, mirrors⟩ := fills
  obtain ⟨sameVars, sameBlocks⟩ := spares.lists body isOpen other
  refine ⟨vars, blocks, outline, ?_, ?_⟩
  · rw [sameVars]
    exact spares.readsAll reads
  · rw [sameBlocks]
    exact spares.mirrors scopes below mirrors fun id isIn =>
      ⟨above id isIn, (scopes.of_mem_blocksOf isIn).1⟩

theorem isWritten {w : Walk} {decl : Walk.MethodDecl} {id : MethodId} (known : id.val < t.methods.size)
    (other : some (.method id) ≠ scope) (above : ∀ b ∈ (t.method id).blocks, bound ≤ b.val)
    (isWritten : w.IsWritten t decl id) : w.IsWritten u decl id := by
  obtain ⟨name, isConstructor⟩ := spares.method id known
  exact ⟨name.trans isWritten.name, isConstructor.trans isWritten.isConstructor,
    spares.fills scopes below (.method id) known other above isWritten.fills⟩

end Spares

end SymbolTable

end LevelCheck
