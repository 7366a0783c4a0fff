import LevelCheck.Proofs.Records
import LevelCheck.Proofs.ScopeMirror
set_option autoImplicit false

/-! # Batches mirror their sources

In the table of a batch without records that prune, the methods are those that the walks came to in
classes, and each of them has the variables and the scopes that its body says. A variable of a block is
found from no scope outside of the block. What the walk passes over has no part in this: a block among
the declarators of a declaration is a scope of no method. -/

namespace LevelCheck

namespace Context

/-- The method is in the table as it is written in its file. -/
def HasWritten (units : List SourceUnit) (cx : Context) (m : FileId × Walk.MethodDecl)
    (id : MethodId) : Prop :=
  ∃ unit, units[m.1.val]? = some unit
    ∧ Walk.IsWritten { arena := unit.tree.arena, policy := unit.level, file := m.1 } cx.table m.2 id

theorem HasWritten.kept {units more : List SourceUnit} {a b : Context}
    {m : FileId × Walk.MethodDecl} {id : MethodId} (written : a.HasWritten units m id)
    (owned : a.Owned) (spares : a.table.Spares b.table none) (known : id ∈ a.table.methodIds) :
    b.HasWritten (units ++ more) m id := by
  obtain ⟨unit, given, isWritten⟩ := written
  refine ⟨unit, ?_, ?_⟩
  · rw [List.getElem?_append_left (List.getElem?_eq_some_iff.1 given).1, given]
  · have below (b : BlockId) (is : none = some (ScopeRef.block b)) : b.val < 0 := by cases is
    exact spares.isWritten owned.forest.scopes below (SymbolTable.mem_methodIds.1 known) nofun
      (fun _ _ => Nat.zero_le _) isWritten

/-- After these files, the methods of the table are those that the walks came to, as they are
written. -/
structure MirrorsFiles (units : List SourceUnit) (cx : Context) : Prop where
  files : cx.files.size = units.length
  owned : cx.Owned
  accounts : cx.log.Accounts
  methods : List.Forall₂ (cx.HasWritten units) cx.visitedMethods cx.table.methodIds

namespace MirrorsFiles

variable {units : List SourceUnit} {cx : Context}

theorem start (options : Options) : (start options).MirrorsFiles [] :=
  ⟨rfl, owned_start options, fun _ => rfl, .nil⟩

/-- The methods of the table are still as they are written after something else has been done. -/
theorem kept (mirrors : cx.MirrorsFiles units) (more : List SourceUnit) {next : Context}
    (spares : cx.table.Spares next.table none) :
    List.Forall₂ (next.HasWritten (units ++ more)) cx.visitedMethods cx.table.methodIds := by
  refine List.forall₂_iff_zip.2 ⟨mirrors.methods.length_eq, fun {m id} isIn => ?_⟩
  have written := List.forall₂_zip mirrors.methods isIn
  exact written.kept mirrors.owned spares (List.of_mem_zip isIn).2

theorem analyzeFile (mirrors : cx.MirrorsFiles units) {unit : SourceUnit}
    (clean : (cx.analyzeFile unit).2.log.PrunesNothing) :
    (cx.analyzeFile unit).2.MirrorsFiles (units ++ [unit]) := by
  have run := cx.analyzeFile_run unit
  have owned := mirrors.owned.addFile unit.tree.fileName unit.level
  have charts := (cx.analyzeFile_journey unit).charts owned mirrors.accounts clean
  refine ⟨?_, owned.steps run.steps, accounts_steps run.steps mirrors.accounts, ?_⟩
  · rw [run.precedes.files_size]
    simp [addFile, mirrors.files]
  · obtain @⟨visited, ids, visits, enters, written⟩ := charts.writes
    have last : (units ++ [unit])[cx.files.size]? = some unit := by
      rw [mirrors.files, List.getElem?_concat_length]
    rw [visits, enters]
    refine List.rel_append (mirrors.kept [unit] charts.spares) (written.imp fun m id isNew => ?_)
    obtain ⟨file, isWritten⟩ := isNew
    refine ⟨unit, ?_, ?_⟩
    · rw [file]
      exact last
    · rw [file]
      exact isWritten

theorem analyzeFiles (mirrors : cx.MirrorsFiles units) (more : List SourceUnit)
    (clean : (cx.analyzeFiles more).log.PrunesNothing) :
    (cx.analyzeFiles more).MirrorsFiles (units ++ more) := by
  induction more generalizing cx units with
  | nil =>
    rw [List.append_nil]
    exact mirrors
  | cons unit rest ih =>
    have first := clean.of_grown ((cx.analyzeFile unit).2.analyzeFiles_log rest)
    have whole := ih (mirrors.analyzeFile first) clean
    rw [List.append_assoc] at whole
    exact whole

/-- Settling enters no method, and leaves the bodies of those that there are alone. -/
theorem settle (mirrors : cx.MirrorsFiles units) :
    List.Forall₂ (cx.settle.HasWritten units) cx.settle.visitedMethods cx.settle.table.methodIds := by
  have settles : Walk.Aside cx cx.settle := .of_silent (.settle cx) cx.settle_trail
  have still := mirrors.kept [] settles.spares
  rw [List.append_nil] at still
  rw [SymbolTable.methodIds_of_size settles.methods, visitedMethods, settles.trail]
  exact still

end MirrorsFiles

end Context

/-- A name denotes a variable only in the scopes that lie in the one that lists it, and in that one. -/
theorem SymbolTable.VariableLists.mem_outward {t : SymbolTable} (vars : t.VariableLists)
    {scope around : ScopeRef} {name : String} {v : VariableId} (isIn : v ∈ t.varsOf around)
    (found : t.lookupVar? scope name = some v) : around ∈ t.outward scope := by
  obtain ⟨outer, isOutward, listed⟩ := List.exists_of_findSome?_eq_some found
  have owner := vars.lists.owner_of_mem (List.mem_of_find?_eq_some listed)
  rw [vars.lists.owner_of_mem isIn] at owner
  exact Option.some.inj owner ▸ isOutward

namespace Context

/-- In a batch without records that prune, the methods of the table are one by one those that the walks
came to in classes. Each has its parameters and then the variables that its body declares outside of
the scopes in it, and its blocks are these scopes, which have their own variables and blocks in the
same way. A variable of a block is found from that block and from the scopes in it only. -/
theorem ofUnits_mirrorsSource (units : List SourceUnit) (options : Options)
    (clean : (ofUnits units options).log.PrunesNothing) :
    List.Forall₂ ((ofUnits units options).HasWritten units) (ofUnits units options).visitedMethods
        (ofUnits units options).table.methodIds
      ∧ ∀ id, ∀ v ∈ ((ofUnits units options).table.block id).vars, ∀ scope name,
        (ofUnits units options).table.lookupVar? scope name = some v →
          .block id ∈ (ofUnits units options).table.outward scope := by
  have before := clean.of_grown ((start options).analyzeFiles units).settle_settles.precedes.log
  have mirrors := (MirrorsFiles.start options).analyzeFiles units before
  refine ⟨mirrors.settle, fun id v isIn scope name found => ?_⟩
  have vars := mirrors.owned.settle.forest.vars
  exact vars.mem_outward (show v ∈ SymbolTable.varsOf _ (.block id) from isIn) found

/-- A class with a method that has a parameter, a variable, a loop with a variable in its header and
one in its body, and a handler with a variable. -/
def loopAndHandler : SourceUnit where
  level := .full
  tree :=
    { fileName := "A.java", root := ⟨0⟩
      arena :=
        { nodes := #[
            ⟨.nowhere, .sourceFile none [] [⟨1⟩]⟩,
            ⟨⟨1, 1⟩, .classDef [] "A" [] none [] [⟨2⟩]⟩,
            ⟨⟨2, 3⟩, .methodDef [] [] "void" "m" [⟨3⟩] [] (some ⟨4⟩)⟩,
            ⟨⟨2, 10⟩, .formalParameter false "int" "p"⟩,
            ⟨⟨2, 17⟩, .block [⟨5⟩, ⟨7⟩, ⟨12⟩]⟩,
            ⟨⟨3, 5⟩, .variableDeclaration [] [⟨6⟩]⟩,
            ⟨⟨3, 9⟩, .variableDeclarator "int" "x" none⟩,
            ⟨⟨4, 5⟩, .forStatement [⟨8⟩] none [] ⟨10⟩⟩,
            ⟨⟨4, 10⟩, .variableDeclaration [] [⟨9⟩]⟩,
            ⟨⟨4, 14⟩, .variableDeclarator "int" "i" none⟩,
            ⟨⟨5, 7⟩, .variableDeclaration [] [⟨11⟩]⟩,
            ⟨⟨5, 11⟩, .variableDeclarator "int" "y" none⟩,
            ⟨⟨6, 5⟩, .tryCatch ⟨13⟩ [⟨14⟩] none⟩,
            ⟨⟨6, 9⟩, .block []⟩,
            ⟨⟨6, 12⟩, .catchBlock ⟨15⟩ ⟨16⟩⟩,
            ⟨⟨6, 19⟩, .formalParameter false "Exception" "e"⟩,
            ⟨⟨6, 32⟩, .block [⟨17⟩]⟩,
            ⟨⟨7, 7⟩, .variableDeclaration [] [⟨18⟩]⟩,
            ⟨⟨7, 11⟩, .variableDeclarator "int" "z" none⟩] } }

/-- The method is in the table as it is written. -/
theorem ofUnits_mirrorsSource_loopAndHandler :
    (ofUnits [loopAndHandler] .usual).log.PrunesNothing
      ∧ ∃ decl, (ofUnits [loopAndHandler] .usual).visitedMethods = [(⟨0⟩, decl)]
        ∧ (ofUnits [loopAndHandler] .usual).HasWritten [loopAndHandler] (⟨0⟩, decl) ⟨0⟩ := by
  have clean : (ofUnits [loopAndHandler] .usual).log.PrunesNothing := by decide +kernel
  have files : (ofUnits [loopAndHandler] .usual).visitedMethods.map (·.1) = [⟨0⟩] := by decide +kernel
  have ids : (ofUnits [loopAndHandler] .usual).table.methodIds = [⟨0⟩] := by decide +kernel
  have methods := (ofUnits_mirrorsSource [loopAndHandler] .usual clean).1
  obtain ⟨m, visits, file⟩ := List.map_eq_singleton_iff.1 files
  rw [visits, ids, List.forall₂_cons] at methods
  exact ⟨clean, m.2, by rw [visits, ← file], file ▸ methods.1⟩

end Context

/-! ## What the walk passes over -/

/-- The node opens a scope in a body. -/
def NodeData.opensScope : NodeData → Bool
  | .block .. | .forStatement .. | .catchBlock .. => true
  | _ => false

/-- The node declares a class or a method. -/
def NodeData.declares : NodeData → Bool
  | .classDef .. | .interfaceDef .. | .anonymousClass .. | .methodDef .. | .constructorDef .. => true
  | _ => false

/-- The node lies in a body, in no scope in it and in no class. -/
inductive Arena.LiesIn (a : Arena) (body : NodeIndex) : NodeIndex → Prop where
  | child {node : Node} {child : NodeIndex} (found : a.get? body = some node)
      (isChild : child ∈ node.data.children) : LiesIn a body child
  | deeper {idx : NodeIndex} {node : Node} {child : NodeIndex} (lies : LiesIn a body idx)
      (found : a.get? idx = some node) (stays : node.data.opensScope = false)
      (outside : node.data.declares = false) (isChild : child ∈ node.data.children) :
      LiesIn a body child

namespace Context

/-- A class with a method that declares a variable, and a block among the declarators. -/
def strayBlock : SourceUnit where
  level := .full
  tree :=
    { fileName := "A.java", root := ⟨0⟩
      arena :=
        { nodes := #[
            ⟨.nowhere, .sourceFile none [] [⟨1⟩]⟩,
            ⟨⟨1, 1⟩, .classDef [] "A" [] none [] [⟨2⟩]⟩,
            ⟨⟨2, 3⟩, .methodDef [] [] "void" "m" [] [] (some ⟨3⟩)⟩,
            ⟨⟨2, 12⟩, .block [⟨4⟩]⟩,
            ⟨⟨3, 5⟩, .variableDeclaration [] [⟨5⟩, ⟨6⟩]⟩,
            ⟨⟨3, 9⟩, .variableDeclarator "int" "x" none⟩,
            ⟨⟨3, 12⟩, .block []⟩] } }

/-- Not every block that lies in the body of a method is a scope of the method: the walk passes over
one among the declarators of a declaration. -/
theorem not_mirrors_every_block : ¬ ∀ units options, (ofUnits units options).log.PrunesNothing →
    ∀ m id,
      (m, id) ∈ (ofUnits units options).visitedMethods.zip (ofUnits units options).table.methodIds →
      ∀ unit, units[m.1.val]? = some unit → ∀ body ∈ m.2.body, ∃ openers : List NodeIndex,
        (∀ idx, idx ∈ openers ↔ unit.tree.arena.LiesIn body idx
          ∧ ∃ node, unit.tree.arena.get? idx = some node ∧ node.data.opensScope = true)
        ∧ openers.length = ((ofUnits units options).table.method id).blocks.length := by
  intro mirrors
  have clean : (ofUnits [strayBlock] .usual).log.PrunesNothing := by decide +kernel
  have ids : (ofUnits [strayBlock] .usual).table.methodIds = [⟨0⟩] := by decide +kernel
  have noBlocks : ((ofUnits [strayBlock] .usual).table.method ⟨0⟩).blocks = [] := by decide +kernel
  have written : (ofUnits [strayBlock] .usual).visitedMethods.map (fun m => (m.1, m.2.body))
      = [(⟨0⟩, some ⟨3⟩)] := by decide +kernel
  obtain ⟨m, visits, is⟩ := List.map_eq_singleton_iff.1 written
  obtain ⟨file, body⟩ := Prod.mk.inj is
  obtain ⟨openers, all, length⟩ := mirrors [strayBlock] .usual clean m ⟨0⟩
    (by rw [visits, ids]; exact List.mem_singleton.2 rfl) strayBlock (by rw [file]; rfl) ⟨3⟩ body
  rw [noBlocks, List.length_nil, List.length_eq_zero_iff] at length
  have declaration : strayBlock.tree.arena.LiesIn ⟨3⟩ ⟨4⟩ := .child rfl (by decide)
  have lies : strayBlock.tree.arena.LiesIn ⟨3⟩ ⟨6⟩ := .deeper declaration rfl rfl rfl (by decide)
  have isIn := (all ⟨6⟩).2 ⟨lies, _, rfl, rfl⟩
  rw [length] at isIn
  cases isIn

end Context

end LevelCheck
