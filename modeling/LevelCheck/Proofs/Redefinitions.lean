import LevelCheck.Proofs.Declared
import LevelCheck.Proofs.ReachableNodes
set_option autoImplicit false

/-! # Analysing a file again

A class whose name has been declared is refused, and nothing comes of its visit but a record and the
pruned node. So once a file has been analysed, no class at its top level is accepted when the file is
analysed again: each is refused for its depth, for its level or for its name. This takes that each of
them has been visited the first time, and that the file has been in one package all the time. -/

namespace LevelCheck

theorem ErrorLog.isPruned_eq_false (log : ErrorLog) {file : FileId} {node : NodeIndex} :
    log.isPruned file node = false ↔ (file, node) ∉ log.pruned := by
  rw [← Bool.not_eq_true, isPruned_iff]

/-! ## What a policy rules about a class -/

namespace Policy

variable (l : Level) {offer : Offer}

/-- Nothing but a level without interfaces has an objection to a class. -/
theorem ruling_typeDecl {decl : Walk.TypeDecl} (is : offer.node.data.typeDecl? = some decl) :
    Policy.ruling l offer = if l = .elementary ∧ decl.isInterface
      then .prune (.notAtLevel .interfaces offer.level) else .accept := by
  obtain ⟨⟨pos, data⟩, scope, level, inConstructor⟩ := offer
  cases data with
  | classDef | interfaceDef =>
    obtain rfl := Option.some.inj is
    cases l <;> cases scope <;> rfl
  | _ => contradiction

theorem ruling_sourceFile {package : Option String} {imports : List ImportDecl}
    {types : List NodeIndex} (is : offer.node.data = .sourceFile package imports types) :
    Policy.ruling l offer = .accept := by
  obtain ⟨⟨pos, data⟩, scope, level, inConstructor⟩ := offer
  obtain rfl : data = .sourceFile package imports types := is
  cases l <;> cases scope <;> rfl

end Policy

/-- The qualified name of a type at the top level of a file of the package. -/
def qualifiedIn (package simple : String) : String :=
  if package.isEmpty then simple else package ++ "." ++ simple

namespace Walk

variable {w : Walk} {scope : WalkScope} {idx : NodeIndex} {node : Node} {decl : TypeDecl}
  {cx : Context}

theorem visitData_typeDecl {visit : Visitor} {mode : BlockMode} {pos : Position} {force : Bool}
    {data : NodeData} (is : data.typeDecl? = some decl) :
    w.visitData visit mode scope idx pos force data cx
      = w.visitTypeDecl visit scope idx pos decl cx := by
  cases data with
  | classDef | interfaceDef =>
    obtain rfl := Option.some.inj is
    rfl
  | _ => contradiction

/-- A node that the policy accepts is admitted, and only the trail tells. -/
theorem inspect_of_accepted {remaining : Nat} (fresh : cx.log.isPruned w.file idx = false)
    (accepts : w.rulingOn scope node cx = .accept) :
    w.inspect remaining scope idx node cx = (some { forceFinal := false, reported := false },
      { cx with trail := cx.trail.push (w.inspected remaining scope idx node cx) }) := by
  have noted : w.inspected remaining scope idx node cx
      = w.encounter idx remaining (some (w.offer scope node cx)) cx := by
    rw [inspected, fresh]
    rfl
  cases w.inspect_inspection cx remaining scope idx node with
  | skipped pruned => exact (Bool.false_ne_true (fresh.symm.trans pruned)).elim
  | refused _ prunes =>
    rw [accepts] at prunes
    contradiction
  | admitted _ _ is =>
    rw [is, accepts, noted]
    rfl

/-- The node is pruned for the problem, and nothing else comes of its visit. -/
def Stops (w : Walk) (idx : NodeIndex) (pos : Position) (p : Problem) (a : Context)
    (visited : Outcome × Context) : Prop :=
  ∃ trail, visited = (.stopped,
    { a with
      trail
      log :=
        { diagnostics := a.log.diagnostics.push
            (Diagnostic.ofProblem (a.fileName w.file) pos p).pruning
          pruned := (w.file, idx) :: a.log.pruned } })

theorem addPruning_of_fresh (fresh : cx.log.isPruned w.file idx = false) (d : Diagnostic) :
    cx.log.addPruning w.file idx d
      = { diagnostics := cx.log.diagnostics.push d.pruning
          pruned := (w.file, idx) :: cx.log.pruned } := by
  rw [ErrorLog.addPruning, List.insert_of_not_mem (cx.log.isPruned_eq_false.1 fresh)]

/-- A node that the policy prunes for one problem is refused for it. -/
theorem stops_of_pruned {remaining : Nat} {mode : BlockMode} {p : Problem}
    (found : w.arena.get? idx = some node) (fresh : cx.log.isPruned w.file idx = false)
    (prunes : w.rulingOn scope node cx = .prune p) :
    w.Stops idx node.pos p cx (w.visit (remaining + 1) mode scope idx cx) := by
  refine ⟨(w.offered (remaining + 1) scope idx node cx).trail, ?_⟩
  rw [visit, found]
  cases w.inspect_inspection cx (remaining + 1) scope idx node with
  | skipped pruned => exact (Bool.false_ne_true (fresh.symm.trans pruned)).elim
  | admitted _ passes =>
    rw [prunes] at passes
    exact absurd rfl passes
  | refused _ _ raised is =>
    rw [prunes] at raised
    obtain ⟨rfl, rfl⟩ := List.cons.inj raised
    have offered : (w.offered (remaining + 1) scope idx node cx).log.isPruned w.file idx = false := fresh
    simp only [is]
    rw [reportAll, List.foldl_nil, Context.reportPruning, addPruning_of_fresh offered]
    rfl

/-! ## A class of a name that has been declared -/

/-- The walk comes to a class in a file or in a class, and takes it up. Its name has been declared. -/
structure Redefines (w : Walk) (remaining : Nat) (scope : WalkScope) (idx : NodeIndex) (node : Node)
    (decl : TypeDecl) (cx : Context) : Prop where
  found : w.arena.get? idx = some node
  is : node.data.typeDecl? = some decl
  outside : scope.kind ≠ .body
  deeper : 0 < remaining
  fresh : cx.log.isPruned w.file idx = false
  passes : (w.rulingOn scope node cx).step ≠ .prune
  declared : (cx.table.lookupDeclared? (w.qualifiedName scope decl.name cx).1).isSome

theorem rulingOn_typeDecl (is : node.data.typeDecl? = some decl) :
    w.rulingOn scope node cx = if w.policy = .elementary ∧ decl.isInterface
      then .prune (.notAtLevel .interfaces (w.level cx)) else .accept :=
  Policy.ruling_typeDecl w.policy is

theorem rulingOn_accepts (is : node.data.typeDecl? = some decl)
    (passes : (w.rulingOn scope node cx).step ≠ .prune) : w.rulingOn scope node cx = .accept := by
  rw [rulingOn_typeDecl is] at passes ⊢
  split at passes
  · exact absurd rfl passes
  · next accepts => rw [if_neg accepts]

/-- Outside of bodies a name is computed from the file and the class around it alone. -/
theorem qualifiedName_noted (outside : scope.kind ≠ .body) (simple : String)
    (trail : Array Encounter) : w.qualifiedName scope simple { cx with trail }
      = ((w.qualifiedName scope simple cx).1, { cx with trail }) := by
  cases scope with
  | file =>
    have same : Context.file? { cx with trail } w.file = cx.file? w.file := rfl
    rw [qualifiedName, qualifiedName, same]
    split <;> rfl
  | classBody id => rfl
  | body id => exact absurd rfl outside

theorem Redefines.stops {remaining : Nat} (redefines : w.Redefines remaining scope idx node decl cx)
    (mode : BlockMode) :
    w.Stops idx node.pos (.duplicateClass (w.qualifiedName scope decl.name cx).1) cx
      (w.visit remaining mode scope idx cx) := by
  obtain ⟨found, is, outside, deeper, fresh, passes, declared⟩ := redefines
  obtain ⟨remaining, rfl⟩ := Nat.exists_eq_succ_of_ne_zero deeper.ne'
  -- the state in which the node has been admitted
  let noted := { cx with trail := cx.trail.push (w.inspected (remaining + 1) scope idx node cx) }
  have admitted : w.inspect (remaining + 1) scope idx node cx = (some ⟨false, false⟩, noted) :=
    inspect_of_accepted fresh (rulingOn_accepts is passes)
  have named : w.qualifiedName scope decl.name noted
      = ((w.qualifiedName scope decl.name cx).1, noted) := qualifiedName_noted outside decl.name _
  have refused : noted.beginClass? (w.qualifiedName scope decl.name cx).1 scope.ref? decl.head = none :=
    Context.beginClass_eq_none.2 declared
  have visited : w.visitTypeDecl (w.visit remaining) scope idx node.pos decl noted
      = (true, noted.reportPruning w.file idx node.pos
        (.duplicateClass (w.qualifiedName scope decl.name cx).1)) := by
    simp only [visitTypeDecl, noted, named]
    rw [refused]
  refine ⟨noted.trail, ?_⟩
  rw [visit, found]
  simp only [admitted, visitData_typeDecl is]
  rw [visited]
  have pruned := noted.log.isPruned_addPruning w.file idx
    (.ofProblem (noted.fileName w.file) node.pos (.duplicateClass (w.qualifiedName scope decl.name cx).1))
  simp only [Context.reportPruning, pruned, if_true]
  rw [addPruning_of_fresh fresh]
  rfl

/-! ## The types of a file that has been analysed -/

/-- What a class at the top level of a file is refused for, if no class of its name is accepted: its
depth, if only so many levels of nesting are visited, or its level, or its name. -/
def TypeDecl.refusal (decl : TypeDecl) (limit : Nat) (level : Level) (package : String) : Problem :=
  if limit ≤ 1 then .nestingTooDeep limit
  else if level = .elementary ∧ decl.isInterface then .notAtLevel .interfaces level
  else .duplicateClass (qualifiedIn package decl.name)

/-- The class is not accepted at the top level of a file, whether it has been declared or not. -/
def TypeDecl.IsBarred (decl : TypeDecl) (limit : Nat) (level : Level) : Prop :=
  limit ≤ 1 ∨ level = .elementary ∧ decl.isInterface

/-- No class is accepted for the declaration at the top level of a file any more. -/
def TypeDecl.IsSettled (decl : TypeDecl) (limit : Nat) (level : Level) (package : String)
    (t : SymbolTable) : Prop :=
  decl.IsBarred limit level ∨ (t.lookupDeclared? (qualifiedIn package decl.name)).isSome

theorem TypeDecl.IsSettled.mono {limit : Nat} {level : Level} {package : String} {t u : SymbolTable}
    (settled : decl.IsSettled limit level package t) (keeps : t.KeepsDeclared u) :
    decl.IsSettled limit level package u := settled.imp_right keeps.isSome

variable {package : String} {remaining : Nat}

theorem qualifiedName_inPackage (inFile : cx.package? w.file = some package) (simple : String) :
    w.qualifiedName .file simple cx = (qualifiedIn package simple, cx) := by
  obtain ⟨f, inRun, rfl⟩ := Option.map_eq_some_iff.1 inFile
  rw [qualifiedName, inRun]
  rfl

/-- Once a class has been taken up, its name has been declared. -/
theorem visitTypeDecl_declares (w : Walk) {visit : Visitor} (runs : visit.Runs) (scope : WalkScope)
    (idx : NodeIndex) (pos : Position) (decl : TypeDecl) (cx : Context) :
    ((w.visitTypeDecl visit scope idx pos decl cx).2.table.lookupDeclared?
      (w.qualifiedName scope decl.name cx).1).isSome := by
  rw [visitTypeDecl_eq]
  split
  · next refused =>
    have declared := Context.beginClass_eq_none.1 refused
    exact declared
  · next id b begun =>
    obtain ⟨-, declared⟩ := Context.beginClass_declares begun decl.head_isHead
    -- nothing that is done until the class is completed takes the name away
    have isOpen := Context.beginClass_isOpen begun decl.head_isHead
    have linked := w.linkParents_run isOpen pos (w.qualifiedName scope decl.name cx).1 decl
    have inside := WalkScope.isOpenIn_classBody (linked.precedes.table.isOpen isOpen)
    have members := Visitor.each_run runs decl.members inside
    have keeps := (linked.trans members).keepsDeclared.trans
      (SymbolTable.KeepsDeclared.holdsAcross.defineComplete _ id)
    exact Option.isSome_of_eq_some (keeps _ id declared)

section

variable (found : w.arena.get? idx = some node) (is : node.data.typeDecl? = some decl)
  (inFile : cx.package? w.file = some package) (fresh : cx.log.isPruned w.file idx = false)
include found is inFile fresh

/-- A class that is not accepted any more is refused, and nothing else comes of its visit. -/
theorem stops_of_settled (level : w.level cx = w.policy) (limit : cx.options.maxDepth = remaining + 1)
    (settled : decl.IsSettled (remaining + 1) w.policy package cx.table) (mode : BlockMode) :
    w.Stops idx node.pos (decl.refusal (remaining + 1) w.policy package) cx
      (w.visit remaining mode .file idx cx) := by
  rw [TypeDecl.refusal]
  cases remaining with
  | zero =>
    refine ⟨cx.trail.push (w.encounter idx 0 none cx), ?_⟩
    rw [visit, found]
    simp only [refuseDepth_eq, fresh, limit, Bool.false_eq_true, if_false, addPruning_of_fresh fresh]
    rfl
  | succ remaining =>
    rw [if_neg (by omega)]
    split
    · next barred =>
      have ruling : w.rulingOn .file node cx = .prune (.notAtLevel .interfaces w.policy) := by
        rw [rulingOn_typeDecl is, if_pos barred, level]
      exact stops_of_pruned found fresh ruling
    · next open' =>
      have named : w.qualifiedName .file decl.name cx = _ := qualifiedName_inPackage inFile decl.name
      have redefines : w.Redefines (remaining + 1) .file idx node decl cx := by
        refine ⟨found, is, by decide, Nat.succ_pos _, fresh, ?_, ?_⟩
        · rw [rulingOn_typeDecl is, if_neg open']
          decide
        · rw [named]
          exact (settled.resolve_left fun barred => open' (barred.resolve_left (by omega)))
      have stops := redefines.stops mode
      rwa [named] at stops

/-- Once a class has been visited, it is not accepted any more. -/
theorem visit_settles (mode : BlockMode) :
    decl.IsSettled (remaining + 1) w.policy package (w.visit remaining mode .file idx cx).2.table := by
  by_cases barred : decl.IsBarred (remaining + 1) w.policy
  · exact .inl barred
  right
  rw [TypeDecl.IsBarred, not_or] at barred
  obtain ⟨remaining, rfl⟩ := Nat.exists_eq_succ_of_ne_zero (show remaining ≠ 0 by omega)
  have accepts : w.rulingOn .file node cx = .accept := by
    rw [rulingOn_typeDecl is, if_neg barred.2]
  let noted := { cx with trail := cx.trail.push (w.inspected (remaining + 1) .file idx node cx) }
  have inFile : noted.package? w.file = some package := inFile
  have named := qualifiedName_inPackage inFile decl.name
  have declared := w.visitTypeDecl_declares (w.visit_runs remaining) .file idx node.pos decl noted
  rw [named] at declared
  rw [w.visit_succ found, inspect_of_accepted fresh accepts]
  simp only [visitData_typeDecl is]
  exact declared

end

end Walk

/-! ## Types in a row -/

/-- From the first node the walk comes neither to the second nor to a header that names another
package. -/
def Arena.KeepsClear (a : Arena) (package : String) (earlier later : NodeIndex) : Prop :=
  ¬ a.Within earlier later ∧ ∀ idx node named imports types, a.Within earlier idx →
    a.get? idx = some node → node.data = .sourceFile named imports types → named.getD "" = package

namespace Walk

variable {w : Walk} {package : String} {remaining : Nat} {types : List NodeIndex}

/-- The record says of a node that its class is refused. -/
def IsRefusal (w : Walk) (limit : Nat) (package name : String) (d : Diagnostic) (idx : NodeIndex) :
    Prop :=
  ∃ node decl, w.arena.get? idx = some node ∧ node.data.typeDecl? = some decl
    ∧ d = (Diagnostic.ofProblem name node.pos (decl.refusal limit w.policy package)).pruning

/-- The node declares a class that is not accepted any more. -/
def IsSettled (w : Walk) (limit : Nat) (package : String) (t : SymbolTable) (idx : NodeIndex) : Prop :=
  ∃ node decl, w.arena.get? idx = some node ∧ node.data.typeDecl? = some decl
    ∧ decl.IsSettled limit w.policy package t

/-- Classes that are not accepted any more are refused one after the other. -/
theorem each_stops {cx : Context} (inFile : cx.package? w.file = some package)
    (level : w.level cx = w.policy) (limit : cx.options.maxDepth = remaining + 1)
    (settled : ∀ idx ∈ types, w.IsSettled (remaining + 1) package cx.table idx)
    (nodup : types.Nodup) (fresh : ∀ idx ∈ types, (w.file, idx) ∉ cx.log.pruned) :
    ∃ records trail, Visitor.each (w.visit remaining) .file types cx =
        { cx with
          trail
          log :=
            { diagnostics := cx.log.diagnostics ++ records.toArray
              pruned := (types.map (w.file, ·)).reverse ++ cx.log.pruned } }
      ∧ List.Forall₂ (w.IsRefusal (remaining + 1) package (cx.fileName w.file)) records types := by
  induction types generalizing cx with
  | nil =>
    refine ⟨[], cx.trail, ?_, .nil⟩
    simp [Visitor.each]
  | cons idx rest ih =>
    obtain ⟨⟨node, decl, found, is, own⟩, others⟩ := List.forall_mem_cons.1 settled
    obtain ⟨isNew, nodup⟩ := List.nodup_cons.1 nodup
    obtain ⟨isFresh, fresh⟩ := List.forall_mem_cons.1 fresh
    have isFresh := cx.log.isPruned_eq_false.2 isFresh
    obtain ⟨trail, stops⟩ := stops_of_settled found is inFile isFresh level limit own .nested
    rw [Visitor.each, List.foldl_cons, stops]
    -- the table and the files are those of before, so the classes after this one are still settled
    obtain ⟨records, trail, visited, refused⟩ := @ih
      { cx with
        trail
        log :=
          { diagnostics := cx.log.diagnostics.push (Diagnostic.ofProblem (cx.fileName w.file) node.pos
              (decl.refusal (remaining + 1) w.policy package)).pruning
            pruned := (w.file, idx) :: cx.log.pruned } }
      inFile level limit others nodup fun later isIn => by
        simp only [List.mem_cons, Prod.mk.injEq, true_and, not_or]
        exact ⟨fun same => isNew (same ▸ isIn), fresh later isIn⟩
    refine ⟨_ :: records, trail, visited.trans ?_, .cons ⟨node, decl, found, is, rfl⟩ refused⟩
    simp

/-- Once the types of a file have been visited, none of them is accepted any more. -/
theorem each_settles {cx : Context} (inFile : types ≠ [] → cx.package? w.file = some package)
    (areTypes : ∀ idx ∈ types, ∃ node decl, w.arena.get? idx = some node
      ∧ node.data.typeDecl? = some decl)
    (apart : types.Pairwise (w.arena.KeepsClear package))
    (fresh : ∀ idx ∈ types, (w.file, idx) ∉ cx.log.pruned) :
    ∀ idx ∈ types, w.IsSettled (remaining + 1) package
      (Visitor.each (w.visit remaining) .file types cx).table idx := by
  induction types generalizing cx with
  | nil => exact nofun
  | cons idx rest ih =>
    obtain ⟨⟨node, decl, found, is⟩, areTypes⟩ := List.forall_mem_cons.1 areTypes
    obtain ⟨clear, apart⟩ := List.pairwise_cons.1 apart
    obtain ⟨isFresh, fresh⟩ := List.forall_mem_cons.1 fresh
    have inFile := inFile (List.cons_ne_nil _ _)
    have isFresh := cx.log.isPruned_eq_false.2 isFresh
    have settles : decl.IsSettled (remaining + 1) w.policy package
        (w.visit remaining .nested .file idx cx).2.table := visit_settles found is inFile isFresh .nested
    have isOpen := WalkScope.isOpenIn_file cx.table
    have journey := (w.visit_journeys remaining).journey .nested idx isOpen
    have stays : w.StaysWithin (w.arena.Within idx) cx (w.visit remaining .nested .file idx cx).2 :=
      journey.staysWithin (fun _ _ before refers => before.tail refers) fun entry isIn => by
        obtain rfl := List.mem_singleton.1 isIn
        exact .refl
    have members := Visitor.each_run (w.visit_runs remaining) rest
      (WalkScope.isOpenIn_file (w.visit remaining .nested .file idx cx).2.table)
    rw [Visitor.each, List.foldl_cons]
    refine List.forall_mem_cons.2 ⟨⟨node, decl, found, is, settles.mono members.keepsDeclared⟩, ?_⟩
    refine ih (fun more => ?_) areTypes apart fun later isIn pruned => ?_
    · rcases stays.package with same | ⟨named, ⟨top, header, imports, listed, within, at', data⟩, reads⟩
      · exact same.trans inFile
      · obtain ⟨later, isIn⟩ := List.exists_mem_of_ne_nil rest more
        rw [reads, (clear later isIn).2 top header named imports listed within at' data]
    · rcases stays.pruned _ pruned with before | ⟨-, within⟩
      · exact fresh later isIn before
      · exact (clear later isIn).1 within

/-- The walk comes to the types of a file after it has read the header. -/
theorem visit_sourceFile (w : Walk) (remaining : Nat) (mode : BlockMode) (scope : WalkScope)
    (cx : Context) {idx : NodeIndex} {node : Node} {named : Option String} {imports : List ImportDecl}
    (found : w.arena.get? idx = some node) (is : node.data = .sourceFile named imports types)
    (fresh : cx.log.isPruned w.file idx = false) :
    ∃ trail, (w.visit (remaining + 1) mode scope idx cx).2
      = Visitor.each (w.visit remaining) scope types
        (w.enterFile named imports types { cx with trail }) := by
  have accepts : w.rulingOn scope node cx = .accept := Policy.ruling_sourceFile w.policy is
  refine ⟨cx.trail.push (w.inspected (remaining + 1) scope idx node cx), ?_⟩
  rw [w.visit_succ found, inspect_of_accepted fresh accepts, is]
  rfl

end Walk

/-! ## Runs -/

/-- The root of the tree is a header that lists classes and interfaces, and from each of them the walk
comes neither to a later one nor to a header that names another package. -/
structure SourceUnit.ListsTypes (unit : SourceUnit) (named : Option String) (types : List NodeIndex) :
    Prop where
  header : ∃ node imports, unit.tree.arena.get? unit.tree.root = some node
    ∧ node.data = .sourceFile named imports types
  areTypes : ∀ idx ∈ types, ∃ node decl, unit.tree.arena.get? idx = some node
    ∧ node.data.typeDecl? = some decl
  apart : types.Pairwise (unit.tree.arena.KeepsClear (named.getD ""))

namespace Context

/-- Nodes have been pruned of files of the run only. -/
def PrunesKnown (cx : Context) : Prop := ∀ entry ∈ cx.log.pruned, entry.1.val < cx.files.size

namespace PrunesKnown

variable {cx : Context} (known : cx.PrunesKnown)
include known

theorem perform (request : Request) : (cx.perform request).PrunesKnown := by
  cases request with
  | analyze unit =>
    have run := cx.analyzeFile_run unit
    have size : (cx.analyzeFile unit).2.files.size = cx.files.size + 1 := by
      rw [run.precedes.files_size]
      simp [addFile]
    have stays : (cx.walkOf unit).StaysWithin (fun _ => True) _ (cx.analyzeFile unit).2 :=
      (cx.analyzeFile_journey unit).staysWithin (fun _ _ _ _ => trivial) fun _ _ => trivial
    intro entry isIn
    show entry.1.val < (cx.analyzeFile unit).2.files.size
    rw [size]
    rcases stays.pruned entry isIn with before | ⟨isOwn, -⟩
    · exact (known entry before).trans (Nat.lt_succ_self _)
    · rw [isOwn]
      exact Nat.lt_succ_self _
  | settle =>
    have silent := Silent.settle cx
    intro entry isIn
    show entry.1.val < cx.settle.files.size
    rw [silent.files]
    exact known entry (silent.pruned ▸ isIn)

theorem performAll (requests : List Request) : (cx.performAll requests).PrunesKnown := by
  induction requests generalizing cx with
  | nil => exact known
  | cons request rest ih => exact ih (known.perform request)

theorem fresh (unit : SourceUnit) (idx : NodeIndex) :
    ((cx.walkOf unit).file, idx) ∉ cx.log.pruned :=
  fun isIn => Nat.lt_irrefl _ (known _ isIn)

/-- What the walk of a file does once it has read the header. -/
theorem analyzeFile_types {unit : SourceUnit} {named : Option String} {types : List NodeIndex}
    (lists : unit.ListsTypes named types) {remaining : Nat}
    (limit : cx.options.maxDepth = remaining + 1) :
    ∃ files trail f, (cx.analyzeFile unit).2
        = Visitor.each ((cx.walkOf unit).visit remaining) .file types { cx with files, trail }
      ∧ files[(cx.walkOf unit).file.val]? = some f
      ∧ f.name = unit.tree.fileName ∧ f.level = unit.level ∧ f.package = named.getD "" := by
  obtain ⟨node, imports, found, is⟩ := lists.header
  let w := cx.walkOf unit
  let added := (cx.addFile unit.tree.fileName unit.level).2
  have isNew : added.log.isPruned w.file unit.tree.root = false :=
    cx.log.isPruned_eq_false.2 (known.fresh unit _)
  obtain ⟨trail, visited⟩ := w.visit_sourceFile remaining .nested .file added found is isNew
  have inRun : Context.file? { added with trail } w.file
      = some (.start w.file unit.tree.fileName unit.level) := by
    simp [added, w, file?, addFile, walkOf]
  obtain ⟨f, inRun, name, level, package⟩ := w.file_enterFile inRun named imports types
  refine ⟨_, trail, f, ?_, inRun, name, level, package⟩
  show (w.visit cx.options.maxDepth .nested .file unit.tree.root added).2 = _
  rw [limit]
  exact visited

/-- Once a file has been analysed, none of its types is accepted any more. -/
theorem analyzeFile_settles {unit : SourceUnit} {named : Option String} {types : List NodeIndex}
    (lists : unit.ListsTypes named types) {remaining : Nat}
    (limit : cx.options.maxDepth = remaining + 1) :
    ∀ idx ∈ types, (cx.walkOf unit).IsSettled (remaining + 1) (named.getD "")
      (cx.analyzeFile unit).2.table idx := by
  obtain ⟨files, trail, f, analyzed, inRun, -, -, package⟩ := known.analyzeFile_types lists limit
  have inFile : Context.package? { cx with files, trail } (cx.walkOf unit).file
      = some (named.getD "") := by
    rw [package?, file?, inRun, Option.map_some, package]
  rw [analyzed]
  exact Walk.each_settles (fun _ => inFile) lists.areTypes lists.apart fun idx _ => known.fresh unit idx

/-- A file whose types are not accepted any more leaves nothing but a record for each of them. -/
theorem analyzeFile_stops {unit : SourceUnit} {named : Option String} {types : List NodeIndex}
    (lists : unit.ListsTypes named types) {remaining : Nat}
    (limit : cx.options.maxDepth = remaining + 1)
    (settled : ∀ idx ∈ types, (cx.walkOf unit).IsSettled (remaining + 1) (named.getD "") cx.table idx) :
    ∃ records files trail, (cx.analyzeFile unit).2 =
        { cx with
          files
          trail
          log :=
            { diagnostics := cx.log.diagnostics ++ records.toArray
              pruned := (types.map ((cx.walkOf unit).file, ·)).reverse ++ cx.log.pruned } }
      ∧ List.Forall₂ ((cx.walkOf unit).IsRefusal (remaining + 1) (named.getD "") unit.tree.fileName)
        records types := by
  obtain ⟨files, trail, f, analyzed, inRun, name, level, package⟩ := known.analyzeFile_types lists limit
  let read : Context := { cx with files, trail }
  have here : read.file? (cx.walkOf unit).file = some f := inRun
  have inFile : read.package? (cx.walkOf unit).file = some (named.getD "") := by
    rw [package?, here, Option.map_some, package]
  have level : (cx.walkOf unit).level read = unit.level := by
    rw [Walk.level, here]
    exact level
  have fileName : read.fileName (cx.walkOf unit).file = unit.tree.fileName := by
    rw [fileName, here]
    exact name
  have nodup : types.Pairwise (· ≠ ·) := by
    refine lists.apart.imp fun {a b} clear => ?_
    rintro rfl
    exact clear.1 .refl
  obtain ⟨records, trail, stopped, refused⟩ := Walk.each_stops inFile level limit settled nodup
    fun idx _ => known.fresh unit idx
  rw [fileName] at refused
  exact ⟨records, files, trail, analyzed.trans stopped, refused⟩

end PrunesKnown

theorem perform_options (cx : Context) (request : Request) : (cx.perform request).options = cx.options := by
  cases request with
  | analyze unit => exact (cx.analyzeFile_run unit).precedes.options
  | settle => exact (Silent.settle cx).options

theorem performAll_options (cx : Context) (requests : List Request) :
    (cx.performAll requests).options = cx.options := by
  induction requests generalizing cx with
  | nil => rfl
  | cons request rest ih => exact (ih _).trans (cx.perform_options request)

/-- A refused class leaves the state as it is. If the walk comes to a class in a file or in a class, takes
it up, and its name has been declared, then it makes one record, prunes the node, and goes on in the same
state. So a file that has been analysed in a run, on any table, and whose types the walk comes to one by
one and in one package, leaves nothing when it is analysed again but one record for each of its types,
which prunes it. -/
theorem redefinitions_refused :
    (∀ (w : Walk) (remaining : Nat) (mode : BlockMode) (scope : WalkScope) (idx : NodeIndex)
        (node : Node) (decl : Walk.TypeDecl) (cx : Context),
      w.Redefines remaining scope idx node decl cx →
        w.Stops idx node.pos (.duplicateClass (w.qualifiedName scope decl.name cx).1) cx
          (w.visit remaining mode scope idx cx))
      ∧ ∀ (table : SymbolTable) (options : Options) (requests : List Request) (unit : SourceUnit)
          (named : Option String) (types : List NodeIndex),
        1 ≤ options.maxDepth → .analyze unit ∈ requests → unit.ListsTypes named types →
        let first := (withTable table options).performAll requests
        let again := first.perform (.analyze unit)
        ∃ records files trail, again =
            { first with
              files
              trail
              log :=
                { diagnostics := first.log.diagnostics ++ records.toArray
                  pruned := (types.map ((first.walkOf unit).file, ·)).reverse ++ first.log.pruned } }
          ∧ List.Forall₂ ((first.walkOf unit).IsRefusal options.maxDepth (named.getD "")
              unit.tree.fileName) records types := by
  refine ⟨fun w remaining mode scope idx node decl cx redefines => redefines.stops mode,
    fun table options requests unit named types positive analyzed lists => ?_⟩
  obtain ⟨remaining, limit⟩ := Nat.exists_eq_succ_of_ne_zero (Nat.one_le_iff_ne_zero.1 positive)
  have started : (withTable table options).PrunesKnown := nofun
  obtain ⟨before, between, rfl⟩ := List.append_of_mem analyzed
  -- the state in which the file is analysed for the first time
  let earlier := (withTable table options).performAll before
  have limited (later : List Request) :
      ((withTable table options).performAll later).options.maxDepth = remaining + 1 := by
    rw [performAll_options]
    exact limit
  have settles := (started.performAll before).analyzeFile_settles lists (limited before)
  have same : (withTable table options).performAll (before ++ .analyze unit :: between)
      = (earlier.analyzeFile unit).2.performAll between := List.foldl_append
  have keeps := SymbolTable.KeepsDeclared.holdsAcross.performAll (earlier.analyzeFile unit).2 between
  rw [← same] at keeps
  rw [limit]
  refine (started.performAll _).analyzeFile_stops lists (limited _) fun idx isIn => ?_
  obtain ⟨node, decl, found, is, settled⟩ := settles idx isIn
  exact ⟨node, decl, found, is, settled.mono keeps⟩

end Context

/-- It can be read off the nodes that a walk comes to. -/
theorem Arena.KeepsClear.of_closed {a : Arena} {package : String} {earlier later : NodeIndex}
    (nodes : List NodeIndex) (isIn : earlier ∈ nodes)
    (closed : ∀ parent ∈ nodes, ∀ child ∈ a.childrenOf parent, child ∈ nodes) (outside : later ∉ nodes)
    (noHeader : ∀ idx ∈ nodes, ∀ node ∈ a.get? idx, node.kind ≠ .sourceFile) :
    a.KeepsClear package earlier later := by
  refine ⟨fun within => outside (mem_of_within isIn closed within),
    fun idx node named imports types within found is => ?_⟩
  refine absurd ?_ (noHeader idx (mem_of_within isIn closed within) node found)
  rw [Node.kind, is]
  rfl

/-- A file of the most restricted level with a class that has a member, an interface and a class. -/
def assorted : SourceUnit where
  level := .elementary
  tree :=
    { fileName := "A.dj0", root := ⟨0⟩
      arena := { nodes := #[
        ⟨.nowhere, .sourceFile (some "p") [] [⟨1⟩, ⟨2⟩, ⟨3⟩]⟩,
        ⟨⟨1, 1⟩, .classDef [] "A" [] none [] [⟨4⟩]⟩,
        ⟨⟨2, 1⟩, .interfaceDef [] "I" [] [] []⟩,
        ⟨⟨3, 1⟩, .classDef [] "B" [] none [] []⟩,
        ⟨⟨1, 9⟩, .classDef [] "M" [] none [] []⟩] } }

/-- When the file is analysed again, its classes are refused for their names and its interface for its
level, as it has been the first time. -/
theorem Context.redefinitions_refused_assorted :
    let first := (withTable .seeded .usual).performAll [.analyze assorted, .settle]
    let w := (withTable .seeded .usual).walkOf assorted
    (∃ node decl, w.Redefines 1 .file ⟨1⟩ node decl first
        ∧ w.Stops ⟨1⟩ ⟨1, 1⟩ (.duplicateClass (w.qualifiedName .file decl.name first).1) first
          (w.visit 1 .nested .file ⟨1⟩ first))
      ∧ assorted.ListsTypes (some "p") [⟨1⟩, ⟨2⟩, ⟨3⟩]
      ∧ ((first.perform (.analyze assorted)).log.diagnostics.toList.map fun d => (d.code, d.line, d.prunes))
        = [(1010, 2, true), (1013, 1, true), (1010, 2, true), (1013, 3, true)]
      ∧ (first.perform (.analyze assorted)).log.pruned
        = [(⟨1⟩, ⟨3⟩), (⟨1⟩, ⟨2⟩), (⟨1⟩, ⟨1⟩), (⟨0⟩, ⟨2⟩)]
      ∧ ∃ records files trail, first.perform (.analyze assorted) =
          { first with
            files
            trail
            log :=
              { diagnostics := first.log.diagnostics ++ records.toArray
                pruned := ([⟨1⟩, ⟨2⟩, ⟨3⟩].map ((first.walkOf assorted).file, ·)).reverse
                  ++ first.log.pruned } }
        ∧ List.Forall₂ ((first.walkOf assorted).IsRefusal Options.usual.maxDepth "p" "A.dj0") records
            [⟨1⟩, ⟨2⟩, ⟨3⟩] := by
  intro first w
  obtain ⟨stops, again⟩ := redefinitions_refused
  have lists : assorted.ListsTypes (some "p") [⟨1⟩, ⟨2⟩, ⟨3⟩] := by
    refine ⟨⟨_, _, rfl, rfl⟩, ?_, ?_⟩
    · simp only [List.forall_mem_cons]
      exact ⟨⟨_, _, rfl, rfl⟩, ⟨_, _, rfl, rfl⟩, ⟨_, _, rfl, rfl⟩, nofun⟩
    · have clear {later : NodeIndex} (outside : later ∉ [(⟨1⟩ : NodeIndex), ⟨4⟩]) :
          assorted.tree.arena.KeepsClear "p" ⟨1⟩ later :=
        .of_closed [⟨1⟩, ⟨4⟩] (by decide) (by decide) outside (by decide)
      have clear' : assorted.tree.arena.KeepsClear "p" ⟨2⟩ ⟨3⟩ :=
        .of_closed [⟨2⟩] (by decide) (by decide) (by decide) (by decide)
      simp only [List.pairwise_cons, List.forall_mem_cons]
      exact ⟨⟨clear (by decide), clear (by decide), nofun⟩, ⟨clear', nofun⟩, nofun, .nil⟩
  have redefines : w.Redefines 1 .file ⟨1⟩ _ _ first :=
    ⟨rfl, rfl, nofun, Nat.one_pos, by decide +kernel, by decide +kernel, by decide +kernel⟩
  have stopped := stops w 1 .nested .file ⟨1⟩ _ _ first redefines
  have analyzed : .analyze assorted ∈ [Request.analyze assorted, .settle] := List.mem_cons_self
  obtain ⟨records, files, trail, is, refused⟩ :=
    again .seeded .usual _ assorted (some "p") _ (by decide) analyzed lists
  exact ⟨⟨_, _, redefines, stopped⟩, lists, by decide +kernel, by decide +kernel, records, files, trail,
    by rw [is], refused⟩

/-- A file whose first class has a header among its members, which names another package. -/
def strayHeader : SourceUnit where
  level := .full
  tree :=
    { fileName := "A.java", root := ⟨0⟩
      arena := { nodes := #[
        ⟨.nowhere, .sourceFile (some "p") [] [⟨1⟩, ⟨2⟩]⟩,
        ⟨⟨1, 1⟩, .classDef [] "A" [] none [] [⟨3⟩]⟩,
        ⟨⟨2, 1⟩, .classDef [] "B" [] none [] []⟩,
        ⟨.nowhere, .sourceFile (some "q") [] []⟩] } }

/-- A file whose first class has its second class as a member, twice. -/
def sharedMember : SourceUnit where
  level := .full
  tree :=
    { fileName := "A.java", root := ⟨0⟩
      arena := { nodes := #[
        ⟨.nowhere, .sourceFile none [] [⟨1⟩, ⟨2⟩]⟩,
        ⟨⟨1, 1⟩, .classDef [] "A" [] none [] [⟨2⟩, ⟨2⟩]⟩,
        ⟨⟨2, 1⟩, .classDef [] "B" [] none [] []⟩] } }

/-- That the root of a file lists classes and no node twice is not enough. When it is analysed again, the
second class of `strayHeader` is declared in another package than before, and that of `sharedMember`, which
had been pruned as a member, is declared for the first time. -/
theorem Context.redefinitions_accepted :
    (∀ unit ∈ [strayHeader, sharedMember],
      (∃ node named imports, unit.tree.arena.get? unit.tree.root = some node
        ∧ node.data = .sourceFile named imports [⟨1⟩, ⟨2⟩])
        ∧ (∀ idx ∈ [(⟨1⟩ : NodeIndex), ⟨2⟩], ∃ node decl, unit.tree.arena.get? idx = some node
          ∧ node.data.typeDecl? = some decl)
        ∧ 1 ≤ Options.usual.maxDepth
        ∧ ((start .usual).performAll [.analyze unit, .analyze unit]).table
          ≠ ((start .usual).performAll [.analyze unit]).table)
      ∧ ((start .usual).performAll [.analyze strayHeader, .analyze strayHeader]).declarations
        = ["p.A", "q.B", "p.B"]
      ∧ ((start .usual).performAll [.analyze sharedMember, .analyze sharedMember]).declarations
        = ["A", "A$B", "B"] := by
  refine ⟨?_, by decide +kernel, by decide +kernel⟩
  have grows : ∀ unit ∈ [strayHeader, sharedMember],
      ((start .usual).performAll [.analyze unit, .analyze unit]).table.size
        ≠ ((start .usual).performAll [.analyze unit]).table.size := by decide +kernel
  simp only [List.forall_mem_cons] at grows ⊢
  obtain ⟨stray, shared, -⟩ := grows
  have usual : 1 ≤ Options.usual.maxDepth := by decide
  refine ⟨⟨⟨_, _, _, rfl, rfl⟩, ⟨⟨_, _, rfl, rfl⟩, ⟨_, _, rfl, rfl⟩, nofun⟩, usual,
      fun same => stray (congrArg SymbolTable.size same)⟩,
    ⟨⟨_, _, _, rfl, rfl⟩, ⟨⟨_, _, rfl, rfl⟩, ⟨_, _, rfl, rfl⟩, nofun⟩, usual,
      fun same => shared (congrArg SymbolTable.size same)⟩, nofun⟩

end LevelCheck
