import LevelCheck.Proofs.Pruning
import LevelCheck.Proofs.SilentLinking
set_option autoImplicit false

/-! # How far a walk reaches

From some nodes on, a walk prunes only nodes that can be reached from them, and the package of its file
stays as it is unless a header among those nodes names another. This holds on every arena, also where
nodes can be reached from themselves. -/

namespace LevelCheck

/-- The package of a file of the run. -/
def Context.package? (cx : Context) (file : FileId) : Option String := (cx.file? file).map (·.package)

theorem Context.package?_of_files {a b : Context} (files : b.files = a.files) (file : FileId) :
    b.package? file = a.package? file := by
  rw [package?, package?, file?, file?, files]

theorem Context.defineComplete_files (cx : Context) (id : SymbolId) :
    (cx.defineComplete id).files = cx.files := by
  rw [defineComplete_eq]
  exact (Silent.foldl (fun cx r => .resume r id cx) _ _).files

theorem Context.beginClass_files {a b : Context} {id : SymbolId} {qualified : String}
    {outer : Option ScopeRef} {head : Symbol → Symbol}
    (begun : a.beginClass? qualified outer head = some (id, b)) : b.files = a.files := by
  obtain ⟨t, -, rfl⟩ := Context.beginClass_some begun
  rfl

namespace Walk

variable (w : Walk)

/-! ## Calls -/

theorem reportDuplicates_files (declarators : List Declarator) (pos : Position)
    (problem : String → Problem) (duplicates : List String) (cx : Context) :
    (w.reportDuplicates declarators pos problem duplicates cx).files = cx.files := by
  induction duplicates generalizing cx with
  | nil => rfl
  | cons name rest ih => exact ih _

theorem declareVariables_files (scope : ScopeRef) (written : List Declarator) (pos : Position)
    (problem : String → Problem) (entry : Declared × SymbolTable) (cx : Context) :
    (w.declareVariables scope written pos problem entry cx).files = cx.files :=
  (w.linkVariables_silent ..).files.trans (w.reportDuplicates_files written pos problem _ _)

theorem enterMethod_files (owner : SymbolId) (pos : Position) (decl : MethodDecl) (cx : Context) :
    (w.enterMethod owner pos decl cx).2.files = cx.files := by
  rw [enterMethod_eq]
  simp only
  rw [declareParams, (w.linkSignature_silent ..).files, w.reportDuplicates_files, reportAll_eq]

theorem enterException_files (id : BlockId) (exception : NodeIndex) (cx : Context) :
    (w.enterException id exception cx).2.files = cx.files := by
  rw [enterException_eq]
  split
  · rfl
  · exact w.declareVariables_files ..

/-- A file keeps its name and its level when its header is read, and is in the package that the header
names. -/
theorem file_enterFile {cx : Context} {f : FileScope} (inRun : cx.file? w.file = some f)
    (package : Option String) (imports : List ImportDecl) (types : List NodeIndex) :
    ∃ g, (w.enterFile package imports types cx).file? w.file = some g
      ∧ g.name = f.name ∧ g.level = f.level ∧ g.package = package.getD "" := by
  obtain ⟨name, -, level⟩ :=
    FileScope.KeepsIdentity.header (types.filterMap w.typeName?) package imports f
  refine ⟨_, ?_, name, level, f.header_package (types.filterMap w.typeName?) package imports⟩
  rw [Context.file?] at inRun
  simp [Context.file?, enterFile, Context.modifyFile, Array.getElem?_modify, inRun]

/-- A header of the kind names the package. -/
def HasHeader (w : Walk) (within : NodeIndex → Prop) (package : Option String) : Prop :=
  ∃ idx node imports types, within idx ∧ w.arena.get? idx = some node
    ∧ node.data = .sourceFile package imports types

/-- From the first state to the second, only nodes of the kind have been pruned, and if the file is in
another package, a header of the kind names it. -/
structure StaysWithin (w : Walk) (within : NodeIndex → Prop) (a b : Context) : Prop where
  pruned : ∀ entry ∈ b.log.pruned, entry ∈ a.log.pruned ∨ entry.1 = w.file ∧ within entry.2
  package : b.package? w.file = a.package? w.file
    ∨ ∃ package, w.HasHeader within package ∧ b.package? w.file = some (package.getD "")

variable {w} {within : NodeIndex → Prop} {a b c : Context}

namespace StaysWithin

theorem refl (a : Context) : w.StaysWithin within a a := ⟨fun _ => .inl, .inl rfl⟩

theorem trans (first : w.StaysWithin within a b) (second : w.StaysWithin within b c) :
    w.StaysWithin within a c where
  pruned entry isIn := (second.pruned entry isIn).elim (first.pruned entry) .inr
  package := second.package.elim (fun same => same ▸ first.package) .inr

theorem of_same (pruned : b.log.pruned = a.log.pruned) (files : b.files = a.files) :
    w.StaysWithin within a b :=
  ⟨fun _ isIn => .inl (pruned ▸ isIn), .inl (Context.package?_of_files files w.file)⟩

theorem of_prunes {idx : NodeIndex} (prunes : w.Prunes (· = idx) a b) (isWithin : within idx)
    (files : b.files = a.files) : w.StaysWithin within a b := by
  refine ⟨fun entry isIn => ?_, .inl (Context.package?_of_files files w.file)⟩
  obtain ⟨-, nodes, -, pruned, -, -, -, fresh⟩ := prunes
  rw [pruned] at isIn
  rcases List.mem_append.1 isIn with isNew | before
  · obtain ⟨n, isNode, rfl⟩ := List.mem_map.1 (List.mem_reverse.1 isNew)
    exact .inr ⟨rfl, (fresh n isNode).2 ▸ isWithin⟩
  · exact .inl before

theorem reportPruning {idx : NodeIndex} (isWithin : within idx) (a : Context) (pos : Position)
    (p : Problem) : w.StaysWithin within a (a.reportPruning w.file idx pos p) := by
  refine ⟨fun entry isIn => ?_, .inl rfl⟩
  rcases List.mem_insert_iff.1 isIn with rfl | before
  · exact .inr ⟨rfl, isWithin⟩
  · exact .inl before

theorem inspect {remaining : Nat} {scope : WalkScope} {idx : NodeIndex} {node : Node}
    {entry : Option Admission × Context} (found : w.arena.get? idx = some node)
    (isWithin : within idx) (is : w.inspect remaining scope idx node a = entry) :
    w.StaysWithin within a entry.2 := by
  rw [← is]
  obtain ⟨log, changes⟩ := w.inspect_changes a remaining scope idx node
  exact .of_prunes (prunes_inspect found a) isWithin (by rw [changes])

theorem qualifiedName (scope : WalkScope) (simple : String) (a : Context) :
    w.StaysWithin within a (w.qualifiedName scope simple a).2 :=
  .of_same (w.qualifiedName_prunesNothing scope simple a).pruned (w.qualifiedName_frame scope simple a).2

theorem beginClass {id : SymbolId} {qualified : String} {outer : Option ScopeRef}
    {head : Symbol → Symbol} (begun : a.beginClass? qualified outer head = some (id, b)) :
    w.StaysWithin within a b :=
  .of_same (Context.PrunesNothing.beginClass begun).pruned (Context.beginClass_files begun)

theorem linkParents (id : SymbolId) (pos : Position) (qualified : String) (decl : TypeDecl)
    (a : Context) : w.StaysWithin within a (w.linkParents id pos qualified decl a) :=
  .of_same (w.linkParents_prunesNothing id pos qualified decl a).pruned
    (w.linkParents_silent id pos qualified decl a).files

theorem defineComplete (a : Context) (id : SymbolId) :
    w.StaysWithin within a (a.defineComplete id) :=
  .of_same (Context.PrunesNothing.defineComplete a id).pruned (a.defineComplete_files id)

end StaysWithin

theorem Calls.staysWithin {mode : BlockMode} {scope inner : WalkScope} {idx : NodeIndex} {node : Node}
    {force : Bool} {nodes : List (BlockMode × NodeIndex)} (isOpen : scope.IsOpenIn a.table)
    (found : w.arena.get? idx = some node) (isWithin : within idx)
    (calls : w.Calls mode scope node force a inner nodes b) : w.StaysWithin within a b := by
  have pruned := (calls.prunesNothing isOpen found).pruned
  cases calls with
  | @header package imports types is =>
    refine ⟨fun _ => .inl, ?_⟩
    cases inRun : a.file? w.file with
    | none =>
      left
      rw [Context.file?] at inRun
      simp [Context.package?, Context.file?, enterFile, Context.modifyFile, Array.getElem?_modify, inRun]
    | some f =>
      obtain ⟨g, inRun', -, -, named⟩ := w.file_enterFile inRun package imports types
      refine .inr ⟨package, ⟨idx, node, imports, types, isWithin, found, is⟩, ?_⟩
      rw [Context.package?, inRun', Option.map_some, named]
  | method => exact .of_same pruned (w.enterMethod_files ..)
  | fields | locals => exact .of_same pruned (w.declareVariables_files ..)
  | handler => exact .of_same pruned (w.enterException_files ..)
  | mention => exact .of_same pruned (Context.Silent.linkType ..).files
  | block | statements | initializer | innerInitializer | loop | fileLoop | anonymousAtFile
  | children | stray => exact .of_same pruned rfl

/-! ## Journeys -/

section

variable (closed : ∀ parent child, within parent → w.arena.Refers parent child → within child)
include closed

theorem within_below {top idx : NodeIndex} (isWithin : within top) (below : w.arena.Below top idx) :
    within idx := by
  induction below with
  | child refers => exact closed _ _ isWithin refers
  | step _ refers ih => exact closed _ _ ih refers

/-- What a walk prunes, and which headers it reads, is among the nodes that can be reached. -/
theorem Journey.staysWithin {scope : WalkScope} {nodes : List (BlockMode × NodeIndex)}
    (journey : w.Journey scope nodes a b) (inside : ∀ entry ∈ nodes, within entry.2) :
    w.StaysWithin within a b := by
  have below {idx : NodeIndex} {nodes : List (BlockMode × NodeIndex)} (isWithin : within idx)
      (below : ∀ entry ∈ nodes, w.arena.Below idx entry.2) : ∀ entry ∈ nodes, within entry.2 :=
    fun entry isIn => within_below closed isWithin (below entry isIn)
  induction journey with
  | done => exact .refl _
  | absent _ _ ih => exact ih (List.forall_mem_of_forall_mem_cons inside)
  | @refused _ _ idx node _ a _ _ found _ ih =>
    have refused : w.StaysWithin within a (w.refuseDepth idx node a) :=
      .of_prunes (prunes_refuseDepth found a) (inside _ List.mem_cons_self)
        (by rw [w.refuseDepth_eq])
    exact refused.trans (ih (List.forall_mem_of_forall_mem_cons inside))
  | skipped _ found skips _ ih =>
    exact (StaysWithin.inspect found (inside _ List.mem_cons_self) skips).trans
      (ih (List.forall_mem_of_forall_mem_cons inside))
  | entered isOpen found admits calls _ _ ihInside ihAfter =>
    have here := inside _ List.mem_cons_self
    have called := calls.staysWithin (Journeys.isOpen_inspected isOpen admits) found here
    exact (((StaysWithin.inspect found here admits).trans called).trans
      (ihInside (below here (calls.below found)))).trans
      (ihAfter (List.forall_mem_of_forall_mem_cons inside))
  | @duplicate scope _ idx node _ _ decl _ _ b _ _ found admits _ _ ih =>
    have here := inside _ List.mem_cons_self
    have named := (StaysWithin.inspect found here admits).trans (.qualifiedName scope decl.name b)
    exact (named.trans (.reportPruning here _ _ _)).trans
      (ih (List.forall_mem_of_forall_mem_cons inside))
  | @declared scope _ _ node _ _ decl id _ _ b c d _ _ found admits is begun _ _ ihMembers ihAfter =>
    have here := inside _ List.mem_cons_self
    have named := (StaysWithin.inspect found here admits).trans (.qualifiedName scope decl.name b)
    have linked := (named.trans (.beginClass begun)).trans
      (.linkParents id node.pos (w.qualifiedName scope decl.name b).1 decl c)
    have members := ihMembers (below here (below_nested found (members_subset is)))
    exact ((linked.trans members).trans (.defineComplete d id)).trans
      (ihAfter (List.forall_mem_of_forall_mem_cons inside))
  | @anonymousDuplicate _ ref _ _ node _ _ outer _ arguments _ _ _ _ c _ _ found admits is _ _ _ ihBefore
      ihAfter =>
    have here := inside _ List.mem_cons_self
    have before := ihBefore (below here (below_nested found (anonymous_subset is).1))
    have counted : w.StaysWithin within c (numbered ref c) := .of_same rfl rfl
    exact ((((StaysWithin.inspect found here admits).trans before).trans counted).trans
      (.reportPruning here _ _ _)).trans (ihAfter (List.forall_mem_of_forall_mem_cons inside))
  | @anonymous _ ref _ _ node _ _ outer type arguments members id _ _ _ c d e _ _ found admits is _ _
      begun _ _ ihBefore ihMembers ihAfter =>
    have here := inside _ List.mem_cons_self
    have before := ihBefore (below here (below_nested found (anonymous_subset is).1))
    have counted : w.StaysWithin within c (numbered ref c) := .of_same rfl rfl
    have linked := (counted.trans (.beginClass begun)).trans (.of_same
      (Context.PrunesNothing.linkType d w.file (some ref) type node.pos (.anonymousBase id)).pruned
      (Context.Silent.linkType ..).files)
    have inner := ihMembers (below here (below_nested found (anonymous_subset is).2))
    exact (((((StaysWithin.inspect found here admits).trans before).trans linked).trans inner).trans
      (.defineComplete e id)).trans (ihAfter (List.forall_mem_of_forall_mem_cons inside))

end

end Walk

end LevelCheck
