import LevelCheck.Proofs.WalkLockstep
set_option autoImplicit false

/-! # Where duplicate variables are looked for

Whether a local variable may repeat a name of a body around its own is an option of a run. The names
of the enclosing bodies include those of the body itself, so what collides without regard to the
others collides with regard to them too. Each name that collides is recorded once in a declaration,
which leaves the state as it is but for the log, and such a record prunes nothing. So the two runs
differ in records of duplicate variables alone, and one of them has more of these. -/

namespace LevelCheck

/-! ## Names that collide -/

namespace SymbolTable

variable (t : SymbolTable) (body : BodyId)

theorem mem_bodies : body ∈ t.bodies body.scope := by
  cases body <;> simp [bodies, bodiesFrom, BodyId.scope]

theorem namesInBody_subset : t.namesInBody body .immediate ⊆ t.namesInBody body .enclosingBodies := by
  intro name declared
  exact List.mem_flatMap.2 ⟨body, t.mem_bodies body, declared⟩

/-- What collides within a body collides within the bodies around it too. -/
theorem collidingIn_subset (names : List String) :
    t.collidingIn body names .immediate ⊆ t.collidingIn body names .enclosingBodies := by
  intro name collides
  unfold collidingIn at collides ⊢
  obtain ⟨fresh, declared, seen | twice⟩ := mem_collisions.1 collides
  · exact mem_collisions.2 ⟨fresh, declared, .inl (t.namesInBody_subset body seen)⟩
  · exact mem_collisions.2 ⟨fresh, declared, .inr twice⟩

/-- The further names that collide within the bodies around a body. -/
theorem exists_collidingIn (names : List String) : ∃ others,
    (t.collidingIn body names .enclosingBodies).Perm
      (t.collidingIn body names .immediate ++ others) := by
  have distinct : (t.collidingIn body names .immediate).Nodup := nodup_collisions _ _ _
  obtain ⟨listed, same, sublist⟩ :=
    List.subperm_of_subset distinct (t.collidingIn_subset body names)
  obtain ⟨others, split⟩ := sublist.exists_perm_append
  exact ⟨others, split.trans (same.append_right others)⟩

end SymbolTable

/-! ## Records of duplicate variables -/

/-- The record says that a variable has been declared twice, and prunes nothing. -/
def Diagnostic.IsDuplicate (d : Diagnostic) : Prop :=
  d.code = Problem.duplicateVariable.code ∧ d.prunes = false

/-- There are the same records and more of duplicate variables, in any order. -/
def AddsDuplicates (few many : List Diagnostic) : Prop :=
  ∃ extra : List Diagnostic, (∀ d ∈ extra, d.IsDuplicate) ∧ many.Perm (few ++ extra)

namespace AddsDuplicates

open scoped List

variable {few many : List Diagnostic}

theorem append (adds : AddsDuplicates few many) (records : List Diagnostic) :
    AddsDuplicates (few ++ records) (many ++ records) := by
  obtain ⟨extra, duplicates, same⟩ := adds
  refine ⟨extra, duplicates, ?_⟩
  calc many ++ records
    _ ~ (few ++ extra) ++ records := same.append_right records
    _ ~ few ++ (records ++ extra) := by
      rw [List.append_assoc]
      exact List.perm_append_comm.append_left few
    _ = few ++ records ++ extra := (List.append_assoc ..).symm

/-- More names may be recorded as declared twice. -/
theorem record (adds : AddsDuplicates few many) (file : String) (pos : String → Position)
    {names more others : List String} (split : more.Perm (names ++ others)) :
    let record := fun name => Diagnostic.ofProblem file (pos name) .duplicateVariable
    AddsDuplicates (few ++ names.map record) (many ++ more.map record) := by
  intro record
  obtain ⟨extra, duplicates, same⟩ := adds.append (names.map record)
  refine ⟨extra ++ others.map record, ?_, ?_⟩
  · intro d added
    rcases List.mem_append.1 added with before | now
    · exact duplicates d before
    · obtain ⟨name, -, rfl⟩ := List.mem_map.1 now
      exact ⟨rfl, rfl⟩
  · have recorded : (more.map record).Perm (names.map record ++ others.map record) := by
      rw [← List.map_append]
      exact split.map record
    calc many ++ more.map record
      _ ~ many ++ (names.map record ++ others.map record) := recorded.append_left many
      _ = (many ++ names.map record) ++ others.map record := (List.append_assoc ..).symm
      _ ~ ((few ++ names.map record) ++ extra) ++ others.map record := same.append_right _
      _ = (few ++ names.map record) ++ (extra ++ others.map record) := List.append_assoc ..

theorem count_le (adds : AddsDuplicates few many) (d : Diagnostic) : few.count d ≤ many.count d := by
  obtain ⟨extra, -, same⟩ := adds
  rw [same.count_eq, List.count_append]
  omega

theorem isDuplicate (adds : AddsDuplicates few many) {d : Diagnostic}
    (added : few.count d < many.count d) : d.IsDuplicate := by
  obtain ⟨extra, duplicates, same⟩ := adds
  rw [same.count_eq, List.count_append] at added
  exact duplicates d (List.count_pos_iff.1 (by omega))

end AddsDuplicates

theorem ErrorLog.addCollisions_eq (log : ErrorLog) (file : String) (pos : String → Position)
    (names : List String) :
    (log.addCollisions file pos names).pruned = log.pruned
      ∧ (log.addCollisions file pos names).diagnostics.toList = log.diagnostics.toList
          ++ names.map fun name => .ofProblem file (pos name) .duplicateVariable := by
  unfold addCollisions
  induction names generalizing log with
  | nil => simp
  | cons name rest ih =>
    rw [List.foldl_cons]
    obtain ⟨pruned, records⟩ := ih (log.add _)
    refine ⟨pruned, ?_⟩
    rw [records]
    simp [add]

/-! ## The two runs -/

/-- Two runs are compared up to records of duplicate variables. The first looks for duplicates in
the body of a declaration alone. -/
def Lockstep.upToDuplicates : Lockstep where
  final := id
  level := id
  options o o' := o.duplicateScope = .immediate ∧ o' = { o with duplicateScope := .enclosingBodies }
  logs l l' := l'.pruned = l.pruned ∧ AddsDuplicates l.diagnostics.toList l'.diagnostics.toList
  ends _ := False
  ends_mono _ never := never
  add d same := by
    refine ⟨same.1, ?_⟩
    simpa [ErrorLog.add] using same.2.append [d]
  addPruning file node d same := by
    refine ⟨congrArg (List.insert (file, node)) same.1, ?_⟩
    simpa [ErrorLog.addPruning] using same.2.append [d.pruning]
  collide {o o' log log'} t body names file pos options same := by
    obtain ⟨others, split⟩ := t.exists_collidingIn body names
    obtain ⟨immediate, enclosing⟩ := options
    obtain ⟨pruned, records⟩ := log.addCollisions_eq file pos
      (t.collidingIn body names o.duplicateScope)
    obtain ⟨pruned', records'⟩ := log'.addCollisions_eq file pos
      (t.collidingIn body names o'.duplicateScope)
    refine ⟨by rw [pruned', pruned, same.1], ?_⟩
    rw [records, records', immediate, enclosing]
    exact same.2.record file pos split

theorem Lockstep.upToDuplicates_isExact : upToDuplicates.IsExact where
  final := rfl
  level := rfl
  pruned same := same.1

namespace Lockstep.Alike

variable {a b : Context} (alike : upToDuplicates.Alike a b)
include alike

theorem table_eq : b.table = a.table := upToDuplicates_isExact.table_eq alike

theorem files_eq : b.files = a.files := upToDuplicates_isExact.files_eq alike

theorem maxDepth_eq : b.options.maxDepth = a.options.maxDepth := by rw [alike.options.2]

end Lockstep.Alike

namespace Walk

open Lockstep

variable (w : Walk) {a b : Context}

theorem refuseDepth_together (alike : upToDuplicates.Alike a b) (idx : NodeIndex) (node : Node) :
    upToDuplicates.Together (w.refuseDepth idx node a) (w.refuseDepth idx node b) := by
  have noted := w.note_alike alike w idx 0 0 none none
  rw [refuseDepth, refuseDepth, upToDuplicates_isExact.isPruned_eq noted, noted.maxDepth_eq]
  split
  · exact .inr noted
  · exact .inr (noted.reportPruning w.file idx node.pos _)

theorem visit_upToDuplicates (remaining : Nat) (mode : BlockMode) {scope : WalkScope}
    (idx : NodeIndex) (isOpen : scope.IsOpenIn a.table) (alike : upToDuplicates.Alike a b) :
    upToDuplicates.Together (w.visit remaining mode scope idx a).2
      (w.visit remaining mode scope idx b).2 :=
  visit_together w w.policy (fun idx node _ _ alike => w.refuseDepth_together alike idx node)
    (fun remaining scope idx node _ _ alike =>
      w.inspect_agrees upToDuplicates_isExact alike remaining remaining scope idx node)
    remaining mode idx isOpen alike

end Walk

open Lockstep

theorem Context.analyzeFile_upToDuplicates {a b : Context} (alike : upToDuplicates.Alike a b)
    (unit : SourceUnit) :
    upToDuplicates.Together (a.analyzeFile unit).2 (b.analyzeFile unit).2 := by
  obtain ⟨file, added⟩ := alike.addFile unit.tree.fileName unit.level unit.level rfl
  have depth := added.maxDepth_eq
  simp only [analyzeFile, Walk.visitIn, depth, ← file]
  exact Walk.visit_upToDuplicates _ _ .nested unit.tree.root (WalkScope.isOpenIn_file _) added

/-- Looking for duplicates in the bodies around a body adds records of duplicate variables, and
changes neither the table nor the files. -/
theorem Analysis.ofUnits_duplicateScope (units : List SourceUnit) (options : Options) :
    let immediate := ofUnits units { options with duplicateScope := .immediate }
    let enclosing := ofUnits units { options with duplicateScope := .enclosingBodies }
    enclosing.table = immediate.table
      ∧ enclosing.files = immediate.files
      ∧ (∀ d, immediate.diagnostics.count d ≤ enclosing.diagnostics.count d)
      ∧ ∀ d, immediate.diagnostics.count d < enclosing.diagnostics.count d →
          d.code = Problem.duplicateVariable.code ∧ d.prunes = false := by
  intro immediate enclosing
  have same : upToDuplicates.Alike
      (.start { options with duplicateScope := .immediate })
      (.start { options with duplicateScope := .enclosingBodies }) :=
    ⟨rfl, rfl, rfl, rfl, ⟨rfl, rfl⟩, ⟨rfl, [], by simp, .refl _⟩⟩
  have file {unit unit' : SourceUnit} {a b : Context} (is : unit = unit')
      (alike : upToDuplicates.Alike a b) :
      upToDuplicates.Together (a.analyzeFile unit).2 (b.analyzeFile unit').2 := by
    subst is
    exact Context.analyzeFile_upToDuplicates alike unit
  have together := Context.analyzeFiles_together file (List.forall₂_refl units) same
  rcases Context.settle_together together with ended | alike
  · exact ended.elim
  · have adds : AddsDuplicates immediate.diagnostics enclosing.diagnostics := alike.log.2
    exact ⟨alike.table_eq, congrArg Array.toList alike.files_eq, adds.count_le,
      fun d added => adds.isDuplicate added⟩

end LevelCheck
