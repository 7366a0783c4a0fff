import LevelCheck.Proofs.Levels
set_option autoImplicit false

/-! # A limit of nesting that is not reached

A run that never comes to its limit of nesting does what it does with any greater limit. The two runs
are compared until a node is recorded as nested too deeply: up to then, every node that the one visits
with some levels of nesting remaining, the other visits with more. Where none remain, a node that has
been pruned before is passed over in both runs, and any other node ends the comparison. -/

namespace LevelCheck

/-- The record says that a node is nested too deeply. -/
def Diagnostic.IsTooDeep (d : Diagnostic) : Prop :=
  ∃ limit, d.code = (Problem.nestingTooDeep limit).code

instance : DecidablePred Diagnostic.IsTooDeep := fun _ =>
  decidable_of_iff (_ = (Problem.nestingTooDeep 0).code) ⟨fun is => ⟨0, is⟩, fun ⟨_, is⟩ => is⟩

/-- Two runs that differ in their limit of nesting are compared until a node is nested too deeply in
the first. -/
def Lockstep.untilTooDeep (more : Nat) : Lockstep where
  final := id
  level := id
  options o o' := o' = { o with maxDepth := o.maxDepth + more }
  logs := Eq
  ends records := ∃ d ∈ records, d.IsTooDeep
  ends_mono := fun grows ⟨d, recorded, isTooDeep⟩ => ⟨d, grows.subset recorded, isTooDeep⟩
  add := @Lockstep.untilRecorded.add
  addPruning := @Lockstep.untilRecorded.addPruning
  collide t body names file pos options same := by rw [options, same]

open Lockstep

variable {more : Nat} {a b : Context}

theorem Lockstep.untilTooDeep_isExact (more : Nat) : (untilTooDeep more).IsExact where
  final := rfl
  level := rfl
  pruned same := congrArg ErrorLog.pruned same.symm

namespace Walk

variable (w : Walk)

/-- A node that is nested too deeply for the first run has been pruned before, or it ends the
comparison. -/
theorem refuseDepth_untilTooDeep {idx : NodeIndex} {node : Node} {next : Context}
    (passes : a.log.isPruned w.file idx = true → (untilTooDeep more).Alike (w.note idx 0 none a) next) :
    (untilTooDeep more).Together (w.refuseDepth idx node a) next := by
  rw [refuseDepth]
  split
  · next pruned => exact .inr (passes pruned)
  · refine .inl ⟨_, Array.mem_toList_iff.2 Array.mem_push_self, ?_⟩
    exact ⟨(w.note idx 0 none a).options.maxDepth, rfl⟩

theorem untilTooDeep_isKept (more : Nat) : ((untilTooDeep more).comparison w w.policy).IsKept := by
  have exact := untilTooDeep_isExact more
  refine comparison_isKept _ w w.policy (fun idx node a b alike => ?_)
    fun remaining scope idx node a b alike =>
      w.inspect_agrees exact alike remaining remaining scope idx node
  refine w.refuseDepth_untilTooDeep fun pruned => ?_
  have noted := w.note_alike alike w idx 0 0 none none
  have pruned' : (w.note idx 0 none b).log.isPruned w.file idx = true := by
    rwa [exact.isPruned_eq noted]
  have passed : (w.atLevel w.policy).refuseDepth idx node b = w.note idx 0 none b := if_pos pruned'
  rwa [passed]

/-- The second walk may go down further. -/
theorem untilTooDeep_deepens (more : Nat) :
    ((untilTooDeep more).comparison w w.policy).Deepens more where
  refuses mode idx node a b s s' found twins alike := by
    refine w.refuseDepth_untilTooDeep fun pruned => ?_
    have pruned' : b.log.isPruned w.file idx = true := by
      rwa [(untilTooDeep_isExact more).isPruned_eq alike]
    have passed := (w.atLevel w.policy).visit_of_pruned b more s' idx node mode found pruned'
    rw [comparison, passed]
    exact w.note_alike alike w idx 0 more none none
  inspects remaining idx node a b s s' twins alike := by
    obtain ⟨rfl, -⟩ := twins
    exact w.inspect_agrees (untilTooDeep_isExact more) alike remaining (remaining + more) s idx node

end Walk

theorem Context.analyzeFile_deeper (alike : (untilTooDeep more).Alike a b) (unit : SourceUnit) :
    (untilTooDeep more).Together (a.analyzeFile unit).2 (b.analyzeFile unit).2 := by
  obtain ⟨file, added⟩ := alike.addFile unit.tree.fileName unit.level unit.level rfl
  have depth : b.options.maxDepth = a.options.maxDepth + more := by rw [alike.options]
  let walk : Walk :=
    { arena := unit.tree.arena, policy := unit.level
      file := (a.addFile unit.tree.fileName unit.level).1 }
  have deepens := walk.untilTooDeep_deepens more
  have couples := (walk.untilTooDeep_isKept more).visit_deeper deepens a.options.maxDepth
  have isOpen (t : SymbolTable) : WalkScope.file.IsOpenIn t := WalkScope.isOpenIn_file t
  have visited := couples.together .nested unit.tree.root ⟨rfl, isOpen _, isOpen _⟩ added
  rw [← depth] at visited
  simp only [analyzeFile, Walk.visitIn, ← file]
  exact visited

/-- A run that records no node as nested too deeply has the same outcome with any greater limit of
nesting: the same table, the same records, and the same scopes of all files with whatever is known in
them. -/
theorem Analysis.ofUnits_deeper (units : List SourceUnit) (options : Options) {depth : Nat}
    (le : options.maxDepth ≤ depth)
    (reaches : ∀ d ∈ (ofUnits units options).diagnostics, ¬ d.IsTooDeep) :
    ofUnits units { options with maxDepth := depth } = ofUnits units options := by
  obtain ⟨more, rfl⟩ := Nat.exists_eq_add_of_le le
  have same : (untilTooDeep more).Alike (.start options)
      (.start { options with maxDepth := options.maxDepth + more }) :=
    ⟨rfl, rfl, rfl, rfl, rfl, rfl⟩
  have file {unit unit' : SourceUnit} {a b : Context} (is : unit = unit')
      (alike : (untilTooDeep more).Alike a b) :
      (untilTooDeep more).Together (a.analyzeFile unit).2 (b.analyzeFile unit').2 := by
    subst is
    exact Context.analyzeFile_deeper alike unit
  have together := Context.analyzeFiles_together file (List.forall₂_refl units) same
  rcases Context.settle_together together with ⟨d, recorded, isTooDeep⟩ | alike
  · exact absurd isTooDeep (reaches d recorded)
  · have exact := untilTooDeep_isExact more
    have log : _ = _ := alike.log
    rw [ofUnits, ofUnits, ofContext, ofContext, exact.table_eq alike, exact.files_eq alike, ← log]

/-- A local variable is declared at the fifth level of nesting. A file that is analysed twice repeats
its class and has nothing nested too deeply with five levels, so more levels change nothing; with four
levels, the declaration is refused. -/
theorem Analysis.ofUnits_deeper_local :
    let units : List SourceUnit := [⟨localInMethod, .full⟩, ⟨localInMethod, .full⟩]
    let shallow : Options := { Options.usual with maxDepth := 5 }
    let refusing : Options := { Options.usual with maxDepth := 4 }
    (ofUnits units shallow).diagnostics.map (·.code) = [1013]
      ∧ ofUnits units .usual = ofUnits units shallow
      ∧ ∃ d ∈ (ofUnits units refusing).diagnostics, d.IsTooDeep := by
  intro units shallow refusing
  exact ⟨by decide +kernel, ofUnits_deeper units shallow (by decide) (by decide +kernel),
    by decide +kernel⟩

end LevelCheck
