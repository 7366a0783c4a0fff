import LevelCheck.Proofs.WalkLockstep
set_option autoImplicit false

/-! # More permissive levels

What is clean at some levels is clean at more permissive ones, and has the same symbol table there, up
to which variables are final. The two runs are compared until the stricter one records something.
As long as it does not, its policies have raised nothing, so those of the other run raise nothing
either: both offer the same nodes and visit the same children, and nothing else in a walk, in
resolving names or in settling depends on a level or on finality. -/

namespace LevelCheck

/-- Two runs are compared up to levels and finality, until the first of them records anything. -/
def Lockstep.untilRecorded : Lockstep where
  final := fun _ => false
  level := fun _ => .full
  options := Eq
  logs := Eq
  ends := (· ≠ [])
  ends_mono := List.IsPrefix.ne_nil
  add d same := congrArg (·.add d) same
  addPruning file node d same := congrArg (·.addPruning file node d) same
  collide t body names file pos options same := by rw [options, same]

namespace Walk

open Lockstep

variable (w : Walk) {a b : Context}

/-! ## Inspecting a node by two policies -/

/-- What is recorded stays. -/
theorem reportAll_log (pos : Position) (problems : List Problem) (cx : Context) :
    cx.log.diagnostics.toList <+: (w.reportAll pos problems cx).log.diagnostics.toList := by
  induction problems generalizing cx with
  | nil => exact List.prefix_rfl
  | cons p rest ih => exact (Context.Precedes.report cx w.file pos p).log.trans (ih _)

theorem reportAll_ends (pos : Position) {problems : List Problem} (raised : problems ≠ [])
    (cx : Context) :
    untilRecorded.ends (w.reportAll pos problems cx).log.diagnostics.toList := by
  obtain ⟨p, rest, rfl⟩ := List.exists_cons_of_ne_nil raised
  refine untilRecorded.ends_mono (w.reportAll_log pos rest (cx.report w.file pos p)) ?_
  simp [Context.report, ErrorLog.add, untilRecorded]

theorem refuse_ends (node : NodeIndex) (pos : Position) (first : Problem) (rest : List Problem)
    (cx : Context) :
    untilRecorded.ends
      (w.reportAll pos rest (cx.reportPruning w.file node pos first)).log.diagnostics.toList := by
  refine untilRecorded.ends_mono (w.reportAll_log pos rest _) ?_
  simp [Context.reportPruning, ErrorLog.addPruning, untilRecorded]

/-- A more permissive policy raises nothing about a node where the stricter one does not. -/
theorem rulingOn_atLevel (alike : untilRecorded.Alike a b) {policy : Level}
    (le : w.policy.rank ≤ policy.rank) (scope : WalkScope) (node : Node)
    (clean : (w.rulingOn scope node a).raised = []) :
    ((w.atLevel policy).rulingOn scope node b).raised = [] := by
  -- the two policies are asked about the same node, but would name different levels
  have inConstructor : inConstructor scope b = inConstructor scope a := by
    cases scope with
    | body id => exact (alike.read (·.isConstructor id) fun t => t.isConstructor_mapFinal _ id).symm
    | file | classBody id => rfl
  have offered : (w.atLevel policy).offer scope node b
      = { w.offer scope node a with level := (w.atLevel policy).level b } := by
    rw [offer, offer, inConstructor]
  rw [rulingOn, offered]
  exact Policy.ruling_mono le _ clean

theorem refuseDepth_alike (alike : untilRecorded.Alike a b) (policy : Level) (idx : NodeIndex)
    (node : Node) :
    untilRecorded.Alike (w.refuseDepth idx node a) ((w.atLevel policy).refuseDepth idx node b) := by
  have noted := w.note_alike alike (w.atLevel policy) idx 0 0 none none
  have log : (w.note idx 0 none a).log = ((w.atLevel policy).note idx 0 none b).log := noted.log
  have options : (w.note idx 0 none a).options = ((w.atLevel policy).note idx 0 none b).options :=
    noted.options
  have file : (w.atLevel policy).file = w.file := rfl
  rw [refuseDepth, refuseDepth, file, log, options]
  split
  · exact noted
  · exact noted.reportPruning w.file idx node.pos _

/-- Until the stricter policy raises anything, a node is skipped in both runs or admitted in both. -/
theorem inspect_together (alike : untilRecorded.Alike a b) {policy : Level}
    (le : w.policy.rank ≤ policy.rank) (remaining : Nat) (scope : WalkScope) (idx : NodeIndex)
    (node : Node) :
    Agrees untilRecorded (w.inspect remaining scope idx node a)
      ((w.atLevel policy).inspect remaining scope idx node b) := by
  have pruned : a.log.isPruned w.file idx = b.log.isPruned (w.atLevel policy).file idx := by
    rw [show a.log = b.log from alike.log]
    rfl
  have offered (offer offer' : Option Offer) :=
    w.note_alike alike (w.atLevel policy) idx remaining remaining offer offer'
  cases w.inspect_inspection a remaining scope idx node with
  | refused _ _ _ is =>
    -- the stricter run has recorded the reason
    rw [is]
    exact .inl (w.refuse_ends idx node.pos _ _ _)
  | skipped skips is =>
    cases (w.atLevel policy).inspect_inspection b remaining scope idx node with
    | skipped _ is' =>
      rw [is, is']
      exact .inr ⟨offered none none, .none⟩
    | refused fresh | admitted fresh =>
      -- a node that one log holds as pruned is not fresh by the other
      rw [← pruned, skips] at fresh
      cases fresh
  | admitted fresh _ is =>
    by_cases clean : (w.rulingOn scope node a).raised = []
    · have cleanToo := w.rulingOn_atLevel alike le scope node clean
      cases (w.atLevel policy).inspect_inspection b remaining scope idx node with
      | skipped skips _ =>
        rw [← pruned, fresh] at skips
        cases skips
      | refused _ _ raised _ => exact absurd (raised.symm.trans cleanToo) (List.cons_ne_nil _ _)
      | admitted _ _ is' =>
        rw [is, is', clean, cleanToo]
        exact .inr ⟨offered _ _, .some fun _ => rfl⟩
    · rw [is]
      exact .inl (w.reportAll_ends node.pos clean _)

/-- Two visits at different levels stay together until the stricter one records anything. -/
theorem visit_atLevel {policy : Level} (le : w.policy.rank ≤ policy.rank) (remaining : Nat)
    (mode : BlockMode) {scope : WalkScope} (idx : NodeIndex) (isOpen : scope.IsOpenIn a.table)
    (alike : untilRecorded.Alike a b) :
    untilRecorded.Together (w.visit remaining mode scope idx a).2
      ((w.atLevel policy).visit remaining mode scope idx b).2 :=
  visit_together w policy (fun idx node _ _ alike => .inr (w.refuseDepth_alike alike policy idx node))
    (fun remaining scope idx node _ _ alike => w.inspect_together alike le remaining scope idx node)
    remaining mode idx isOpen alike

end Walk

/-! ## Batches -/

/-- The same tree, at a level that is at least as permissive. -/
def SourceUnit.IsRelaxedTo (strict lenient : SourceUnit) : Prop :=
  lenient.tree = strict.tree ∧ strict.level.rank ≤ lenient.level.rank

/-- The table without regard to which variables are final. -/
def SymbolTable.withoutFinality (t : SymbolTable) : SymbolTable :=
  { t with vars := t.vars.map fun v => { v with isFinal := false } }

namespace Context

open Lockstep

theorem analyzeFile_together {a b : Context} (alike : untilRecorded.Alike a b)
    {strict lenient : SourceUnit} (relaxed : strict.IsRelaxedTo lenient) :
    untilRecorded.Together (a.analyzeFile strict).2 (b.analyzeFile lenient).2 := by
  obtain ⟨tree, le⟩ := relaxed
  obtain ⟨file, added⟩ := alike.addFile strict.tree.fileName strict.level lenient.level rfl
  -- both walks may nest as deeply, since the options are the same
  have depth : (b.addFile strict.tree.fileName lenient.level).2.options.maxDepth
      = (a.addFile strict.tree.fileName strict.level).2.options.maxDepth :=
    congrArg Options.maxDepth (Eq.symm added.options)
  simp only [analyzeFile, Walk.visitIn, tree, depth, ← file]
  exact Walk.visit_atLevel _ le _ .nested strict.tree.root (WalkScope.isOpenIn_file _) added

end Context

namespace Analysis

open Lockstep

/-- If a batch is clean, then so are the same trees at more permissive levels, and the tables differ
in no more than the finality of variables. -/
theorem ofUnits_relaxed {units relaxed : List SourceUnit} (options : Options)
    (relaxes : List.Forall₂ SourceUnit.IsRelaxedTo units relaxed)
    (clean : (ofUnits units options).diagnostics = []) :
    (ofUnits relaxed options).diagnostics = []
      ∧ (ofUnits relaxed options).table.withoutFinality
        = (ofUnits units options).table.withoutFinality := by
  have same : untilRecorded.Alike (.start options) (.start options) := ⟨rfl, rfl, rfl, rfl, rfl, rfl⟩
  have together : untilRecorded.Together _ _ :=
    Context.analyzeFiles_together (fun isRelaxed alike => Context.analyzeFile_together alike isRelaxed)
      relaxes same
  have settled := Context.settle_together together
  simp only [ofUnits, ofContext] at clean ⊢
  generalize (Context.start options).analyzeFiles units = a at *
  generalize (Context.start options).analyzeFiles relaxed = b at *
  rcases settled with recorded | alike
  · exact absurd clean recorded
  · have log : a.settle.log = b.settle.log := alike.log
    exact ⟨by rw [← log, clean], alike.table.symm⟩

/-- A class with a method that declares a local variable. -/
def localInMethod : SyntaxTree :=
  { fileName := "A.java", root := ⟨0⟩
    arena :=
      { nodes := #[
          ⟨.nowhere, .sourceFile none [] [⟨1⟩]⟩,
          ⟨⟨1, 1⟩, .classDef [] "A" [] none [] [⟨2⟩]⟩,
          ⟨⟨2, 3⟩, .methodDef [] [] "void" "m" [] [] (some ⟨3⟩)⟩,
          ⟨⟨2, 12⟩, .block [⟨4⟩]⟩,
          ⟨⟨3, 5⟩, .variableDeclaration [] [⟨5⟩]⟩,
          ⟨⟨3, 9⟩, .variableDeclarator "int" "x" none⟩] } }

/-- The variable is final at the most restricted level and not in the full language, and the file is
clean at both. -/
theorem ofUnits_relaxed_local :
    (ofUnits [⟨localInMethod, .elementary⟩] .usual).diagnostics = []
      ∧ (ofUnits [⟨localInMethod, .full⟩] .usual).diagnostics = []
      ∧ (ofUnits [⟨localInMethod, .full⟩] .usual).table.withoutFinality
        = (ofUnits [⟨localInMethod, .elementary⟩] .usual).table.withoutFinality
      ∧ (ofUnits [⟨localInMethod, .full⟩] .usual).table
        ≠ (ofUnits [⟨localInMethod, .elementary⟩] .usual).table := by
  have clean : (ofUnits [⟨localInMethod, .elementary⟩] .usual).diagnostics = [] := by decide +kernel
  have relaxed : SourceUnit.IsRelaxedTo ⟨localInMethod, .elementary⟩ ⟨localInMethod, .full⟩ :=
    ⟨rfl, by decide⟩
  obtain ⟨cleanToo, same⟩ := ofUnits_relaxed .usual (.cons relaxed .nil) clean
  exact ⟨clean, cleanToo, same, by decide +kernel⟩

end Analysis

end LevelCheck
