import LevelCheck.Proofs.Rulings
import LevelCheck.Walk
set_option autoImplicit false

/-! # Coming to a node

Whatever the walk comes to goes on its trail. A node that is nested too deeply is refused, and any
other is offered to the policy, unless it has been pruned before. What the policy raises is recorded
at once, so a node on the trail tells which records the policy has made of it. -/

namespace LevelCheck

/-! ## Logs that grow -/

namespace ErrorLog

/-- The second log holds further records, all of problems of a kind. -/
inductive Extends (log : ErrorLog) (kind : Problem → Prop) : ErrorLog → Prop where
  | rest : Extends log kind log
  | add {next : ErrorLog} (before : Extends log kind next) {p : Problem} (isKind : kind p)
      (file : String) (pos : Position) : Extends log kind (next.add (.ofProblem file pos p))
  | addPruning {next : ErrorLog} (before : Extends log kind next) {p : Problem} (isKind : kind p)
      (id : FileId) (node : NodeIndex) (file : String) (pos : Position) :
      Extends log kind (next.addPruning id node (.ofProblem file pos p))

namespace Extends

variable {log next last : ErrorLog} {kind : Problem → Prop}

theorem trans (first : log.Extends kind next) (second : next.Extends kind last) :
    log.Extends kind last := by
  induction second with
  | rest => exact first
  | add _ isKind file pos ih => exact .add ih isKind file pos
  | addPruning _ isKind id node file pos ih => exact .addPruning ih isKind id node file pos

theorem mono (grows : log.Extends kind next) {wider : Problem → Prop}
    (le : ∀ p, kind p → wider p) : log.Extends wider next := by
  induction grows with
  | rest => exact .rest
  | add _ isKind file pos ih => exact .add ih (le _ isKind) file pos
  | addPruning _ isKind id node file pos ih => exact .addPruning ih (le _ isKind) id node file pos

/-- Records of other codes are not added. -/
theorem coded (grows : log.Extends kind next) (codes : UInt32 → Bool)
    (others : ∀ p, kind p → codes p.code = false) :
    next.diagnostics.toList.filter (fun d => codes d.code)
      = log.diagnostics.toList.filter fun d => codes d.code := by
  induction grows with
  | rest => rfl
  | add _ isKind file pos ih =>
    simpa [ErrorLog.add, Diagnostic.ofProblem, Diagnostic.error, others _ isKind] using ih
  | addPruning _ isKind id node file pos ih =>
    simpa [ErrorLog.addPruning, Diagnostic.pruning, Diagnostic.ofProblem, Diagnostic.error,
      others _ isKind] using ih

theorem pruned (grows : log.Extends kind next) : log.pruned ⊆ next.pruned := by
  induction grows with
  | rest => exact List.Subset.refl _
  | add _ _ _ _ ih => exact ih
  | addPruning _ _ id node _ _ ih =>
    intro entry isIn
    exact List.mem_insert_of_mem (ih isIn)

/-- A log without records extends no other. -/
theorem eq_of_clean (grows : log.Extends kind next) (clean : next.diagnostics = #[]) :
    next = log := by
  cases grows with
  | rest => rfl
  | add => simp [ErrorLog.add] at clean
  | addPruning => simp [ErrorLog.addPruning] at clean

end Extends

end ErrorLog

namespace Walk

variable (w : Walk) (cx : Context)

/-! ## Recording problems -/

theorem reportAll_eq (pos : Position) (problems : List Problem) :
    w.reportAll pos problems cx = { cx with log := { cx.log with
      diagnostics := cx.log.diagnostics
        ++ (problems.map (.ofProblem (cx.fileName w.file) pos)).toArray } } := by
  induction problems generalizing cx with
  | nil => simp [reportAll]
  | cons p rest ih =>
    rw [reportAll, List.foldl_cons]
    exact (ih _).trans (by simp [Context.report, ErrorLog.add, Context.fileName, Context.file?])

theorem reportAll_extends (pos : Position) {problems : List Problem} {kind : Problem → Prop}
    (areKind : ∀ p ∈ problems, kind p) : cx.log.Extends kind (w.reportAll pos problems cx).log := by
  induction problems generalizing cx with
  | nil => exact .rest
  | cons p rest ih =>
    have first : cx.log.Extends kind (cx.report w.file pos p).log :=
      .add .rest (areKind p List.mem_cons_self) (cx.fileName w.file) pos
    exact first.trans (ih _ fun p isIn => areKind p (List.mem_cons_of_mem _ isIn))

@[simp] theorem reportAll_trail (pos : Position) (problems : List Problem) :
    (w.reportAll pos problems cx).trail = cx.trail := by
  rw [reportAll_eq]

/-! ## What the trail says -/

/-- What the trail says of a node that the walk comes to. -/
def encounter (idx : NodeIndex) (remaining : Nat) (offer : Option Offer) (cx : Context) :
    Encounter :=
  { file := w.file, node := idx, remaining, offer, pruned := cx.log.isPruned w.file idx }

/-- A node that is nested too deeply is put on the trail, and recorded unless it has been pruned
before. -/
theorem refuseDepth_eq (idx : NodeIndex) (node : Node) :
    w.refuseDepth idx node cx =
      { cx with
        trail := cx.trail.push (w.encounter idx 0 none cx)
        log := if cx.log.isPruned w.file idx then cx.log
          else cx.log.addPruning w.file idx (.ofProblem (cx.fileName w.file) node.pos
            (.nestingTooDeep cx.options.maxDepth)) } := by
  rw [refuseDepth, note]
  split <;> rfl

/-- What the trail says of a node that is inspected: it is offered to the policy, unless it has been
pruned before. -/
def inspected (remaining : Nat) (scope : WalkScope) (idx : NodeIndex) (node : Node) (cx : Context) :
    Encounter :=
  w.encounter idx remaining
    (if cx.log.isPruned w.file idx then none else some (w.offer scope node cx)) cx

/-! ## Inspections -/

/-- The ruling of the policy about a node, as the walk comes to it. -/
def rulingOn (scope : WalkScope) (node : Node) (cx : Context) : Ruling :=
  Policy.ruling w.policy (w.offer scope node cx)

/-- The state in which a node is offered to the policy. -/
def offered (remaining : Nat) (scope : WalkScope) (idx : NodeIndex) (node : Node) (cx : Context) :
    Context := w.note idx remaining (some (w.offer scope node cx)) cx

/-- What comes of a node: it is skipped since it has been pruned before, or offered to the policy,
which refuses it for at least one problem, or admits it, with problems or without. -/
inductive Inspection (remaining : Nat) (scope : WalkScope) (idx : NodeIndex) (node : Node)
    (cx : Context) (entry : Option Admission × Context) : Prop where
  | skipped (pruned : cx.log.isPruned w.file idx = true)
      (is : entry = (none, w.note idx remaining none cx))
  | refused {first : Problem} {rest : List Problem} (fresh : cx.log.isPruned w.file idx = false)
      (prunes : (w.rulingOn scope node cx).step = .prune)
      (raised : (w.rulingOn scope node cx).raised = first :: rest)
      (is : entry = (none, w.reportAll node.pos rest
        ((w.offered remaining scope idx node cx).reportPruning w.file idx node.pos first)))
  | admitted (fresh : cx.log.isPruned w.file idx = false)
      (passes : (w.rulingOn scope node cx).step ≠ .prune)
      (is : entry = (some
          { forceFinal := (w.rulingOn scope node cx).forceFinal
            reported := !(w.rulingOn scope node cx).raised.isEmpty },
        w.reportAll node.pos (w.rulingOn scope node cx).raised
          (w.offered remaining scope idx node cx)))

variable (remaining : Nat) (scope : WalkScope) (idx : NodeIndex) (node : Node)

theorem inspect_inspection :
    w.Inspection remaining scope idx node cx (w.inspect remaining scope idx node cx) := by
  rw [inspect]
  cases pruned : cx.log.isPruned w.file idx with
  | true => exact .skipped pruned rfl
  | false =>
    simp only [Bool.false_eq_true, if_false]
    split
    · next step =>
      split
      · next none => exact (Policy.raised_ne_nil _ _ step none).elim
      · next first rest raised => exact .refused pruned step raised rfl
    · next passes => exact .admitted pruned passes rfl

theorem rulingOn_isRuled : ∀ p ∈ (w.rulingOn scope node cx).raised, p.IsRuled :=
  Policy.raised_isRuled _ _

/-- A node that is admitted has not been pruned before. -/
theorem fresh_of_admits {remaining : Nat} {scope : WalkScope} {idx : NodeIndex} {node : Node}
    {cx next : Context} {admission : Admission}
    (admits : w.inspect remaining scope idx node cx = (some admission, next)) :
    cx.log.isPruned w.file idx = false := by
  have inspection := w.inspect_inspection cx remaining scope idx node
  rw [admits] at inspection
  cases inspection with
  | skipped _ is | refused _ _ _ is => cases is
  | admitted fresh _ is => exact fresh

/-- An inspection changes nothing but the trail and the log. -/
theorem inspect_changes :
    ∃ log, (w.inspect remaining scope idx node cx).2
      = { cx with trail := cx.trail.push (w.inspected remaining scope idx node cx), log } := by
  unfold inspected
  cases w.inspect_inspection cx remaining scope idx node with
  | skipped pruned is =>
    rw [is, pruned]
    exact ⟨cx.log, rfl⟩
  | refused fresh _ _ is | admitted fresh _ is =>
    rw [is, fresh, reportAll_eq]
    exact ⟨_, rfl⟩

theorem inspect_trail :
    (w.inspect remaining scope idx node cx).2.trail
      = cx.trail.push (w.inspected remaining scope idx node cx) := by
  obtain ⟨log, is⟩ := w.inspect_changes cx remaining scope idx node
  rw [is]

theorem inspect_extends :
    cx.log.Extends Problem.IsRuled (w.inspect remaining scope idx node cx).2.log := by
  have areRuled := w.rulingOn_isRuled cx scope node
  -- noting the node leaves the log as it is
  let offered := w.offered remaining scope idx node cx
  cases w.inspect_inspection cx remaining scope idx node with
  | skipped pruned is =>
    rw [is]
    exact .rest
  | @refused p rest fresh _ raised is =>
    rw [raised] at areRuled
    have first : cx.log.Extends Problem.IsRuled
        (offered.reportPruning w.file idx node.pos p).log :=
      .addPruning .rest (areRuled p List.mem_cons_self) w.file idx _ _
    rw [is]
    exact first.trans (w.reportAll_extends _ node.pos
      fun p isIn => areRuled p (List.mem_cons_of_mem _ isIn))
  | admitted fresh _ is =>
    rw [is]
    exact w.reportAll_extends offered node.pos areRuled

/-- Nothing comes of visiting a node that has been pruned before, but that it goes on the trail. -/
theorem visit_of_pruned (mode : BlockMode) (found : w.arena.get? idx = some node)
    (pruned : cx.log.isPruned w.file idx = true) :
    w.visit remaining mode scope idx cx = (.stopped, w.note idx remaining none cx) := by
  cases remaining with
  | zero =>
    have noted : (w.note idx 0 none cx).log.isPruned w.file idx = true := pruned
    rw [visit, found]
    simp only [refuseDepth, noted, if_true]
  | succ remaining =>
    rw [visit, found]
    simp only [inspect, pruned, if_true]

end Walk

end LevelCheck
