import LevelCheck.Proofs.Visits
set_option autoImplicit false

/-! # From each visit to all that it leads to

What a visit does is done at the visit itself or at those that it leads to. `Walk.Relates` collects what
is to be shown of a relation between states: that it holds for each thing that is done at a visit
itself, and that a visit takes over what holds at those that it leads to. Then it holds between the
states before and after each visit. -/

namespace LevelCheck

namespace Walk

/-- The relation holds of whatever is done at a visit itself, and a visit takes it over from those
that it leads to. -/
structure Relates (w : Walk) (R : Visit → Context → Context → Prop) : Prop where
  rest (v : Visit) (a : Context) : R v a a
  trans {v : Visit} {a b c : Context} : R v a b → R v b c → R v a c
  leads {v u : Visit} {a b : Context} (leads : w.LeadsTo v u) : R u a b → R v a b
  refuses {v : Visit} {node : Node} (found : w.arena.get? v.node = some node)
    (levels : v.remaining = 0) : R v v.before (w.refuseDepth v.node node v.before)
  inspects {v : Visit} {node : Node} (found : w.arena.get? v.node = some node)
    (levels : 0 < v.remaining) :
    R v v.before (w.inspect v.remaining v.scope v.node node v.before).2
  calls {v : Visit} {node : Node} {admission : Admission} {inner : WalkScope}
    {nodes : List (BlockMode × NodeIndex)} {a b : Context} (isOpen : v.scope.IsOpenIn v.before.table)
    (admits : w.Admits v node admission a)
    (calls : w.Calls v.mode v.scope node admission.forceFinal a inner nodes b) : R v a b
  refusesName {v : Visit} {node : Node} {admission : Admission} {decl : TypeDecl} {a : Context}
    (isOpen : v.scope.IsOpenIn v.before.table) (admits : w.Admits v node admission a)
    (is : node.data.typeDecl? = some decl)
    (refused : (w.qualifiedName v.scope decl.name a).2.beginClass?
      (w.qualifiedName v.scope decl.name a).1 v.scope.ref? decl.head = none) :
    R v a ((w.qualifiedName v.scope decl.name a).2.reportPruning w.file v.node node.pos
      (.duplicateClass (w.qualifiedName v.scope decl.name a).1))
  /-- A class is begun as soon as its declaration has been inspected. -/
  declares {v : Visit} {node : Node} {admission : Admission} {decl : TypeDecl} {id : SymbolId}
    {a b : Context} (isOpen : v.scope.IsOpenIn v.before.table) (admits : w.Admits v node admission a)
    (is : node.data.typeDecl? = some decl)
    (begun : (w.qualifiedName v.scope decl.name a).2.beginClass?
      (w.qualifiedName v.scope decl.name a).1 v.scope.ref? decl.head = some (id, b)) :
    R v v.before a →
      R v v.before (w.linkParents id node.pos (w.qualifiedName v.scope decl.name a).1 decl b)
  refusesNumber {v : Visit} {node : Node} {ref : ScopeRef} {type : String}
    {members : List NodeIndex} {a : Context} (isOpen : v.scope.IsOpenIn v.before.table)
    (builds : w.Builds v node ref type members a)
    (refused : (numbered ref a).beginClass? (anonymousName ref a) (some ref) (fun s => s) = none) :
    R v a ((numbered ref a).reportPruning w.file v.node node.pos
      (.duplicateClass (anonymousName ref a)))
  declaresAnonymous {v : Visit} {node : Node} {ref : ScopeRef} {type : String}
    {members : List NodeIndex} {id : SymbolId} {a b : Context}
    (isOpen : v.scope.IsOpenIn v.before.table) (builds : w.Builds v node ref type members a)
    (begun : (numbered ref a).beginClass? (anonymousName ref a) (some ref) (fun s => s)
      = some (id, b)) : R v a (b.linkType w.file (some ref) type node.pos (.anonymousBase id))
  completes {v : Visit} {id : SymbolId} {a : Context} (course : Course v.before a)
    (isOpen : a.table.IsOpen (.symbol id)) : R v a (a.defineComplete id)

/-- The nodes that a visit goes through are visited in its course, in an open scope. -/
theorem GoesThrough.throughAll {w : Walk} {v : Visit} {inner : WalkScope}
    {nodes : List (BlockMode × NodeIndex)} {a : Context} (isOpen : v.scope.IsOpenIn v.before.table)
    (goes : w.GoesThrough v inner nodes a) :
    Course v.before ((w.visit (v.remaining - 1)).through inner nodes a)
      ∧ inner.IsOpenIn ((w.visit (v.remaining - 1)).through inner nodes a).table := by
  obtain ⟨comes, inside⟩ := goes.course isOpen
  obtain ⟨run, inside⟩ := through_run (w := w) inside (v.remaining - 1) nodes
  exact ⟨comes.trans (.of_run run), inside⟩

namespace Relates

variable {w : Walk} {R : Visit → Context → Context → Prop} (relates : w.Relates R) {v : Visit}
  (isOpen : v.scope.IsOpenIn v.before.table)
  (nested : ∀ u : Visit, u.remaining = v.remaining - 1 → u.scope.IsOpenIn u.before.table →
    R u u.before (w.after u))
include relates isOpen nested

/-- The nodes that a visit goes through are visited one after the other. -/
theorem through {inner : WalkScope} {nodes : List (BlockMode × NodeIndex)} {a : Context}
    (goes : w.GoesThrough v inner nodes a) :
    R v a ((w.visit (v.remaining - 1)).through inner nodes a) := by
  have prefixes (before more : List (BlockMode × NodeIndex)) (is : nodes = before ++ more) :
      R v a ((w.visit (v.remaining - 1)).through inner before a) := by
    induction before using List.reverseRecOn generalizing more with
    | nil => exact relates.rest v a
    | append_singleton before entry ih =>
      have split : nodes = before ++ (entry.1, entry.2) :: more := by rw [is]; simp
      have inside := (through_run (w := w) (goes.course isOpen).2 (v.remaining - 1) before).2
      have leads : w.LeadsTo v
          { remaining := v.remaining - 1, mode := entry.1, scope := inner, node := entry.2
            before := (w.visit (v.remaining - 1)).through inner before a } :=
        ⟨inner, before, entry.1, entry.2, more, a, split ▸ goes, rfl⟩
      rw [Visitor.through_append]
      exact relates.trans (ih _ split) (relates.leads leads (nested _ rfl inside))
  exact prefixes nodes [] (List.append_nil _).symm

/-- What is done for an admitted node is done at the visit itself and at those that it leads to. -/
theorem isDone {node : Node} {admission : Admission} {a b : Context}
    (admits : w.Admits v node admission a) (inspected : R v v.before a)
    (isDone : w.IsDone (w.visit (v.remaining - 1)) v.mode v.scope v.node node admission.forceFinal a b) :
    R v v.before b := by
  have through {inner : WalkScope} {nodes : List (BlockMode × NodeIndex)} {c : Context}
      (goes : w.GoesThrough v inner nodes c) :
      R v c ((w.visit (v.remaining - 1)).through inner nodes c) := relates.through isOpen nested goes
  cases isDone with
  | called calls =>
    exact relates.trans (relates.trans inspected (relates.calls isOpen admits calls))
      (through (.calls admits calls))
  | duplicate is refused =>
    exact relates.trans inspected (relates.refusesName isOpen admits is refused)
  | @declared decl id c is begun =>
    have goes : w.GoesThrough v (.classBody id) (LevelCheck.nested decl.members) _ :=
      .members (.intro admits is begun)
    obtain ⟨course, inside⟩ := goes.throughAll isOpen
    rw [Visitor.each_eq_through]
    exact relates.trans (relates.trans (relates.declares isOpen admits is begun inspected)
      (through goes)) (relates.completes course (inside _ rfl))
  | @anonymousDuplicate ref outer type arguments members c is inScope built refused =>
    have before := through (.arguments admits is inScope)
    rw [← Visitor.each_eq_through, ← built] at before
    have builds : w.Builds v node ref type members c := built ▸ .intro admits is inScope
    exact relates.trans (relates.trans inspected before)
      (relates.refusesNumber isOpen builds refused)
  | @anonymous ref outer type arguments members id c d is inScope built begun =>
    have before := through (.arguments admits is inScope)
    rw [← Visitor.each_eq_through, ← built] at before
    have builds : w.Builds v node ref type members c := built ▸ .intro admits is inScope
    have goes : w.GoesThrough v (.classBody id) (LevelCheck.nested members) _ :=
      .anonymousMembers builds begun
    obtain ⟨course, inside⟩ := goes.throughAll isOpen
    rw [Visitor.each_eq_through]
    exact relates.trans (relates.trans (relates.trans (relates.trans inspected before)
      (relates.declaresAnonymous isOpen builds begun)) (through goes))
      (relates.completes course (inside _ rfl))

omit isOpen nested

/-- The relation holds between the states before and after a visit. The induction is on the levels of
nesting that remain. -/
theorem visit (v : Visit) (isOpen : v.scope.IsOpenIn v.before.table) :
    R v v.before (w.after v) := by
  obtain ⟨remaining, mode, scope, idx, cx⟩ := v
  induction remaining generalizing mode scope idx cx with
  | zero =>
    rw [after, Walk.visit]
    cases found : w.arena.get? idx with
    | none => exact relates.rest _ cx
    | some node => exact relates.refuses (v := ⟨0, mode, scope, idx, cx⟩) found rfl
  | succ remaining ih =>
    cases found : w.arena.get? idx with
    | none =>
      rw [after, Walk.visit, found]
      exact relates.rest _ cx
    | some node =>
      have inspects := relates.inspects (v := ⟨remaining + 1, mode, scope, idx, cx⟩) found
        (Nat.succ_pos _)
      rw [after, w.visit_succ found]
      cases entry : w.inspect (remaining + 1) scope idx node cx with
      | mk admission a =>
        rw [entry] at inspects
        cases admission with
        | none => exact inspects
        | some admission =>
          have admits : w.Admits ⟨remaining + 1, mode, scope, idx, cx⟩ node admission a :=
            ⟨Nat.succ_pos _, found, entry⟩
          have isDone := w.visitData_isDone (w.visit remaining) mode scope idx node
            admission.forceFinal a
          refine relates.isDone isOpen (fun u levels inside => ?_) admits inspects isDone
          obtain ⟨_, mode, scope, idx, cx⟩ := u
          obtain rfl : _ = remaining := levels
          exact ih mode scope idx cx inside

end Relates

end Walk

end LevelCheck
