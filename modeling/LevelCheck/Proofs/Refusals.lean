import LevelCheck.Proofs.VisitInduction
set_option autoImplicit false

/-! # Records of refused classes

A class is refused at the visit of its node, if its name has been declared. A record is made of it there
and nowhere else, so there are as many records of refused classes as there are such visits. -/

namespace LevelCheck

/-- A record of a refused class does not tell of a reference. -/
theorem isFinding_refused : IsFindingCode 1013 := ⟨by decide, by decide, by decide⟩

namespace Walk

variable {w : Walk} {v : Visit}

/-- At the visit a class is refused, since its name has been declared, and a record is made of it. -/
inductive Refuses (w : Walk) (v : Visit) : Diagnostic → Prop where
  | name {node : Node} {admission : Admission} {a : Context} {decl : TypeDecl}
      (admits : w.Admits v node admission a) (is : node.data.typeDecl? = some decl)
      (refused : (w.qualifiedName v.scope decl.name a).2.beginClass?
        (w.qualifiedName v.scope decl.name a).1 v.scope.ref? decl.head = none) :
      Refuses w v (Diagnostic.ofProblem (a.fileName w.file) node.pos
        (.duplicateClass (w.qualifiedName v.scope decl.name a).1)).pruning
  | number {node : Node} {ref : ScopeRef} {type : String} {members : List NodeIndex} {a : Context}
      (builds : w.Builds v node ref type members a)
      (refused : (numbered ref a).beginClass? (anonymousName ref a) (some ref) (fun s => s) = none) :
      Refuses w v (Diagnostic.ofProblem (a.fileName w.file) node.pos
        (.duplicateClass (anonymousName ref a))).pruning

/-- The records of refused classes that are new in the second state were made one by one at visits of
a kind. -/
inductive Refusals (w : Walk) (reached : Visit → Prop) (a b : Context) : Prop where
  | intro {visits : List Visit} {records : List Diagnostic}
      (log : b.log.coded 1013 = a.log.coded 1013 ++ records) (reached : ∀ v ∈ visits, reached v)
      (refused : List.Forall₂ w.Refuses visits records)

namespace Refusals

variable {reached : Visit → Prop} {a b c : Context}

theorem of_same (same : b.log.coded 1013 = a.log.coded 1013) : w.Refusals reached a b :=
  .intro (same.trans (List.append_nil _).symm) (List.forall_mem_nil _) .nil

theorem trans (first : w.Refusals reached a b) (second : w.Refusals reached b c) :
    w.Refusals reached a c := by
  obtain ⟨log, areReached, refused⟩ := first
  obtain ⟨log', areReached', refused'⟩ := second
  refine .intro (by rw [log', log, List.append_assoc]) (fun v isIn => ?_)
    (List.rel_append refused refused')
  exact (List.mem_append.1 isIn).elim (areReached v) (areReached' v)

theorem mono {wider : Visit → Prop} (le : ∀ v, reached v → wider v)
    (refusals : w.Refusals reached a b) : w.Refusals wider a b := by
  obtain ⟨log, areReached, refused⟩ := refusals
  exact .intro log (fun v isIn => le v (areReached v isIn)) refused

theorem single (reaches : reached v) {d : Diagnostic} (refuses : w.Refuses v d)
    (log : b.log.coded 1013 = a.log.coded 1013 ++ [d]) : w.Refusals reached a b :=
  .intro log (List.forall_mem_singleton.2 reaches) (.cons refuses .nil)

end Refusals

theorem refuseDepth_coded (w : Walk) (idx : NodeIndex) (node : Node) (cx : Context) :
    (w.refuseDepth idx node cx).log.coded 1013 = cx.log.coded 1013 := by
  rw [refuseDepth_eq]
  simp only
  split
  · rfl
  · have grows : cx.log.Extends (fun p => p.code ≠ 1013) (cx.log.addPruning w.file idx
        (.ofProblem (cx.fileName w.file) node.pos (.nestingTooDeep cx.options.maxDepth))) :=
      .addPruning .rest (by simp only [Problem.code]; decide) w.file idx _ _
    exact grows.coded_eq fun _ is => is

/-- Every record of a refused class is made at a visit that the walk comes to, and the visits are as
many as the records. -/
theorem refusals_relates (w : Walk) :
    w.Relates fun v a b => w.Refusals (w.Comes v) a b where
  rest _ _ := .of_same rfl
  trans := .trans
  leads leads := .mono fun _ comes => Relation.ReflTransGen.head leads comes
  refuses {v node} _ _ := .of_same (w.refuseDepth_coded v.node node v.before)
  inspects {v node} _ _ :=
    .of_same (w.inspect_coded v.remaining v.scope v.node node v.before rfl)
  calls _ _ calls := .of_same (calls.coded isFinding_refused (by decide) (by decide))
  refusesName {v node admission decl a} _ admits is refused := by
    obtain ⟨log, files⟩ := w.qualifiedName_frame v.scope decl.name a
    refine .single (.refl : w.Comes v v) (.name admits is refused) ?_
    rw [← log]
    simp only [Context.reportPruning, Context.fileName, Context.file?, files]
    exact ErrorLog.coded_addPruning _ _ _ rfl
  declares {v node admission decl id a b} _ _ _ begun inspected := by
    obtain ⟨t, -, begins⟩ := Context.beginClass_some begun
    refine inspected.trans (.of_same ?_)
    rw [(w.linkParents_silent ..).coded isFinding_refused, begins]
    exact congrArg (ErrorLog.coded · 1013) (w.qualifiedName_frame v.scope decl.name a).1
  refusesNumber _ builds refused :=
    .single (.refl : w.Comes _ _) (.number builds refused) (ErrorLog.coded_addPruning _ _ _ rfl)
  declaresAnonymous _ _ begun := by
    obtain ⟨t, -, begins⟩ := Context.beginClass_some begun
    refine .of_same ?_
    rw [(Context.Silent.linkType ..).coded isFinding_refused, begins]
    rfl
  completes _ isOpen := .of_same ((Context.Silent.defineComplete isOpen).coded isFinding_refused)

end Walk

namespace Context

/-- The records of refused classes are made at the visits that the requests come to. -/
theorem performAll_refusals (cx : Context) (requests : List Request) :
    ∃ (visits : List (Walk × Visit)) (records : List Diagnostic),
      (cx.performAll requests).log.coded 1013 = cx.log.coded 1013 ++ records
        ∧ (∀ entry ∈ visits, cx.ComesTo requests entry.1 entry.2)
        ∧ List.Forall₂ (fun entry d => entry.1.Refuses entry.2 d) visits records := by
  induction requests generalizing cx with
  | nil => exact ⟨[], [], (List.append_nil _).symm, nofun, .nil⟩
  | cons request rest ih =>
    obtain ⟨visits, records, log, comes, refused⟩ := ih (cx.perform request)
    have later : ∀ entry ∈ visits, cx.ComesTo (request :: rest) entry.1 entry.2 :=
      fun entry isIn => .later (comes entry isIn)
    cases request with
    | analyze unit =>
      obtain @⟨here, made, more, reached, became⟩ :=
        (cx.walkOf unit).refusals_relates.visit (cx.rootVisit unit) (WalkScope.isOpenIn_file _)
      refine ⟨here.map (cx.walkOf unit, ·) ++ visits, made ++ records, ?_, fun entry isIn => ?_,
        List.rel_append ?_ refused⟩
      · have analyzed : (cx.perform (.analyze unit)).log.coded 1013 = cx.log.coded 1013 ++ made := more
        exact log.trans (by rw [analyzed, List.append_assoc])
      · rcases List.mem_append.1 isIn with isHere | isLater
        · obtain ⟨v, isVisit, rfl⟩ := List.mem_map.1 isHere
          exact .here (reached v isVisit)
        · exact later entry isLater
      · exact List.forall₂_map_left_iff.2 became
    | settle =>
      refine ⟨visits, records, log.trans ?_, later, refused⟩
      exact congrArg (· ++ records) ((Silent.settle cx).coded isFinding_refused)

end Context

end LevelCheck
