import LevelCheck.Proofs.SimpleNames
import LevelCheck.Proofs.Visits
set_option autoImplicit false

/-! # What comes after a visit

A walk returns from each visit to the one that it came from, and what is left to do there follows.
So the state after a visit of a run comes before the end of the run: whatever is open by then stays
open under its name, and what has happened by then is what the history begins with. -/

namespace LevelCheck

/-! ## What follows in a run -/

namespace Context

/-- The run goes on from the one state to the other, in the same file or in later ones. -/
structure GoesOn (a b : Context) : Prop where
  table : a.table.Grows b.table
  history : a.history.toList <+: b.history.toList

namespace GoesOn

variable {a b c : Context}

theorem refl (a : Context) : a.GoesOn a := ⟨.refl _, List.prefix_rfl⟩

theorem trans (first : a.GoesOn b) (second : b.GoesOn c) : a.GoesOn c :=
  ⟨first.table.trans second.table, first.history.trans second.history⟩

theorem of_meets (grows : a.table.Grows b.table) (meets : a.Meets (fun _ => True) b) :
    a.GoesOn b := by
  obtain ⟨events, history, -⟩ := meets
  exact ⟨grows, history ▸ List.prefix_append _ _⟩

theorem deed (deed : Deed a b) : a.GoesOn b := by
  have grows := deed.steps.precedes.table
  cases deed with
  | inspect w remaining scope idx node =>
    exact ⟨grows, (w.inspect_history remaining scope idx node a).2 ▸ List.prefix_rfl⟩
  | refuse w idx node =>
    refine ⟨grows, ?_⟩
    rw [w.refuseDepth_eq]
  | report | prune | header | enter => exact ⟨grows, List.prefix_rfl⟩
  | link => exact of_meets grows (.linkType fun _ _ => trivial)

theorem course (course : Course a b) : a.GoesOn b :=
  course.keeps (P := a.GoesOn) (fun deed before => before.trans (.deed deed))
    (fun opens before => before.trans (of_meets opens.precedes.table (.begins opens)))
    (fun {_ id} isOpen before => before.trans
      (of_meets (Course.completes (.rest _) isOpen).precedes.table (.completes _ id))) (.refl a)

theorem perform (a : Context) (request : Request) : a.GoesOn (a.perform request) := by
  cases request with
  | analyze unit =>
    have walked := course (.of_run (a.analyzeFile_run unit))
    exact ⟨walked.table, walked.history⟩
  | settle => exact of_meets a.settle_settles.precedes.table (.settle a)

theorem performAll (a : Context) (requests : List Request) : a.GoesOn (a.performAll requests) := by
  induction requests generalizing a with
  | nil => exact refl a
  | cons request rest ih => exact (perform a request).trans (ih _)

end GoesOn

end Context

namespace Walk

/-! ## What is left to do at a visit -/

variable {w : Walk}

/-- What is done for a node that calls for something is to go through the nodes that come next. -/
theorem Calls.visitData {mode : BlockMode} {scope inner : WalkScope} {node : Node} {force : Bool}
    {nodes : List (BlockMode × NodeIndex)} {a b : Context}
    (calls : w.Calls mode scope node force a inner nodes b) (visit : Visitor) (idx : NodeIndex) :
    (w.visitData visit mode scope idx node.pos force node.data a).2 = visit.through inner nodes b := by
  cases calls with
  | header is =>
    rw [is]
    exact visit.each_eq_through _ _ _
  | @method decl owner is inClass =>
    subst inClass
    cases data : node.data with
    | methodDef | constructorDef =>
      rw [data] at is
      cases is
      exact visitMethod_eq_through owner node.pos _
    | _ => simp [data, NodeData.methodDecl?] at is
  | fields is inClass =>
    subst inClass
    rw [is]
    exact visit.each_eq_through _ _ _
  | locals is inBody =>
    subst inBody
    rw [is]
    exact visit.each_eq_through _ _ _
  | block is mode inScope =>
    subst mode
    rw [is]
    simp only [Walk.visitData, visitBlock, openBlock?, inScope]
    exact visit.each_eq_through _ _ _
  | statements is mode =>
    subst mode
    rw [is]
    exact visit.each_eq_through _ _ _
  | initializer is inClass =>
    subst inClass
    rw [is]
    rfl
  | innerInitializer is inBody =>
    subst inBody
    rw [is]
    rfl
  | handler is inBody =>
    subst inBody
    rw [is]
    rfl
  | loop is inScope =>
    rw [is]
    simp only [Walk.visitData, visitFor, openBlock?, inScope]
    exact visit.each_eq_through _ _ _
  | fileLoop is outside | anonymousAtFile is outside =>
    subst outside
    rw [is]
    exact visit.each_eq_through _ _ _
  | mention is =>
    cases data : node.data with
    | instantiation | cast =>
      rw [data] at is
      cases is
      exact visit.each_eq_through _ _ _
    | _ => simp [data, NodeData.mentioned?] at is
  | children is =>
    rw [← visit.each_eq_through]
    cases data : node.data with
    | sourceFile | classDef | interfaceDef | methodDef | constructorDef | formalParameter
    | variableDeclaration | block | instanceInitializer | catchBlock | forStatement | instantiation
    | cast | anonymousClass => simp [data, NodeData.IsPlain] at is
    | _ => rfl
  | stray is =>
    cases data : node.data with
    | formalParameter => rfl
    | methodDef | constructorDef | catchBlock | variableDeclaration | instanceInitializer =>
      rw [data] at is
      cases scope with
      | file => rfl
      | classBody => first | rfl | simp [NodeData.IsStray, WalkScope.kind] at is
      | body => first | rfl | simp [NodeData.IsStray, WalkScope.kind] at is
    | block =>
      rw [data] at is
      obtain ⟨outside, isNested⟩ := is
      subst isNested
      cases scope with
      | file => rfl
      | classBody | body => cases outside
    | _ => simp [data, NodeData.IsStray] at is

/-- What is done for a class that is accepted is to visit its members and to complete it. -/
theorem visitData_declared {mode : BlockMode} {scope : WalkScope} {node : Node} {force : Bool}
    {decl : TypeDecl} {id : SymbolId} {a b : Context} (is : node.data.typeDecl? = some decl)
    (begun : (w.qualifiedName scope decl.name a).2.beginClass? (w.qualifiedName scope decl.name a).1
      scope.ref? decl.head = some (id, b)) (visit : Visitor) (idx : NodeIndex) :
    (w.visitData visit mode scope idx node.pos force node.data a).2
      = (visit.each (.classBody id) decl.members (w.linkParents id node.pos
          (w.qualifiedName scope decl.name a).1 decl b)).defineComplete id := by
  have declared : (w.visitTypeDecl visit scope idx node.pos decl a).2
      = (visit.each (.classBody id) decl.members (w.linkParents id node.pos
          (w.qualifiedName scope decl.name a).1 decl b)).defineComplete id := by
    simp only [visitTypeDecl_eq, begun]
  cases data : node.data with
  | classDef | interfaceDef =>
    rw [data] at is
    cases is
    exact declared
  | _ => simp [data, NodeData.typeDecl?] at is

/-- What is done for an accepted anonymous class is to visit its members and to complete it. -/
theorem visitAnonymous_declared {scope : WalkScope} {ref : ScopeRef} (inScope : scope.ref? = some ref)
    {child : SymbolId} {a b : Context} (begun : (numbered ref a).beginClass? (anonymousName ref a)
      (some ref) (fun s => s) = some (child, b)) (visit : Visitor) (idx : NodeIndex) (pos : Position)
    (base : String) (members : List NodeIndex) :
    (w.visitAnonymous visit scope idx pos base members a).2
      = (visit.each (.classBody child) members
          (b.linkType w.file (some ref) base pos (.anonymousBase child))).defineComplete child := by
  have begun : (numbered ref a).beginClass? (anonymousName ref a) (some ref) id = some (child, b) :=
    begun
  rw [w.visitAnonymous_eq visit inScope, begun]

/-! ## The way back -/

variable {v u : Visit} (isOpen : v.scope.IsOpenIn v.before.table)
include isOpen

/-- After the nodes that a visit goes through, what is left of it is done. -/
theorem GoesThrough.returns {inner : WalkScope} {nodes : List (BlockMode × NodeIndex)} {a : Context}
    (goes : w.GoesThrough v inner nodes a) :
    Course ((w.visit (v.remaining - 1)).through inner nodes a) (w.after v) := by
  have inside := (through_run (w := w) (goes.course isOpen).2 (v.remaining - 1) nodes).2
  cases goes with
  | calls admits calls =>
    rw [admits.after, calls.visitData]
    exact .rest _
  | members accepts =>
    obtain ⟨admits, is, begun⟩ := accepts
    rw [admits.after, visitData_declared is begun, Visitor.each_eq_through]
    exact .completes (.rest _) (inside _ rfl)
  | @arguments node admission ref outer type arguments members a admits is inScope =>
    rw [admits.after, is, ← Visitor.each_eq_through]
    rw [← Visitor.each_eq_through] at inside
    exact .of_run (w.visitAnonymous_run (w.visit_runs _) inside v.node node.pos type members)
  | anonymousMembers builds begun =>
    obtain ⟨admits, is, inScope⟩ := builds
    rw [admits.after, is]
    show Course _ (w.visitAnonymous _ _ _ _ _ _ _).2
    rw [visitAnonymous_declared inScope begun, Visitor.each_eq_through]
    exact .completes (.rest _) (inside _ rfl)

/-- A visit that has come to go through nodes goes on to its end. -/
theorem GoesThrough.goesOn {inner : WalkScope} {nodes : List (BlockMode × NodeIndex)} {a : Context}
    (goes : w.GoesThrough v inner nodes a) : Course a (w.after v) := by
  have through := through_run (w := w) (goes.course isOpen).2 (v.remaining - 1) nodes
  exact (Course.of_run through.1).trans (goes.returns isOpen)

/-- After a visit, what is left of the one that it came from is done. -/
theorem LeadsTo.returns (leads : w.LeadsTo v u) : Course (w.after u) (w.after v) := by
  obtain ⟨inner, before, mode, idx, more, a, goes, rfl⟩ := leads
  have inside := (through_run (w := w) (goes.course isOpen).2 (v.remaining - 1)
    (before ++ [(mode, idx)])).2
  have others := (through_run (w := w) inside (v.remaining - 1) more).1
  rw [← Visitor.through_append, List.append_assoc, List.singleton_append, Visitor.through_append]
    at others
  exact (Course.of_run others).trans (goes.returns isOpen)

theorem Comes.returns (comes : w.Comes v u) : Course (w.after u) (w.after v) := by
  induction comes with
  | refl => exact .rest _
  | tail before leads ih => exact (leads.returns (Comes.course isOpen before).2).trans ih

/-! ### What a walk keeps, on the way back -/

section

variable {Inv P : Context → Prop} (kept : w.Keeps Inv P)
include kept

/-- What holds when a visit has gone through nodes, holds after it. -/
theorem GoesThrough.returns_keeps {inner : WalkScope} {nodes : List (BlockMode × NodeIndex)}
    {a : Context} (goes : w.GoesThrough v inner nodes a)
    (inv : Inv ((w.visit (v.remaining - 1)).through inner nodes a))
    (holds : P ((w.visit (v.remaining - 1)).through inner nodes a)) : P (w.after v) := by
  have inside := (through_run (w := w) (goes.course isOpen).2 (v.remaining - 1) nodes).2
  cases goes with
  | calls admits calls =>
    rw [admits.after, calls.visitData]
    exact holds
  | members accepts =>
    obtain ⟨admits, is, begun⟩ := accepts
    rw [admits.after, visitData_declared is begun, Visitor.each_eq_through]
    exact kept.completes inv (inside _ rfl) holds
  | @arguments node admission ref outer type arguments members a admits is inScope =>
    have builds : w.Builds v node ref type members _ := .intro admits is inScope
    have around := (builds.run isOpen).2
    have offered := builds.offered isOpen
    rw [Visitor.each_eq_through] at around offered
    rw [admits.after, is]
    show P (w.visitAnonymous _ _ _ _ _ _ _).2
    rw [w.visitAnonymous_eq _ inScope, Visitor.each_eq_through]
    generalize Visitor.through _ _ _ _ = built at *
    split
    · exact kept.refusesNumber inv around admits.2.1 holds
    · next id b begun =>
      have counted := Course.deed (.rest built) (.enter (.number around))
      have opens := anonymous_opens around begun
      have linked := w.linkType_run ((counted.opens opens).precedes.table.isOpen around) type node.pos
        (.anonymousBase id) opens.isOpen
      have inside' := WalkScope.isOpenIn_classBody (linked.precedes.table.isOpen opens.isOpen)
      have inv' := kept.steady ((counted.opens opens).trans (.of_run linked)) inv
      have journey := (w.visit_journeys (v.remaining - 1)).each members inside'
      have declared := kept.declaresAnonymous inv around admits.2.1 is offered begun holds
      exact kept.completes (kept.steady (.of_run journey.run) inv')
        (journey.run.precedes.isOpenIn inside' _ rfl) (journey.keeps kept inv' declared)
  | anonymousMembers builds begun =>
    obtain ⟨admits, is, inScope⟩ := builds
    rw [admits.after, is]
    show P (w.visitAnonymous _ _ _ _ _ _ _).2
    rw [visitAnonymous_declared inScope begun, Visitor.each_eq_through]
    exact kept.completes inv (inside _ rfl) holds

/-- What holds as a visit begins to go through nodes, holds after it. -/
theorem GoesThrough.keeps_on {inner : WalkScope} {nodes : List (BlockMode × NodeIndex)}
    {a : Context} (goes : w.GoesThrough v inner nodes a) (inv : Inv a) (holds : P a) :
    P (w.after v) := by
  have journey := (w.visit_journeys (v.remaining - 1)).through nodes (goes.course isOpen).2
  exact goes.returns_keeps isOpen kept (kept.steady (.of_run journey.run) inv)
    (journey.keeps kept inv holds)

theorem LeadsTo.returns_keeps (leads : w.LeadsTo v u) (inv : Inv (w.after u)) (holds : P (w.after u)) :
    P (w.after v) := by
  obtain ⟨inner, before, mode, idx, more, a, goes, rfl⟩ := leads
  have inside := (through_run (w := w) (goes.course isOpen).2 (v.remaining - 1)
    (before ++ [(mode, idx)])).2
  have journey := (w.visit_journeys (v.remaining - 1)).through more inside
  refine goes.returns_keeps isOpen kept ?_ ?_
  all_goals rw [List.append_cons, Visitor.through_append]
  · exact kept.steady (.of_run journey.run) (by rwa [Visitor.through_append])
  · exact journey.keeps kept (by rwa [Visitor.through_append]) (by rwa [Visitor.through_append])

/-- What holds after a visit that a walk has come to, holds after the one that it came from. -/
theorem Comes.returns_keeps (comes : w.Comes v u) (inv : Inv (w.after u)) (holds : P (w.after u)) :
    P (w.after v) := by
  induction comes with
  | refl => exact holds
  | tail before leads ih =>
    have isOpen' := (Comes.course isOpen before).2
    exact ih (kept.steady (leads.returns isOpen') inv) (leads.returns_keeps isOpen' kept inv holds)

end

end Walk

/-! ## Runs -/

namespace Context

theorem analyzeFiles_eq_performAll (cx : Context) (units : List SourceUnit) :
    cx.analyzeFiles units = cx.performAll (units.map .analyze) := by
  rw [analyzeFiles, performAll, List.foldl_map]
  rfl

/-- Every visit that the requests come to is in an open scope. -/
theorem ComesTo.isOpen {cx : Context} {requests : List Request} {w : Walk} {v : Visit}
    (comes : cx.ComesTo requests w v) : v.scope.IsOpenIn v.before.table := by
  induction comes with
  | here comes => exact (comes.course (WalkScope.isOpenIn_file _)).2
  | later _ ih => exact ih

/-- Every visit that the requests come to is in a file of the run. -/
theorem ComesTo.inFile {cx : Context} {requests : List Request} {w : Walk} {v : Visit}
    (comes : cx.ComesTo requests w v) : w.file.val < v.before.files.size := by
  induction comes with
  | @here cx unit rest v comes =>
    rw [(comes.course (WalkScope.isOpenIn_file _)).1.precedes.files_size]
    simp [walkOf, rootVisit, addFile]
  | later _ ih => exact ih

/-- The classes of a run are in order at every visit that the requests come to. -/
theorem ComesTo.lifecycle {cx : Context} {requests : List Request} {w : Walk} {v : Visit}
    (comes : cx.ComesTo requests w v) (lifecycle : cx.Lifecycle) : v.before.Lifecycle := by
  induction comes with
  | @here cx unit rest v comes =>
    exact (lifecycle.addFile unit.tree.fileName unit.level).course
      (comes.course (WalkScope.isOpenIn_file _)).1
  | @later cx request rest w v comes ih => exact ih (lifecycle.perform request)

/-- After a visit that the requests come to, the run goes on to its end. -/
theorem ComesTo.goesOn {cx : Context} {requests : List Request} {w : Walk} {v : Visit}
    (comes : cx.ComesTo requests w v) : (w.after v).GoesOn (cx.performAll requests) := by
  induction comes with
  | @here cx unit rest v comes =>
    have returns := comes.returns (WalkScope.isOpenIn_file (cx.rootVisit unit).before.table)
    have ends : (cx.walkOf unit).after (cx.rootVisit unit) = cx.perform (.analyze unit) := rfl
    rw [ends] at returns
    exact (GoesOn.course returns).trans (.performAll _ rest)
  | later _ ih => exact ih

end Context

end LevelCheck
