import LevelCheck.Proofs.SilentLinking
import LevelCheck.Proofs.VisitParts
set_option autoImplicit false

/-! # The visits of a walk

From the visit of a node the walk goes on to the visits of others, each in the state that those before
it have left. `Walk.LeadsTo` says to which, and the visits that a walk comes to are those that it leads
to in any number of steps. What a walk keeps is known at every one of them. -/

namespace LevelCheck

/-! ## Records of a code -/

namespace ErrorLog

/-- The records of a code. -/
def coded (log : ErrorLog) (code : UInt32) : List Diagnostic :=
  log.diagnostics.toList.filter (·.code == code)

variable {log next : ErrorLog} {code : UInt32}

theorem coded_addPruning (log : ErrorLog) (file : FileId) (node : NodeIndex) {d : Diagnostic}
    (isCode : d.code = code) : (log.addPruning file node d).coded code = log.coded code ++ [d.pruning] := by
  simp [coded, addPruning, Diagnostic.pruning, isCode]

theorem Extends.coded_eq {kind : Problem → Prop} (grows : log.Extends kind next)
    (others : ∀ p, kind p → p.code ≠ code) : next.coded code = log.coded code :=
  grows.coded (· == code) fun p isKind => beq_eq_false_iff_ne.2 (others p isKind)

end ErrorLog

/-- The code is not one of a record that tells of a reference. -/
def IsFindingCode (code : UInt32) : Prop := code ≠ 1017 ∧ code ≠ 1018 ∧ code ≠ 2001

/-- What does not show makes no record of a code that does not tell of references. -/
theorem Context.Silent.coded {a b : Context} (silent : a.Silent b) {code : UInt32}
    (other : IsFindingCode code) : b.log.coded code = a.log.coded code := by
  have within (records : List Diagnostic) :
      records.filter (·.code == code)
        = (LevelCheck.findings records).filter (·.code == code) := by
    rw [LevelCheck.findings, List.filter_filter]
    refine List.filter_congr fun d _ => ?_
    by_cases is : d.code = code
    · simp [Diagnostic.isLinking, is, other.1, other.2.1, other.2.2]
    · simp [is]
  rw [ErrorLog.coded, within, ErrorLog.coded, within a.log.diagnostics.toList]
  exact congrArg (List.filter (·.code == code)) silent.findings

namespace Walk

variable (w : Walk) {code : UInt32}

theorem reportDuplicates_coded (declarators : List Declarator) (pos : Position)
    {problem : String → Problem} (others : ∀ name, (problem name).code ≠ code)
    (duplicates : List String) (cx : Context) :
    (w.reportDuplicates declarators pos problem duplicates cx).log.coded code = cx.log.coded code := by
  have grows : cx.log.Extends (fun p => p.code ≠ code)
      (w.reportDuplicates declarators pos problem duplicates cx).log :=
    Context.foldl_extends (fun cx name => cx.report_extends w.file _ (others name)) duplicates cx
  exact grows.coded_eq fun _ is => is

theorem declareVariables_coded (other : IsFindingCode code) (scope : ScopeRef)
    (written : List Declarator) (pos : Position) {problem : String → Problem}
    (others : ∀ name, (problem name).code ≠ code) (entry : Declared × SymbolTable) (cx : Context) :
    (w.declareVariables scope written pos problem entry cx).log.coded code = cx.log.coded code := by
  rw [declareVariables, (w.linkVariables_silent ..).coded other]
  exact w.reportDuplicates_coded written pos others _ _

/-- Entering a method records of these codes only what is wrong with the name of a constructor. -/
theorem enterMethod_coded (other : IsFindingCode code) (notParameter : code ≠ 1014)
    (owner : SymbolId) (pos : Position) (decl : MethodDecl) (cx : Context) :
    (w.enterMethod owner pos decl cx).2.log.coded code = cx.log.coded code
      ++ ((constructorProblem? (cx.table.symbol owner) decl).toList.map
          (.ofProblem (cx.fileName w.file) pos)).filter (·.code == code) := by
  have sameName : ((cx.table.addMethod (decl.record owner)).2.symbol owner).name
      = (cx.table.symbol owner).name :=
    SymbolTable.view_modifySymbol { cx.table with methods := cx.table.methods.push _ } owner owner
      Symbol.name fun _ => rfl
  have sameOwner : ((cx.table.addMethod (decl.record owner)).2.symbol owner).constructorName
      = (cx.table.symbol owner).constructorName :=
    congrArg (fun name => Text.afterLast '$' (Text.afterLast '.' name)) sameName
  have sameProblem : constructorProblem? ((cx.table.addMethod (decl.record owner)).2.symbol owner) decl
      = constructorProblem? (cx.table.symbol owner) decl := by
    rw [constructorProblem?, constructorProblem?, sameOwner]
  have parameter : ∀ _ : String, Problem.duplicateParameter.code ≠ code := fun _ => notParameter.symm
  rw [enterMethod_eq]
  simp only
  rw [declareParams, (w.linkSignature_silent ..).coded other, w.reportDuplicates_coded _ _ parameter,
    reportAll_eq, sameProblem]
  simp [ErrorLog.coded, Context.fileName, Context.file?]

/-- What a node calls for, methods apart, makes no record of a code that is neither one of references
nor one of repeated variables. -/
theorem Calls.coded {mode : BlockMode} {scope inner : WalkScope} {node : Node} {force : Bool}
    {nodes : List (BlockMode × NodeIndex)} {a b : Context} {w : Walk}
    (calls : w.Calls mode scope node force a inner nodes b) (other : IsFindingCode code)
    (notRepeat : code ≠ 1003 ∧ code ≠ 1014 ∧ code ≠ 1015) (notConstructor : code ≠ 1016) :
    b.log.coded code = a.log.coded code := by
  have locals (body : BodyId) (written : List Declarator) (pos : Position) (force : Bool)
      (cx : Context) : (w.declareLocals body written pos force cx).log.coded code = cx.log.coded code := by
    have repeated (name : String) : ((fun _ => .duplicateVariable : String → Problem) name).code ≠ code :=
      notRepeat.1.symm
    exact w.declareVariables_coded other _ written pos repeated _ cx
  cases calls with
  | @method decl owner =>
    rw [w.enterMethod_coded other notRepeat.2.1, List.filter_eq_nil_iff.2, List.append_nil]
    intro d isIn
    obtain ⟨p, isProblem, rfl⟩ := List.mem_map.1 isIn
    rw [Option.mem_toList, constructorProblem?] at isProblem
    split at isProblem
    · cases isProblem
      simpa [Diagnostic.ofProblem, Diagnostic.error, Problem.code] using notConstructor.symm
    · cases isProblem
  | fields =>
    have repeated (name : String) : (Problem.duplicateField name).code ≠ code := notRepeat.2.2.symm
    exact w.declareVariables_coded other _ _ _ repeated _ a
  | locals => exact locals ..
  | handler =>
    rw [enterException_eq]
    split
    · rfl
    · exact locals ..
  | mention => exact (Context.Silent.linkType ..).coded other
  | header | block | statements | initializer | innerInitializer | loop | fileLoop
  | anonymousAtFile | children | stray => rfl

end Walk

/-! ## Visits -/

/-- The visit of a node in a state of the run. -/
structure Visit where
  /-- How many levels of nesting remain. -/
  remaining : Nat
  mode : BlockMode
  scope : WalkScope
  node : NodeIndex
  before : Context

namespace Walk

variable (w : Walk)

/-- The state of the run after a visit. -/
def after (v : Visit) : Context := (w.visit v.remaining v.mode v.scope v.node v.before).2

/-- The node of the visit is admitted; the policy leaves the run in a state. -/
def Admits (v : Visit) (node : Node) (admission : Admission) (inspected : Context) : Prop :=
  0 < v.remaining ∧ w.arena.get? v.node = some node
    ∧ w.inspect v.remaining v.scope v.node node v.before = (some admission, inspected)

/-- The visit declares a class: the name is accepted, and its members are visited from a state on. -/
inductive Accepts (v : Visit) (decl : TypeDecl) (id : SymbolId) : Context → Prop where
  | intro {node : Node} {admission : Admission} {a b : Context} (admits : w.Admits v node admission a)
      (is : node.data.typeDecl? = some decl)
      (begun : (w.qualifiedName v.scope decl.name a).2.beginClass?
        (w.qualifiedName v.scope decl.name a).1 v.scope.ref? decl.head = some (id, b)) :
      Accepts v decl id (w.linkParents id node.pos (w.qualifiedName v.scope decl.name a).1 decl b)

/-- The visit is of an anonymous class in a scope; what the class is built from is visited before the
class is numbered. -/
inductive Builds (v : Visit) (node : Node) (ref : ScopeRef) (type : String)
    (members : List NodeIndex) : Context → Prop where
  | intro {admission : Admission} {outer : Option NodeIndex} {arguments : List NodeIndex}
      {a : Context} (admits : w.Admits v node admission a)
      (is : node.data = .anonymousClass outer type arguments members)
      (inScope : v.scope.ref? = some ref) :
      Builds v node ref type members
        ((w.visit (v.remaining - 1)).each v.scope (outer.toList ++ arguments) a)

/-- The walk goes from a visit on through nodes, in a scope and from a state on. -/
inductive GoesThrough (v : Visit) : WalkScope → List (BlockMode × NodeIndex) → Context → Prop where
  | calls {node : Node} {admission : Admission} {inner : WalkScope}
      {nodes : List (BlockMode × NodeIndex)} {a b : Context} (admits : w.Admits v node admission a)
      (calls : w.Calls v.mode v.scope node admission.forceFinal a inner nodes b) :
      GoesThrough v inner nodes b
  | members {decl : TypeDecl} {id : SymbolId} {a : Context} (accepts : w.Accepts v decl id a) :
      GoesThrough v (.classBody id) (nested decl.members) a
  | arguments {node : Node} {admission : Admission} {ref : ScopeRef} {outer : Option NodeIndex}
      {type : String} {arguments members : List NodeIndex} {a : Context}
      (admits : w.Admits v node admission a)
      (is : node.data = .anonymousClass outer type arguments members)
      (inScope : v.scope.ref? = some ref) :
      GoesThrough v v.scope (nested (outer.toList ++ arguments)) a
  | anonymousMembers {node : Node} {ref : ScopeRef} {type : String} {members : List NodeIndex}
      {id : SymbolId} {a b : Context} (builds : w.Builds v node ref type members a)
      (begun : (numbered ref a).beginClass? (anonymousName ref a) (some ref) (fun s => s)
        = some (id, b)) :
      GoesThrough v (.classBody id) (nested members)
        (b.linkType w.file (some ref) type node.pos (.anonymousBase id))

/-- The walk goes on from one visit to another, by way of those of the nodes before it. -/
def LeadsTo (v u : Visit) : Prop :=
  ∃ inner before mode idx more a, w.GoesThrough v inner (before ++ (mode, idx) :: more) a
    ∧ u = { remaining := v.remaining - 1, mode, scope := inner, node := idx
            before := (w.visit (v.remaining - 1)).through inner before a }

/-- The walk comes from one visit to another. -/
def Comes : Visit → Visit → Prop := Relation.ReflTransGen w.LeadsTo

/-! ### The runs between visits -/

variable {w} {v u : Visit} (isOpen : v.scope.IsOpenIn v.before.table)

theorem Admits.run {node : Node} {admission : Admission} {a : Context}
    (admits : w.Admits v node admission a) : Run v.before a := by
  have inspected := Run.deed (.inspect v.before w v.remaining v.scope v.node node)
  rwa [admits.2.2] at inspected

/-- A node that is admitted is noted, and what the policy raises about it is recorded. -/
theorem Admits.changes {node : Node} {admission : Admission} {a : Context}
    (admits : w.Admits v node admission a) : ∃ log trail, a = { v.before with log, trail } := by
  obtain ⟨log, is⟩ := w.inspect_changes v.before v.remaining v.scope v.node node
  rw [admits.2.2] at is
  exact ⟨log, _, is⟩

/-- What is left to do at a visit is what is done for the node. -/
theorem Admits.after {node : Node} {admission : Admission} {a : Context}
    (admits : w.Admits v node admission a) : w.after v
      = (w.visitData (w.visit (v.remaining - 1)) v.mode v.scope v.node node.pos admission.forceFinal
          node.data a).2 := by
  obtain ⟨remaining, mode, scope, idx, cx⟩ := v
  obtain ⟨levels, found, inspected⟩ := admits
  obtain ⟨remaining, rfl⟩ := Nat.exists_eq_succ_of_ne_zero levels.ne'
  rw [Walk.after, w.visit_succ found, inspected]
  rfl

include isOpen

/-- A class that is accepted is opened, and what it extends is linked. -/
theorem Accepts.course {decl : TypeDecl} {id : SymbolId} {a : Context}
    (accepts : w.Accepts v decl id a) : Course v.before a ∧ a.table.IsOpen (.symbol id) := by
  obtain @⟨node, admission, inspected, b, admits, is, begun⟩ := accepts
  have isOpen' := admits.run.precedes.isOpenIn isOpen
  have opens := opens_declared isOpen' begun
  have linked := w.linkParents_run opens.isOpen node.pos (w.qualifiedName v.scope decl.name inspected).1
    decl
  have named := admits.run.trans (w.qualifiedName_run isOpen' decl.name)
  exact ⟨((Course.of_run named).opens opens).trans (.of_run linked),
    linked.precedes.table.isOpen opens.isOpen⟩

/-- Building an anonymous class completes all classes that it begins. -/
theorem Builds.run {node : Node} {ref : ScopeRef} {type : String} {members : List NodeIndex}
    {a : Context} (builds : w.Builds v node ref type members a) :
    Run v.before a ∧ a.table.IsOpen ref := by
  obtain @⟨admission, outer, arguments, inspected, admits, is, inScope⟩ := builds
  have isOpen' := admits.run.precedes.isOpenIn isOpen
  have before := Visitor.each_run (w.visit_runs (v.remaining - 1)) (outer.toList ++ arguments) isOpen'
  exact ⟨admits.run.trans before, before.precedes.isOpenIn isOpen' _ inScope⟩

/-- The node of an anonymous class is offered to the policy before what the class is built from. -/
theorem Builds.offered {node : Node} {ref : ScopeRef} {type : String} {members : List NodeIndex}
    {a : Context} (builds : w.Builds v node ref type members a) : (w.file, node) ∈ a.sites := by
  obtain @⟨admission, outer, arguments, inspected, admits, -, -⟩ := builds
  have built := Visitor.each_run (w.visit_runs (v.remaining - 1)) (outer.toList ++ arguments)
    (admits.run.precedes.isOpenIn isOpen)
  refine (Course.of_run built).sites.subset ?_
  rw [w.admits_sites admits.2.2]
  exact List.mem_append_right _ List.mem_cons_self

/-- The state from which the walk goes on is one that it comes to, in an open scope. -/
theorem GoesThrough.course {inner : WalkScope} {nodes : List (BlockMode × NodeIndex)} {a : Context}
    (goes : w.GoesThrough v inner nodes a) : Course v.before a ∧ inner.IsOpenIn a.table := by
  cases goes with
  | calls admits calls =>
    obtain ⟨run, inside⟩ := calls.run (admits.run.precedes.isOpenIn isOpen)
    exact ⟨.of_run (admits.run.trans run), inside⟩
  | members accepts =>
    obtain ⟨course, inside⟩ := accepts.course isOpen
    exact ⟨course, WalkScope.isOpenIn_classBody inside⟩
  | arguments admits => exact ⟨.of_run admits.run, admits.run.precedes.isOpenIn isOpen⟩
  | @anonymousMembers node ref type _ id a b builds begun =>
    obtain ⟨run, around⟩ := builds.run isOpen
    have counted : Course a (numbered ref a) := .deed (.rest a) (.enter (.number around))
    have opens := anonymous_opens around begun
    have stillAround := opens.precedes.table.isOpen (counted.precedes.table.isOpen around)
    have linked := w.linkType_run stillAround type node.pos (.anonymousBase id) opens.isOpen
    exact ⟨((Course.of_run run).trans (counted.opens opens)).trans (.of_run linked),
      WalkScope.isOpenIn_classBody (linked.precedes.table.isOpen opens.isOpen)⟩

omit isOpen in
/-- Nodes are visited one after the other, all in an open scope. -/
theorem through_run {inner : WalkScope} {a : Context} (inside : inner.IsOpenIn a.table)
    (remaining : Nat) (nodes : List (BlockMode × NodeIndex)) :
    Run a ((w.visit remaining).through inner nodes a)
      ∧ inner.IsOpenIn ((w.visit remaining).through inner nodes a).table := by
  have journey := (w.visit_journeys remaining).through nodes inside
  exact ⟨journey.run, journey.run.precedes.isOpenIn inside⟩

theorem LeadsTo.course (leads : w.LeadsTo v u) :
    Course v.before u.before ∧ u.scope.IsOpenIn u.before.table := by
  obtain ⟨inner, before, mode, idx, more, a, goes, rfl⟩ := leads
  obtain ⟨course, inside⟩ := goes.course isOpen
  obtain ⟨run, inside⟩ := through_run (w := w) inside (v.remaining - 1) before
  exact ⟨course.trans (.of_run run), inside⟩

/-- What is visited, is visited in an open scope. -/
theorem Comes.course (comes : w.Comes v u) :
    Course v.before u.before ∧ u.scope.IsOpenIn u.before.table := by
  induction comes with
  | refl => exact ⟨.rest _, isOpen⟩
  | tail _ leads ih =>
    obtain ⟨course, inside⟩ := ih
    obtain ⟨further, inside⟩ := leads.course inside
    exact ⟨course.trans further, inside⟩

/-! ### What a walk keeps, at every visit -/

section

variable {Inv P : Context → Prop} (kept : w.Keeps Inv P) (inv : Inv v.before) (holds : P v.before)
include kept inv holds

theorem Admits.keeps {node : Node} {admission : Admission} {a : Context}
    (admits : w.Admits v node admission a) : Inv a ∧ P a := by
  refine ⟨kept.steady (.of_run admits.run) inv, ?_⟩
  have now : P (w.inspect v.remaining v.scope v.node node v.before).2 :=
    kept.inspects inv isOpen admits.2.1 holds
  rwa [admits.2.2] at now

theorem Builds.keeps {node : Node} {ref : ScopeRef} {type : String} {members : List NodeIndex}
    {a : Context} (builds : w.Builds v node ref type members a) : Inv a ∧ P a := by
  refine ⟨kept.steady (.of_run (builds.run isOpen).1) inv, ?_⟩
  obtain @⟨admission, outer, arguments, inspected, admits, is, inScope⟩ := builds
  obtain ⟨inv, holds⟩ := admits.keeps isOpen kept inv holds
  have journey := (w.visit_journeys (v.remaining - 1)).each (outer.toList ++ arguments)
    (admits.run.precedes.isOpenIn isOpen)
  exact journey.keeps kept inv holds

theorem GoesThrough.keeps {inner : WalkScope} {nodes : List (BlockMode × NodeIndex)} {a : Context}
    (goes : w.GoesThrough v inner nodes a) : Inv a ∧ P a := by
  refine ⟨kept.steady (goes.course isOpen).1 inv, ?_⟩
  cases goes with
  | calls admits calls =>
    obtain ⟨inv, holds⟩ := admits.keeps isOpen kept inv holds
    exact kept.calls inv (admits.run.precedes.isOpenIn isOpen) admits.2.1 calls holds
  | members accepts =>
    obtain ⟨admits, is, begun⟩ := accepts
    exact kept.declares inv isOpen admits.2.1 admits.2.2 is begun holds
  | arguments admits => exact (admits.keeps isOpen kept inv holds).2
  | @anonymousMembers node ref type members id a b builds begun =>
    obtain ⟨run, around⟩ := builds.run isOpen
    obtain ⟨inv, holds⟩ := builds.keeps isOpen kept inv holds
    have offered := builds.offered isOpen
    obtain @⟨admission, outer, arguments, inspected, admits, is, inScope⟩ := builds
    exact kept.declaresAnonymous inv around admits.2.1 is offered begun holds

theorem LeadsTo.keeps (leads : w.LeadsTo v u) : Inv u.before ∧ P u.before := by
  refine ⟨kept.steady (leads.course isOpen).1 inv, ?_⟩
  obtain ⟨inner, before, mode, idx, more, a, goes, rfl⟩ := leads
  obtain ⟨inv, holds⟩ := goes.keeps isOpen kept inv holds
  exact ((w.visit_journeys (v.remaining - 1)).through before (goes.course isOpen).2).keeps kept inv holds

/-- What whatever a walk does on its own keeps holds at every visit that it comes to. -/
theorem Comes.keeps (comes : w.Comes v u) : Inv u.before ∧ P u.before := by
  induction comes with
  | refl => exact ⟨inv, holds⟩
  | tail comes leads ih => exact leads.keeps (Comes.course isOpen comes).2 kept ih.1 ih.2

end

omit isOpen

theorem inspect_coded (w : Walk) (remaining : Nat) (scope : WalkScope) (idx : NodeIndex) (node : Node)
    (cx : Context) {code : UInt32} (other : isRuledCode code = false) :
    (w.inspect remaining scope idx node cx).2.log.coded code = cx.log.coded code := by
  refine (w.inspect_extends cx remaining scope idx node).coded_eq fun p isRuled is => ?_
  have isCode := isRuled.code
  rw [is, other] at isCode
  cases isCode

end Walk

/-! ## The visits of a run -/

namespace Context

/-- The visit of the root of a file that is analysed. -/
def rootVisit (cx : Context) (unit : SourceUnit) : Visit where
  remaining := cx.options.maxDepth
  mode := .nested
  scope := .file
  node := unit.tree.root
  before := (cx.addFile unit.tree.fileName unit.level).2

/-- A request of a run comes to the visit, by a walk. -/
inductive ComesTo : Context → List Request → Walk → Visit → Prop where
  | here {cx : Context} {unit : SourceUnit} {rest : List Request} {v : Visit}
      (comes : (cx.walkOf unit).Comes (cx.rootVisit unit) v) :
      ComesTo cx (.analyze unit :: rest) (cx.walkOf unit) v
  | later {cx : Context} {request : Request} {rest : List Request} {w : Walk} {v : Visit}
      (comes : ComesTo (cx.perform request) rest w v) : ComesTo cx (request :: rest) w v

end Context

end LevelCheck
