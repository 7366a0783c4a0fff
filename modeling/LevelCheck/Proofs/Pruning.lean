import LevelCheck.Proofs.WrittenTypes
import LevelCheck.Proofs.Nesting
import LevelCheck.Proofs.PreOrder
set_option autoImplicit false

/-! # Pruned nodes

A log keeps the nodes whose children are not visited apart from its records, but one is never without
the other: a node is pruned when a record says so, and a record that says so prunes a node that has not
been pruned before. A policy and the limit of nesting ask about that first. A class whose name is taken
is pruned after the policy has admitted it; nothing has been visited since, or, for an anonymous class,
only what lies below it, so that it takes a node reachable from itself to prune one twice. -/

namespace LevelCheck

/-! ## Logs -/

/-- The records that keep the children of a node from being visited. -/
def ErrorLog.prunings (log : ErrorLog) : List Diagnostic := log.diagnostics.toList.filter (·.prunes)

/-- The record says of a node of a file that its children are not visited. -/
def Diagnostic.Prunes (units : List SourceUnit) (d : Diagnostic) (entry : FileId × NodeIndex) : Prop :=
  ∃ unit node p, units[entry.1.val]? = some unit ∧ unit.tree.arena.get? entry.2 = some node
    ∧ d = (Diagnostic.ofProblem unit.tree.fileName node.pos p).pruning

namespace ErrorLog

variable (log : ErrorLog) (file : FileId) (node : NodeIndex) (name : String) (pos : Position)
  (p : Problem)

theorem prunings_add : (log.add (.ofProblem name pos p)).prunings = log.prunings := by
  simp [prunings, add, Diagnostic.ofProblem, Diagnostic.error]

theorem prunings_addPruning : (log.addPruning file node (.ofProblem name pos p)).prunings
    = log.prunings ++ [(Diagnostic.ofProblem name pos p).pruning] := by
  simp [prunings, addPruning, Diagnostic.pruning]

theorem isPruned_iff : log.isPruned file node = true ↔ (file, node) ∈ log.pruned :=
  List.contains_iff_mem

theorem isPruned_addPruning (d : Diagnostic) : (log.addPruning file node d).isPruned file node = true :=
  (isPruned_iff _ file node).2 List.mem_insert_self

end ErrorLog

namespace Context

/-- Records may have been made, but no node has been pruned. -/
structure PrunesNothing (a b : Context) : Prop where
  pruned : b.log.pruned = a.log.pruned
  prunings : b.log.prunings = a.log.prunings
  fileName : ∀ file, b.fileName file = a.fileName file

namespace PrunesNothing

variable {a b c : Context}

theorem refl (cx : Context) : cx.PrunesNothing cx := ⟨rfl, rfl, fun _ => rfl⟩

theorem trans (first : a.PrunesNothing b) (second : b.PrunesNothing c) : a.PrunesNothing c where
  pruned := second.pruned.trans first.pruned
  prunings := second.prunings.trans first.prunings
  fileName file := (second.fileName file).trans (first.fileName file)

theorem isPruned (nothing : a.PrunesNothing b) (file : FileId) (node : NodeIndex) :
    b.log.isPruned file node = a.log.isPruned file node := by
  rw [ErrorLog.isPruned, nothing.pruned, ErrorLog.isPruned]

theorem of_log (log : b.log = a.log) (precedes : a.Precedes b) : a.PrunesNothing b :=
  ⟨congrArg ErrorLog.pruned log, congrArg ErrorLog.prunings log, precedes.fileName⟩

theorem report (cx : Context) (file : FileId) (pos : Position) (p : Problem) :
    cx.PrunesNothing (cx.report file pos p) := ⟨rfl, cx.log.prunings_add _ pos p, fun _ => rfl⟩

theorem foldl {α : Type} {step : Context → α → Context}
    (each : ∀ (cx : Context) x, cx.PrunesNothing (step cx x)) (xs : List α) (cx : Context) :
    cx.PrunesNothing (xs.foldl step cx) := by
  induction xs generalizing cx with
  | nil => exact refl cx
  | cons x rest ih => exact (each cx x).trans (ih _)

theorem apply (cx : Context) (file : FileId) (pos : Position) (link : Link) (target : SymbolId) :
    cx.PrunesNothing (cx.apply file pos link target) := by
  have filled : cx.PrunesNothing (cx.modifyTable fun t => t.fill link target) :=
    ⟨rfl, rfl, fun _ => rfl⟩
  rw [Context.apply]
  split
  · exact filled.trans (.report _ file pos _)
  · exact filled

theorem resume (cx : Context) (r : PendingReference) (target : SymbolId) :
    cx.PrunesNothing (Context.resume r target cx) :=
  PrunesNothing.trans (b := cx.happened (.resumed r target)) ⟨rfl, rfl, fun _ => rfl⟩
    (.apply _ r.file r.position r.link target)

theorem abandon (cx : Context) (r : PendingReference) : cx.PrunesNothing (cx.abandon r) :=
  ⟨rfl, cx.log.prunings_add _ r.position _, fun _ => rfl⟩

theorem linkType (cx : Context) (file : FileId) (scope : Option ScopeRef) (written : String)
    (pos : Position) (link : Link) :
    cx.PrunesNothing (cx.linkType file scope written pos link) := by
  cases cx.linkType_linking file scope written pos link with
  | none is =>
    rw [is]
    exact refl cx
  | @now f target inRun found is =>
    let r := cx.reference f file scope (baseTypeName written) pos link
    have linked : cx.PrunesNothing (cx.happened (.linked r target)) := ⟨rfl, rfl, fun _ => rfl⟩
    rw [is]
    exact linked.trans (.apply _ file pos link target)
  | later inRun met waits undeclared is =>
    rw [is]
    exact ⟨rfl, rfl, fun _ => rfl⟩

theorem defineComplete (cx : Context) (id : SymbolId) : cx.PrunesNothing (cx.defineComplete id) := by
  rw [defineComplete_eq]
  refine PrunesNothing.trans ?_ (.foldl (fun cx r => .resume cx r id) (cx.waitingFor id).1 _)
  exact ⟨rfl, rfl, fun _ => rfl⟩

theorem beginClass {qualified : String} {outer : Option ScopeRef} {head : Symbol → Symbol}
    {id : SymbolId} (begun : a.beginClass? qualified outer head = some (id, b)) :
    a.PrunesNothing b := by
  obtain ⟨t, -, rfl⟩ := beginClass_some begun
  exact ⟨rfl, rfl, fun _ => rfl⟩

theorem settle (cx : Context) : cx.PrunesNothing cx.settle := by
  rw [settle_eq]
  have aside : cx.PrunesNothing { cx with pending := .empty } := ⟨rfl, rfl, fun _ => rfl⟩
  have resumed (cx : Context) (e : PendingReference × SymbolId) :
      cx.PrunesNothing (Context.resume e.1 e.2 cx) := .resume cx e.1 e.2
  exact (aside.trans (.foldl resumed _ _)).trans (.foldl abandon _ _)

end PrunesNothing

end Context

/-! ## What a walk does besides pruning -/

namespace Walk

variable {w : Walk} {a b c : Context}

theorem Errand.prunesNothing {places : Link → Prop} {todo todo' : List Mention}
    (errand : w.Errand places todo a todo' b) : a.PrunesNothing b := by
  have precedes := errand.deed.steps.precedes
  cases errand with
  | write | root => exact ⟨rfl, rfl, fun _ => rfl⟩
  | link | mention => exact .linkType a ..
  | report => exact .report a ..
  | header => exact .of_log rfl precedes

theorem Calls.prunesNothing {mode : BlockMode} {scope inner : WalkScope} {idx : NodeIndex}
    {node : Node} {force : Bool} {nodes : List (BlockMode × NodeIndex)}
    (isOpen : scope.IsOpenIn a.table) (found : w.arena.get? idx = some node)
    (calls : w.Calls mode scope node force a inner nodes b) : a.PrunesNothing b :=
  (calls.errands isOpen found).keeps (fun _ => True) (P := fun _ c => a.PrunesNothing c)
    (fun _ _ => trivial) (fun _ errand before => before.trans errand.prunesNothing) trivial (.refl a)

variable (w)

theorem qualifiedName_prunesNothing (scope : WalkScope) (simple : String) (cx : Context) :
    cx.PrunesNothing (w.qualifiedName scope simple cx).2 := by
  cases scope with
  | file =>
    rw [qualifiedName]
    split <;> exact .refl cx
  | classBody id => exact .refl cx
  | body id => exact ⟨rfl, rfl, fun _ => rfl⟩

theorem linkParents_prunesNothing (id : SymbolId) (pos : Position) (qualified : String)
    (decl : TypeDecl) (cx : Context) :
    cx.PrunesNothing (w.linkParents id pos qualified decl cx) := by
  have entered (cx : Context) (f : SymbolTable → SymbolTable) : cx.PrunesNothing (cx.modifyTable f) :=
    ⟨rfl, rfl, fun _ => rfl⟩
  have superclass : cx.PrunesNothing (w.linkSuperclass id pos qualified decl cx) := by
    unfold linkSuperclass
    split
    · exact (entered cx _).trans (.linkType ..)
    · split
      · exact .refl cx
      · exact entered cx _
  have interfaces (index : Nat) (written : List String) (cx : Context) :
      cx.PrunesNothing (w.linkInterfaces id pos index written cx) := by
    induction written generalizing index cx with
    | nil => exact .refl cx
    | cons first rest ih =>
      exact ((entered cx _).trans (.linkType ..)).trans (ih (index + 1) _)
  exact superclass.trans (interfaces 0 decl.interfaces _)

theorem reportAll_prunesNothing (pos : Position) (problems : List Problem) (cx : Context) :
    cx.PrunesNothing (w.reportAll pos problems cx) :=
  .foldl (fun cx p => .report cx w.file pos p) problems cx

/-! ## Pruning -/

/-- The record says of a node of the arena that its children are not visited. -/
def Records (name : String) (d : Diagnostic) (idx : NodeIndex) : Prop :=
  ∃ node p, w.arena.get? idx = some node ∧ d = (Diagnostic.ofProblem name node.pos p).pruning

/-- From the first state to the second, nodes of the file have been pruned that had not been pruned
before, each with a record of its own. All of them are among those that can be reached. -/
structure Prunes (reach : NodeIndex → Prop) (a b : Context) : Prop where
  intro ::
  fileName : b.fileName w.file = a.fileName w.file
  grows : ∃ nodes : List NodeIndex, ∃ records : List Diagnostic,
    b.log.pruned = (nodes.map (w.file, ·)).reverse ++ a.log.pruned
    ∧ b.log.prunings = a.log.prunings ++ records
    ∧ List.Forall₂ (w.Records (a.fileName w.file)) records nodes
    ∧ nodes.Nodup ∧ ∀ idx ∈ nodes, (w.file, idx) ∉ a.log.pruned ∧ reach idx

namespace Prunes

variable {w} {reach reach' : NodeIndex → Prop}

theorem of_nothing (nothing : a.PrunesNothing b) : w.Prunes reach a b :=
  ⟨nothing.fileName w.file, [], [], nothing.pruned, by rw [nothing.prunings, List.append_nil], .nil,
    List.nodup_nil, nofun⟩

theorem mono (prunes : w.Prunes reach a b) (le : ∀ idx, reach idx → reach' idx) :
    w.Prunes reach' a b := by
  obtain ⟨fileName, nodes, records, pruned, prunings, recorded, nodup, fresh⟩ := prunes
  exact ⟨fileName, nodes, records, pruned, prunings, recorded, nodup,
    fun idx isIn => ⟨(fresh idx isIn).1, le idx (fresh idx isIn).2⟩⟩

theorem trans (first : w.Prunes reach a b) (second : w.Prunes reach b c) : w.Prunes reach a c := by
  obtain ⟨fileName, nodes, records, pruned, prunings, recorded, nodup, fresh⟩ := first
  obtain ⟨fileName', nodes', records', pruned', prunings', recorded', nodup', fresh'⟩ := second
  rw [fileName] at recorded'
  refine ⟨fileName'.trans fileName, nodes ++ nodes', records ++ records', ?_, ?_,
    List.rel_append recorded recorded', ?_, fun idx isIn => ?_⟩
  · rw [pruned', pruned, List.map_append, List.reverse_append, List.append_assoc]
  · rw [prunings', prunings, List.append_assoc]
  · -- what has been pruned first is not pruned again
    refine nodup.append nodup' fun idx isIn isIn' => (fresh' idx isIn').1 ?_
    rw [pruned]
    exact List.mem_append_left _ (List.mem_reverse.2 (List.mem_map_of_mem isIn))
  · rcases List.mem_append.1 isIn with before | after
    · exact fresh idx before
    · obtain ⟨isFresh, isReached⟩ := fresh' idx after
      rw [pruned] at isFresh
      exact ⟨fun older => isFresh (List.mem_append_right _ older), isReached⟩

/-- A node that has not been pruned is pruned. -/
theorem reportPruning {idx : NodeIndex} {node : Node} (found : w.arena.get? idx = some node)
    (fresh : a.log.isPruned w.file idx = false) (p : Problem) :
    w.Prunes (· = idx) a (a.reportPruning w.file idx node.pos p) := by
  have isNew : (w.file, idx) ∉ a.log.pruned := by
    intro isIn
    rw [(a.log.isPruned_iff w.file idx).2 isIn] at fresh
    contradiction
  refine ⟨rfl, [idx], [(Diagnostic.ofProblem (a.fileName w.file) node.pos p).pruning], ?_,
    a.log.prunings_addPruning w.file idx _ node.pos p, .cons ⟨node, p, found, rfl⟩ .nil,
    List.nodup_singleton idx, fun other isIn => ?_⟩
  · exact List.insert_of_not_mem isNew
  · obtain rfl := List.mem_singleton.1 isIn
    exact ⟨isNew, rfl⟩

theorem isPruned_outside (prunes : w.Prunes reach a b) {idx : NodeIndex} (outside : ¬ reach idx) :
    b.log.isPruned w.file idx = a.log.isPruned w.file idx := by
  obtain ⟨-, nodes, records, pruned, -, -, -, fresh⟩ := prunes
  rw [Bool.eq_iff_iff, ErrorLog.isPruned_iff, ErrorLog.isPruned_iff, pruned, List.mem_append,
    or_iff_right]
  simp only [List.mem_reverse, List.mem_map, Prod.mk.injEq, true_and, exists_eq_right]
  exact fun isIn => outside (fresh idx isIn).2

end Prunes

variable {w} {scope : WalkScope} {idx : NodeIndex} {node : Node} {remaining : Nat}

theorem prunes_refuseDepth (found : w.arena.get? idx = some node) (cx : Context) :
    w.Prunes (· = idx) cx (w.refuseDepth idx node cx) := by
  have noted : cx.PrunesNothing (w.note idx 0 none cx) := ⟨rfl, rfl, fun _ => rfl⟩
  rw [refuseDepth]
  split
  · exact .of_nothing noted
  · next fresh =>
    rw [Bool.not_eq_true] at fresh
    exact (Prunes.of_nothing noted).trans (.reportPruning found fresh _)

theorem prunes_inspect (found : w.arena.get? idx = some node) (cx : Context) :
    w.Prunes (· = idx) cx (w.inspect remaining scope idx node cx).2 := by
  have noted : cx.PrunesNothing (w.offered remaining scope idx node cx) := ⟨rfl, rfl, fun _ => rfl⟩
  cases w.inspect_inspection cx remaining scope idx node with
  | skipped pruned is =>
    rw [is]
    exact .of_nothing ⟨rfl, rfl, fun _ => rfl⟩
  | @refused p rest fresh _ raised is =>
    rw [is]
    have fresh : (w.offered remaining scope idx node cx).log.isPruned w.file idx = false := fresh
    have pruned := (Prunes.of_nothing noted).trans (.reportPruning found fresh p)
    exact pruned.trans (.of_nothing (w.reportAll_prunesNothing node.pos rest _))
  | admitted fresh _ is =>
    rw [is]
    exact .of_nothing (noted.trans (w.reportAll_prunesNothing node.pos _ _))

/-- Admitting a node prunes nothing. -/
theorem admits_prunesNothing {admission : Admission}
    (admits : w.inspect remaining scope idx node a = (some admission, b)) : a.PrunesNothing b := by
  have inspection := w.inspect_inspection a remaining scope idx node
  rw [admits] at inspection
  cases inspection with
  | skipped _ is | refused _ _ _ is => cases is
  | admitted _ _ is =>
    have noted : a.PrunesNothing (w.offered remaining scope idx node a) := ⟨rfl, rfl, fun _ => rfl⟩
    obtain ⟨-, rfl⟩ := Prod.mk.inj is
    exact noted.trans (w.reportAll_prunesNothing node.pos _ _)

/-! ## Journeys -/

theorem below_child (found : w.arena.get? idx = some node) {next : NodeIndex}
    (isChild : next ∈ node.data.children) : w.arena.Below idx next :=
  .child (Arena.refers_iff.2 ⟨node, found, isChild⟩)

theorem below_nested (found : w.arena.get? idx = some node) {next : List NodeIndex}
    (areChildren : next ⊆ node.data.children) : ∀ entry ∈ nested next, w.arena.Below idx entry.2 := by
  intro entry isIn
  obtain ⟨n, isNext, rfl⟩ := List.mem_map.1 isIn
  exact below_child found (areChildren isNext)

/-- A declarator refers to its initializer. -/
theorem declarator_refers {bits : Nat} {d init : NodeIndex}
    {read : Declarator × Option NodeIndex} (is : w.declarator? bits d = some read)
    (isInit : read.2 = some init) : w.arena.Refers d init := by
  unfold declarator? at is
  cases at' : w.arena.get? d with
  | none => simp [at'] at is
  | some declarator =>
    simp only [at', Option.bind_eq_bind, Option.bind_some] at is
    split at is
    · next isData =>
      cases is
      refine Arena.refers_iff.2 ⟨declarator, at', ?_⟩
      rw [isData]
      exact Option.mem_toList.2 isInit
    · cases is

/-- The members of a class are children of its declaration. -/
theorem members_subset {decl : TypeDecl} (is : node.data.typeDecl? = some decl) :
    decl.members ⊆ node.data.children := by
  cases isData : node.data with
  | classDef | interfaceDef =>
    rw [isData] at is
    cases is
    exact List.Subset.refl _
  | _ =>
    rw [isData] at is
    cases is

/-- What is visited before an anonymous class is declared, and its members, are children of its node. -/
theorem anonymous_subset {outer : Option NodeIndex} {type : String} {arguments members : List NodeIndex}
    (is : node.data = .anonymousClass outer type arguments members) :
    outer.toList ++ arguments ⊆ node.data.children ∧ members ⊆ node.data.children := by
  rw [is]
  exact ⟨List.subset_append_left _ _, List.subset_append_right _ _⟩

/-- The nodes that are visited next lie below the node. -/
theorem Calls.below {mode : BlockMode} {inner : WalkScope} {force : Bool}
    {nodes : List (BlockMode × NodeIndex)} (found : w.arena.get? idx = some node)
    (calls : w.Calls mode scope node force a inner nodes b) :
    ∀ entry ∈ nodes, w.arena.Below idx entry.2 := by
  have initializers {modifiers : List Modifier} {declarators : List NodeIndex}
      (is : node.data = .variableDeclaration modifiers declarators) :
      ∀ entry ∈ nested ((w.declarators modifiers declarators).filterMap (·.2)),
        w.arena.Below idx entry.2 := by
    intro entry isIn
    obtain ⟨n, isNext, rfl⟩ := List.mem_map.1 isIn
    obtain ⟨found', isFound, isInit⟩ := List.mem_filterMap.1 isNext
    obtain ⟨d, isDeclarator, read⟩ := List.mem_filterMap.1 isFound
    exact .step (below_child found (by rw [is]; exact isDeclarator)) (declarator_refers read isInit)
  cases calls with
  | header is | block is | statements is | anonymousAtFile is =>
    exact below_nested found (by rw [is]; simp [NodeData.children])
  | innerInitializer is => exact below_nested found (by rw [is]; simp [NodeData.children])
  | fields is | locals is => exact initializers is
  | method is =>
    intro entry isIn
    obtain ⟨body, isBody, rfl⟩ := List.mem_map.1 isIn
    refine below_child found ?_
    cases isData : node.data with
    | methodDef | constructorDef =>
      rw [isData] at is
      cases is
      exact List.mem_append_right _ isBody
    | _ =>
      rw [isData] at is
      cases is
  | initializer is | handler is =>
    intro entry isIn
    obtain rfl := List.mem_singleton.1 isIn
    exact below_child found (by rw [is]; simp [NodeData.children])
  | loop | fileLoop | mention | children => exact below_nested found (List.Subset.refl _)
  | stray => exact fun entry isIn => absurd isIn List.not_mem_nil

/-- The nodes that the nodes of a list lead to. -/
def ReachedFrom (w : Walk) (nodes : List (BlockMode × NodeIndex)) (idx : NodeIndex) : Prop :=
  ∃ entry ∈ nodes, w.arena.Within entry.2 idx

theorem Prunes.cons {mode : BlockMode} {rest : List (BlockMode × NodeIndex)}
    (first : w.Prunes (w.arena.Within idx) a b) (second : w.Prunes (w.ReachedFrom rest) b c) :
    w.Prunes (w.ReachedFrom ((mode, idx) :: rest)) a c := by
  refine (first.mono fun other within => ?_).trans (second.mono fun other reached => ?_)
  · exact ⟨(mode, idx), List.mem_cons_self, within⟩
  · obtain ⟨entry, isIn, within⟩ := reached
    exact ⟨entry, List.mem_cons_of_mem _ isIn, within⟩

/-- Pruning nodes that are visited from within a node. -/
theorem Prunes.inside {nodes : List (BlockMode × NodeIndex)}
    (below : ∀ entry ∈ nodes, w.arena.Below idx entry.2) (prunes : w.Prunes (w.ReachedFrom nodes) a b) :
    w.Prunes (w.arena.Below idx) a b := by
  refine prunes.mono fun other reached => ?_
  obtain ⟨entry, isIn, within⟩ := reached
  obtain ⟨parent, leads, refers⟩ := Arena.below_iff.1 (below entry isIn)
  exact Arena.below_iff.2 (by
    rcases within.cases_tail with rfl | ⟨last, before, refers'⟩
    · exact ⟨parent, leads, refers⟩
    · exact ⟨last, (leads.tail refers).trans before, refers'⟩)

theorem Prunes.widen (prunes : w.Prunes (w.arena.Below idx) a b) :
    w.Prunes (w.arena.Within idx) a b := by
  refine prunes.mono fun other below => ?_
  obtain ⟨parent, within, refers⟩ := Arena.below_iff.1 below
  exact within.tail refers

theorem Prunes.self (prunes : w.Prunes (· = idx) a b) : w.Prunes (w.arena.Within idx) a b := by
  refine prunes.mono fun other is => ?_
  rw [is]

section

variable {admission : Admission} (found : w.arena.get? idx = some node)
  (admits : w.inspect remaining scope idx node a = (some admission, b))

include found admits

theorem prunes_admitted : w.Prunes (w.arena.Within idx) a b := by
  have inspected : w.Prunes (· = idx) a (w.inspect remaining scope idx node a).2 :=
    prunes_inspect found a
  rw [admits] at inspected
  exact inspected.self

/-- The name of a class has been declared before. -/
theorem prunes_refusesName (simple : String) :
    w.Prunes (w.arena.Within idx) a ((w.qualifiedName scope simple b).2.reportPruning w.file idx
      node.pos (.duplicateClass (w.qualifiedName scope simple b).1)) := by
  have before := (admits_prunesNothing admits).trans (w.qualifiedName_prunesNothing scope simple b)
  have fresh : (w.qualifiedName scope simple b).2.log.isPruned w.file idx = false := by
    rw [before.isPruned]
    exact w.fresh_of_admits admits
  exact ((Prunes.of_nothing before).trans (.reportPruning found fresh _)).self

/-- The name of an anonymous class has been declared before. What has been pruned since it was admitted
lies below the node, which does not lie below itself. -/
theorem prunes_refusesNumber (acyclic : w.arena.AcyclicFrom idx)
    (inside : w.Prunes (w.arena.Below idx) b c) (ref : ScopeRef) :
    w.Prunes (w.arena.Within idx) a ((numbered ref c).reportPruning w.file idx node.pos
      (.duplicateClass (anonymousName ref c))) := by
  have admitted := admits_prunesNothing admits
  have counted : c.PrunesNothing (numbered ref c) := ⟨rfl, rfl, fun _ => rfl⟩
  have fresh : (numbered ref c).log.isPruned w.file idx = false := by
    rw [counted.isPruned, inside.isPruned_outside acyclic.1, admitted.isPruned]
    exact w.fresh_of_admits admits
  have built := ((Prunes.of_nothing admitted).trans inside.widen).trans (.of_nothing counted)
  exact built.trans (Prunes.reportPruning found fresh _).self

end

/-- Nodes that lie below one that leads into no cycle lead into none. -/
theorem acyclicFrom_below {nodes : List (BlockMode × NodeIndex)} (acyclic : w.arena.AcyclicFrom idx)
    (below : ∀ entry ∈ nodes, w.arena.Below idx entry.2) :
    ∀ entry ∈ nodes, w.arena.AcyclicFrom entry.2 := by
  intro entry isIn
  rw [Arena.acyclicFrom_iff] at acyclic ⊢
  obtain ⟨parent, leads, refers⟩ := Arena.below_iff.1 (below entry isIn)
  exact fun other within => acyclic other ((leads.tail refers).trans within)

/-- What a walk prunes from some nodes on is reached from them, and pruned once. Of the nodes that are
visited, none may be reachable from itself: a class without a name is pruned after what lies below it. -/
theorem Journey.prunes {nodes : List (BlockMode × NodeIndex)} (journey : w.Journey scope nodes a b)
    (acyclic : ∀ entry ∈ nodes, w.arena.AcyclicFrom entry.2) :
    w.Prunes (w.ReachedFrom nodes) a b := by
  induction journey with
  | done scope a => exact .of_nothing (.refl a)
  | absent missing after ih =>
    exact .cons (.of_nothing (.refl _)) (ih (List.forall_mem_of_forall_mem_cons acyclic))
  | refused isOpen found after ih =>
    exact .cons (prunes_refuseDepth found _).self
      (ih (List.forall_mem_of_forall_mem_cons acyclic))
  | @skipped scope mode idx node remaining rest a b c isOpen found skips after ih =>
    have inspected : w.Prunes (· = idx) a (w.inspect remaining scope idx node a).2 :=
      prunes_inspect found a
    rw [skips] at inspected
    exact .cons inspected.self (ih (List.forall_mem_of_forall_mem_cons acyclic))
  | entered isOpen found admits calls inside after ihInside ihAfter =>
    have below := calls.below found
    have called := calls.prunesNothing (Journeys.isOpen_inspected isOpen admits) found
    have visited := (ihInside (acyclicFrom_below (acyclic _ List.mem_cons_self) below)).inside below
    exact .cons (((prunes_admitted found admits).trans (.of_nothing called)).trans visited.widen)
      (ihAfter (List.forall_mem_of_forall_mem_cons acyclic))
  | duplicate isOpen found admits is after ih =>
    exact .cons (prunes_refusesName found admits _)
      (ih (List.forall_mem_of_forall_mem_cons acyclic))
  | @declared scope mode idx node remaining admission decl id rest a b c d e isOpen found admits is
      begun members after ihMembers ihAfter =>
    have below := below_nested found (members_subset is)
    have named := w.qualifiedName_prunesNothing scope decl.name b
    have linked := w.linkParents_prunesNothing id node.pos (w.qualifiedName scope decl.name b).1 decl c
    have begins := (named.trans (.beginClass begun)).trans linked
    have visited := (ihMembers (acyclicFrom_below (acyclic _ List.mem_cons_self) below)).inside below
    have whole := (((prunes_admitted found admits).trans (.of_nothing begins)).trans visited.widen).trans
      (.of_nothing (.defineComplete d id))
    exact .cons whole (ihAfter (List.forall_mem_of_forall_mem_cons acyclic))
  | @anonymousDuplicate scope ref mode idx node remaining admission outer type arguments members rest a
      b c d isOpen found admits is inScope before after ihBefore ihAfter =>
    have below := below_nested found (anonymous_subset is).1
    have atNode := acyclic _ List.mem_cons_self
    have visited := (ihBefore (acyclicFrom_below atNode below)).inside below
    exact .cons (prunes_refusesNumber found admits atNode visited _)
      (ihAfter (List.forall_mem_of_forall_mem_cons acyclic))
  | @anonymous scope ref mode idx node remaining admission outer type arguments members id rest a b c d
      e f isOpen found admits is inScope before begun inside after ihBefore ihMembers ihAfter =>
    have below := below_nested found (anonymous_subset is).1
    have below' := below_nested found (anonymous_subset is).2
    have atNode := acyclic _ List.mem_cons_self
    have built := ((ihBefore (acyclicFrom_below atNode below)).inside below).widen
    have counted : c.PrunesNothing (numbered ref c) := ⟨rfl, rfl, fun _ => rfl⟩
    have begins := (counted.trans (.beginClass begun)).trans
      (.linkType d w.file (some ref) type node.pos (.anonymousBase id))
    have visited := ((ihMembers (acyclicFrom_below atNode below')).inside below').widen
    have whole := ((((prunes_admitted found admits).trans built).trans (.of_nothing begins)).trans
      visited).trans (.of_nothing (.defineComplete e id))
    exact .cons whole (ihAfter (List.forall_mem_of_forall_mem_cons acyclic))

/-! ## Single visits -/

section

variable (cx : Context) (mode : BlockMode)

/-- The children of a node are not to be visited, as is known before: no levels of nesting remain, or
the node has been pruned, or the policy prunes it. -/
def Skips (w : Walk) (remaining : Nat) (scope : WalkScope) (idx : NodeIndex) (node : Node)
    (cx : Context) : Prop := remaining = 0 ∨ (w.inspect remaining scope idx node cx).1 = none

/-- A node that is skipped is pruned, and nothing else comes of its visit but records. -/
theorem visit_of_skips (found : w.arena.get? idx = some node)
    (skips : w.Skips remaining scope idx node cx) :
    (w.visit remaining mode scope idx cx).1 = .stopped
      ∧ (w.visit remaining mode scope idx cx).2.log.isPruned w.file idx = true
      ∧ ∃ log trail, (w.visit remaining mode scope idx cx).2 = { cx with log, trail } := by
  cases remaining with
  | zero =>
    have refused : w.visit 0 mode scope idx cx = (.stopped, w.refuseDepth idx node cx) := by
      rw [visit, found]
    rw [refused, refuseDepth_eq]
    refine ⟨rfl, ?_, _, _, rfl⟩
    simp only
    split
    · assumption
    · exact ErrorLog.isPruned_addPruning _ _ _ _
  | succ remaining =>
    have skipped : (w.inspect (remaining + 1) scope idx node cx).1 = none := by
      rcases skips with none | skipped
      · contradiction
      · exact skipped
    obtain ⟨log, changes⟩ := w.inspect_changes cx (remaining + 1) scope idx node
    have inspection := w.inspect_inspection cx (remaining + 1) scope idx node
    cases entry : w.inspect (remaining + 1) scope idx node cx with
    | mk admission next =>
      rw [entry] at skipped changes inspection
      simp only at skipped changes
      subst skipped
      have stopped : w.visit (remaining + 1) mode scope idx cx = (.stopped, next) := by
        rw [visit, found]
        simp only [entry]
      rw [stopped]
      refine ⟨rfl, ?_, log, _, changes⟩
      cases inspection with
      | skipped pruned is =>
        obtain ⟨-, rfl⟩ := Prod.mk.inj is
        exact pruned
      | @refused p rest fresh prunes raised is =>
        obtain ⟨-, rfl⟩ := Prod.mk.inj is
        show (w.reportAll node.pos rest _).log.isPruned w.file idx = true
        rw [(w.reportAll_prunesNothing node.pos rest _).isPruned]
        exact ErrorLog.isPruned_addPruning _ _ _ _
      | admitted _ _ is => cases is

/-- A visit is stopped exactly if the node has been pruned when it ends. -/
theorem visit_stopped_iff (found : w.arena.get? idx = some node) :
    (w.visit remaining mode scope idx cx).1 = .stopped
      ↔ (w.visit remaining mode scope idx cx).2.log.isPruned w.file idx = true := by
  by_cases skips : w.Skips remaining scope idx node cx
  · obtain ⟨stopped, pruned, -⟩ := visit_of_skips cx mode found skips
    exact iff_of_true stopped pruned
  · unfold Skips at skips
    rw [not_or] at skips
    obtain ⟨remaining, rfl⟩ := Nat.exists_eq_succ_of_ne_zero skips.1
    cases entry : w.inspect (remaining + 1) scope idx node cx with
    | mk admission next =>
      cases admission with
      | none =>
        rw [entry] at skips
        exact absurd rfl skips.2
      | some admission =>
        rw [visit, found]
        simp only [entry]
        -- the log is asked after the children have been visited
        generalize w.visitData (w.visit remaining) mode scope idx node.pos admission.forceFinal
          node.data next = visited
        by_cases pruned : visited.2.log.isPruned w.file idx = true
        · simp [pruned]
        · rw [if_neg pruned]
          split
          · exact iff_of_false (by simp) pruned
          · exact iff_of_false (by simp) pruned

end

end Walk

/-! ## Runs -/

namespace Context

/-- The records of a run that keep the children of a node from being visited are those of the nodes that
are pruned, one for each. -/
structure Tallied (units : List SourceUnit) (cx : Context) : Prop where
  files : cx.files.toList.map FileScope.name = units.map (·.tree.fileName)
  once : cx.log.pruned.Nodup
  records : List.Forall₂ (Diagnostic.Prunes units) cx.log.prunings cx.log.pruned.reverse

namespace Tallied

variable {units : List SourceUnit} {a b : Context}

theorem withTable (table : SymbolTable) (options : Options) :
    (Context.withTable table options).Tallied [] := ⟨rfl, List.nodup_nil, .nil⟩

theorem of_nothing (tallied : a.Tallied units) (nothing : a.PrunesNothing b)
    (files : b.files.toList.map FileScope.name = a.files.toList.map FileScope.name) :
    b.Tallied units := by
  refine ⟨files.trans tallied.files, ?_, ?_⟩
  · rw [nothing.pruned]
    exact tallied.once
  · rw [nothing.pruned, nothing.prunings]
    exact tallied.records

theorem analyzeFile (tallied : a.Tallied units) {unit : SourceUnit}
    (acyclic : unit.tree.arena.AcyclicFrom unit.tree.root) :
    (a.analyzeFile unit).2.Tallied (units ++ [unit]) := by
  have added := addFile_names tallied.files unit
  have given := walkOf_given tallied.files unit
  have journey := a.analyzeFile_journey unit
  have names := journey.run.precedes.names.trans added
  obtain ⟨-, nodes, records, pruned, prunings, recorded, nodup, fresh⟩ := journey.prunes
    fun entry isIn => by
      obtain rfl := List.mem_singleton.1 isIn
      exact acyclic
  refine ⟨names, ?_, ?_⟩
  · rw [pruned, List.nodup_append]
    refine ⟨List.nodup_reverse.2 (nodup.map fun _ _ same => (Prod.mk.inj same).2), tallied.once,
      fun entry isIn other isOlder => ?_⟩
    obtain ⟨idx, isNode, rfl⟩ := List.mem_map.1 (List.mem_reverse.1 isIn)
    rintro rfl
    exact (fresh idx isNode).1 isOlder
  · rw [pruned, prunings, List.reverse_append, List.reverse_reverse]
    refine List.rel_append (tallied.records.imp fun d entry prunes => ?_) ?_
    · obtain ⟨earlier, node, p, is, found, record⟩ := prunes
      exact ⟨earlier, node, p, getElem?_further is _, found, record⟩
    · -- the records that the walk has made are of nodes of its file
      rw [List.forall₂_map_right_iff]
      refine recorded.imp fun d idx records => ?_
      obtain ⟨node, p, found, record⟩ := records
      rw [fileName_of_names added given] at record
      exact ⟨unit, node, p, given, found, record⟩

theorem settle (tallied : a.Tallied units) : a.settle.Tallied units :=
  tallied.of_nothing (.settle a) a.settle_settles.precedes.names

theorem performAll (tallied : a.Tallied units) {requests : List Request}
    (acyclic : ∀ unit ∈ requests.filterMap Request.unit?,
      unit.tree.arena.AcyclicFrom unit.tree.root) :
    (a.performAll requests).Tallied (units ++ requests.filterMap Request.unit?) := by
  induction requests generalizing a units with
  | nil => simpa [Context.performAll] using tallied
  | cons request rest ih =>
    cases request with
    | analyze unit =>
      have analyzed := tallied.analyzeFile (acyclic unit List.mem_cons_self)
      have later := ih analyzed fun u isIn => acyclic u (List.mem_cons_of_mem _ isIn)
      rw [List.append_assoc] at later
      exact later
    | settle => exact ih tallied.settle acyclic

end Tallied

/-- Pruning is accounted for. In a run over files in which no node is reachable from itself, no node is
pruned twice, and the records that prune are those of the pruned nodes, one for each, with its file and
position. A visit of a node is stopped exactly if the node has been pruned by its end. If the node is
skipped, nothing comes of it but records, and not even those if the node has been pruned before. -/
theorem performAll_prunings (options : Options) (requests : List Request)
    (acyclic : ∀ unit ∈ requests.filterMap Request.unit?,
      unit.tree.arena.AcyclicFrom unit.tree.root) :
    ((start options).performAll requests).Tallied (requests.filterMap Request.unit?)
      ∧ ((start options).performAll requests).log.prunings.length
        = ((start options).performAll requests).log.pruned.length
      ∧ ∀ (w : Walk) (remaining : Nat) (mode : BlockMode) (scope : WalkScope) (idx : NodeIndex)
          (node : Node) (cx : Context), w.arena.get? idx = some node →
        ((w.visit remaining mode scope idx cx).1 = .stopped
            ↔ (w.visit remaining mode scope idx cx).2.log.isPruned w.file idx = true)
          ∧ (w.Skips remaining scope idx node cx →
            ∃ log trail, (w.visit remaining mode scope idx cx).2 = { cx with log, trail })
          ∧ (cx.log.isPruned w.file idx = true →
            ∃ trail, w.visit remaining mode scope idx cx = (.stopped, { cx with trail })) := by
  have started : (start options).Tallied [] := .withTable .seeded options
  have tallied := started.performAll acyclic
  refine ⟨tallied, ?_, fun w remaining mode scope idx node cx found => ?_⟩
  · rw [tallied.records.length_eq, List.length_reverse]
  · refine ⟨Walk.visit_stopped_iff cx mode found, fun skips => ?_, fun pruned => ?_⟩
    · exact (Walk.visit_of_skips cx mode found skips).2.2
    · exact ⟨_, w.visit_of_pruned cx remaining scope idx node mode found pruned⟩

end Context

/-- A file that lists its class three times. -/
def thrice : SourceUnit where
  level := .full
  tree :=
    { fileName := "A.java", root := ⟨0⟩
      arena := { nodes := #[
        ⟨.nowhere, .sourceFile none [] [⟨1⟩, ⟨1⟩, ⟨1⟩]⟩,
        ⟨⟨1, 1⟩, .classDef [] "A" [] none [] []⟩] } }

/-- The class is declared once; it is pruned and recorded when it comes up again, and passed over when
it comes up a third time. -/
theorem Context.performAll_prunings_thrice :
    ((start .usual).performAll [.analyze thrice, .settle]).log.pruned = [(⟨0⟩, ⟨1⟩)]
      ∧ ((start .usual).performAll [.analyze thrice, .settle]).trail.size = 4
      ∧ List.Forall₂ (Diagnostic.Prunes [thrice])
          ((start .usual).performAll [.analyze thrice, .settle]).log.prunings [(⟨0⟩, ⟨1⟩)] := by
  have acyclic : thrice.tree.arena.AcyclicFrom thrice.tree.root :=
    Arena.acyclicFrom_of_later [⟨0⟩, ⟨1⟩] (by decide) (by decide) (by decide)
  have pruned : ((start .usual).performAll [.analyze thrice, .settle]).log.pruned
      = [(⟨0⟩, ⟨1⟩)] := by decide +kernel
  have given : [Request.analyze thrice, .settle].filterMap Request.unit? = [thrice] := rfl
  have each : ∀ unit ∈ [Request.analyze thrice, .settle].filterMap Request.unit?,
      unit.tree.arena.AcyclicFrom unit.tree.root := by
    rw [given, List.forall_mem_singleton]
    exact acyclic
  obtain ⟨tallied, -⟩ := performAll_prunings .usual [.analyze thrice, .settle] each
  rw [given] at tallied
  have records := tallied.records
  rw [pruned, List.reverse_singleton] at records
  exact ⟨pruned, by decide +kernel, records⟩

end LevelCheck
