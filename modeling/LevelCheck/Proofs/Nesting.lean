import LevelCheck.Proofs.Records
set_option autoImplicit false

/-! # The limit of nesting

The references between the nodes of an arena may run in circles, and nothing but the limit of nesting
keeps a walk from following them forever. A visit at a depth below the limit visits further nodes one
level deeper, and one at the limit visits none. So the visits of a walk are nested no more than one
level deeper than the limit says, whatever would be done further down. The levels that remain are on
the trail of a run, which tells the depth of every node that it came to. A node is refused for its
depth unless it has been pruned before, and is pruned by being refused, so it is recorded at most once
in a run. -/

namespace LevelCheck

/-! ## Frames -/

namespace Walk

variable (w : Walk)

/-- A visit at a depth, given how nodes one level deeper are visited. -/
def frame (limit depth : Nat) (next : Visitor) : Visitor := fun mode scope idx cx =>
  match w.arena.get? idx with
  | none => (.clean, cx)
  | some node =>
    if limit ≤ depth then (.stopped, w.refuseDepth idx node cx)
    else
      match w.inspect (limit - depth) scope idx node cx with
      | (none, cx) => (.stopped, cx)
      | (some admission, cx) =>
        let (reported, cx) :=
          w.visitData next mode scope idx node.pos admission.forceFinal node.data cx
        if cx.log.isPruned w.file idx then (.stopped, cx)
        else if admission.reported || reported then (.reported, cx)
        else (.clean, cx)

/-- Nested visits from a depth on, at most the given number of them; deeper ones are left to
`beyond`. -/
def frames (limit : Nat) (beyond : Visitor) : Nat → Nat → Visitor
  | 0, _ => beyond
  | count + 1, depth => w.frame limit depth (frames limit beyond count (depth + 1))

variable {limit depth : Nat}

/-- At the limit no further node is visited. -/
theorem frame_of_le (atLimit : limit ≤ depth) (next : Visitor) :
    w.frame limit depth next = w.visit 0 := by
  funext mode scope idx cx
  unfold frame visit
  cases w.arena.get? idx with
  | none => rfl
  | some node => simp [atLimit]

theorem frame_of_lt (below : depth < limit) :
    w.frame limit depth (w.visit (limit - (depth + 1))) = w.visit (limit - depth) := by
  have levels : limit - depth = limit - (depth + 1) + 1 := by omega
  funext mode scope idx cx
  unfold frame
  rw [levels]
  unfold visit
  cases w.arena.get? idx with
  | none => rfl
  | some node => exact if_neg (Nat.not_le.2 below)

/-- A visit at a depth, by the visits one level deeper. -/
theorem frame_visit (limit depth : Nat) :
    w.frame limit depth (w.visit (limit - (depth + 1))) = w.visit (limit - depth) := by
  by_cases atLimit : limit ≤ depth
  · rw [w.frame_of_le atLimit, Nat.sub_eq_zero_of_le atLimit]
  · exact w.frame_of_lt (Nat.lt_of_not_le atLimit)

theorem frames_eq_visit (beyond : Visitor) (count : Nat) (isDepth : depth + count = limit) :
    w.frames limit beyond (count + 1) depth = w.visit (limit - depth) := by
  induction count generalizing depth with
  | zero =>
    have atLimit : limit ≤ depth := by omega
    unfold frames
    rw [w.frame_of_le atLimit, Nat.sub_eq_zero_of_le atLimit]
  | succ count ih =>
    unfold frames
    rw [ih (by omega)]
    exact w.frame_visit limit depth

/-- What solves the recursion that counts the depth up unrolls into nested visits. -/
theorem frames_of_recursion {visit : Nat → Visitor}
    (recursion : ∀ depth, visit depth = w.frame limit depth (visit (depth + 1))) (count depth : Nat) :
    w.frames limit (visit (depth + count)) count depth = visit depth := by
  induction count generalizing depth with
  | zero => rfl
  | succ count ih =>
    unfold frames
    rw [recursion depth, ← ih (depth + 1), Nat.add_right_comm depth 1 count, Nat.add_assoc]

/-- The recursion that counts the depth up has one solution, which is the walk. -/
theorem visits_iff (limit : Nat) (visit : Nat → Visitor) :
    (∀ depth, visit depth = w.frame limit depth (visit (depth + 1)))
      ↔ ∀ depth, visit depth = w.visit (limit - depth) := by
  constructor
  · intro recursion depth
    by_cases atLimit : limit ≤ depth
    · rw [recursion, w.frame_of_le atLimit, Nat.sub_eq_zero_of_le atLimit]
    · -- below the limit the recursion is unrolled down to it
      obtain ⟨count, isDepth⟩ := Nat.exists_eq_add_of_le (Nat.le_of_not_le atLimit)
      rw [← w.frames_of_recursion recursion (count + 1) depth]
      exact w.frames_eq_visit _ count isDepth.symm
  · intro walks depth
    rw [walks, walks]
    exact (w.frame_visit limit depth).symm

end Walk

/-! ## Runs -/

/-- The file that a request is about, if it is one. -/
def Context.Request.unit? : Context.Request → Option SourceUnit
  | .analyze unit => some unit
  | .settle => none

/-- The record says of a node of a file that it is nested too deeply. -/
def Diagnostic.Refuses (units : List SourceUnit) (limit : Nat) (d : Diagnostic)
    (entry : FileId × NodeIndex) : Prop :=
  ∃ unit node, units[entry.1.val]? = some unit ∧ unit.tree.arena.get? entry.2 = some node
    ∧ d = (Diagnostic.ofProblem unit.tree.fileName node.pos (.nestingTooDeep limit)).pruning

theorem ErrorLog.nesting_addPruning (log : ErrorLog) (file : FileId) (node : NodeIndex) (name : String)
    (pos : Position) (limit : Nat) :
    (log.addPruning file node (.ofProblem name pos (.nestingTooDeep limit))).nesting
      = log.nesting ++ [(Diagnostic.ofProblem name pos (.nestingTooDeep limit)).pruning] := by
  simp [nesting, addPruning, Diagnostic.pruning, Diagnostic.ofProblem, Diagnostic.error, Problem.code]

/-- The walk of a file leads to the stop with the given number of levels remaining: it is the root,
with all of them, or a node that another one leads on to, which was visited with one more. -/
def Context.LeadsTo (cx : Context) (unit : SourceUnit) (file : FileId) (remaining : Nat)
    (stop : Stop) : Prop :=
  stop.2 = unit.tree.root ∧ remaining = cx.options.maxDepth
    ∨ ∃ p ∈ cx.trail.toList, ∃ o ∈ p.offer, p.file = file ∧ p.remaining = remaining + 1
        ∧ stop ∈ unit.tree.arena.onward o.scope o.node.data

/-- A node on the trail of a run: its depth does not exceed the limit, it is only offered to the
policy at a depth below, and the walk of its file leads to it at that depth. -/
structure Context.IsNested (units : List SourceUnit) (cx : Context) (e : Encounter) : Prop where
  depth : e.remaining ≤ cx.options.maxDepth
  offered : e.offer.isSome → 0 < e.remaining
  within : ∃ unit kind, units[e.file.val]? = some unit
    ∧ cx.LeadsTo unit e.file e.remaining (kind, e.node)

namespace Context

/-- The nodes that were refused for their depth, in order: they were neither offered to the policy
nor pruned before. -/
def refusals (cx : Context) : List (FileId × NodeIndex) :=
  (cx.trail.toList.filter fun e => e.offer.isNone && !e.pruned).map fun e => (e.file, e.node)

/-- The files of a run are named as the trees that they come from. -/
theorem fileName_of_names {cx : Context} {units : List SourceUnit}
    (names : cx.files.toList.map FileScope.name = units.map (·.tree.fileName)) {file : FileId}
    {unit : SourceUnit} (given : units[file.val]? = some unit) :
    cx.fileName file = unit.tree.fileName := by
  have same := congrArg (·[file.val]?) names
  simp only [List.getElem?_map, given, Array.getElem?_toList] at same
  rw [fileName, file?]
  cases found : cx.files[file.val]? with
  | none => simp [found] at same
  | some f => simpa [found] using same

/-- The files that have been given keep their places when more are. -/
theorem getElem?_further {units : List SourceUnit} {i : Nat} {unit : SourceUnit}
    (is : units[i]? = some unit) (more : List SourceUnit) : (units ++ more)[i]? = some unit := by
  rw [List.getElem?_append_left (List.getElem?_eq_some_iff.1 is).1]
  exact is

theorem addFile_names {cx : Context} {units : List SourceUnit}
    (names : cx.files.toList.map FileScope.name = units.map (·.tree.fileName)) (unit : SourceUnit) :
    (cx.addFile unit.tree.fileName unit.level).2.files.toList.map FileScope.name
      = (units ++ [unit]).map (·.tree.fileName) := by
  simp [addFile, FileScope.start, names]

/-- The file that is analysed next is the one after those of the run. -/
theorem walkOf_given {cx : Context} {units : List SourceUnit}
    (names : cx.files.toList.map FileScope.name = units.map (·.tree.fileName)) (unit : SourceUnit) :
    (units ++ [unit])[(cx.walkOf unit).file.val]? = some unit := by
  have size : cx.files.size = units.length := by
    have lengths := congrArg List.length names
    simpa using lengths
  simp [walkOf, size]

theorem Precedes.names {a b : Context} (precedes : a.Precedes b) :
    b.files.toList.map FileScope.name = a.files.toList.map FileScope.name := by
  have names := congrArg (fun files => files.toList.map (·.1)) precedes.files
  simp only [Array.toList_map, List.map_map] at names
  exact names

/-- A run over these files stays within its limit of nesting. -/
structure Bounded (units : List SourceUnit) (cx : Context) : Prop where
  files : cx.files.toList.map FileScope.name = units.map (·.tree.fileName)
  nested : ∀ e ∈ cx.trail.toList, cx.IsNested units e
  /-- The records of nodes that are nested too deeply are those of the nodes refused, one for each. -/
  recorded : List.Forall₂ (Diagnostic.Refuses units cx.options.maxDepth) cx.log.nesting cx.refusals
  /-- No node is refused twice. -/
  once : cx.refusals.Nodup
  pruned : ∀ entry ∈ cx.refusals, entry ∈ cx.log.pruned

variable {units : List SourceUnit} {a b : Context}

theorem LeadsTo.mono {unit : SourceUnit} {file : FileId} {remaining : Nat} {stop : Stop}
    (leads : a.LeadsTo unit file remaining stop) (trail : a.trail.toList <+: b.trail.toList)
    (options : b.options = a.options) : b.LeadsTo unit file remaining stop := by
  rcases leads with ⟨isRoot, all⟩ | ⟨p, isIn, within⟩
  · exact .inl ⟨isRoot, by rw [all, options]⟩
  · exact .inr ⟨p, trail.subset isIn, within⟩

theorem IsNested.mono {e : Encounter} (nested : a.IsNested units e)
    (trail : a.trail.toList <+: b.trail.toList) (options : b.options = a.options) :
    b.IsNested units e := by
  obtain ⟨depth, offered, unit, kind, given, leads⟩ := nested
  exact ⟨by rw [options]; exact depth, offered, unit, kind, given, leads.mono trail options⟩

namespace Bounded

/-- What is bounded stays so if nothing but properly nested nodes come onto the trail, and none of
them is refused. -/
theorem grow (bounded : a.Bounded units) (precedes : a.Precedes b)
    (records : a.log.Extends (fun p => p.code ≠ 1019) b.log) (more : List Encounter)
    (trail : b.trail.toList = a.trail.toList ++ more)
    (nested : ∀ e ∈ more, b.IsNested units e) (passed : ∀ e ∈ more, e.offer.isNone → e.pruned) :
    b.Bounded units := by
  have refusals : b.refusals = a.refusals := by
    have none : more.filter (fun e => e.offer.isNone && !e.pruned) = [] := by
      rw [List.filter_eq_nil_iff]
      intro e isIn
      have known := passed e isIn
      cases offered : e.offer with
      | none => simp [known (by rw [offered]; rfl)]
      | some o => simp
    rw [Context.refusals, Context.refusals, trail, List.filter_append, none, List.append_nil]
  refine ⟨precedes.names.trans bounded.files, fun e isIn => ?_, ?_, ?_, fun entry refused => ?_⟩
  · rw [trail] at isIn
    rcases List.mem_append.1 isIn with before | now
    · exact (bounded.nested e before).mono (by rw [trail]; exact List.prefix_append _ _)
        precedes.options
    · exact nested e now
  · rw [records.nesting fun _ other => other, refusals, precedes.options]
    exact bounded.recorded
  · rw [refusals]
    exact bounded.once
  · rw [refusals] at refused
    exact records.pruned (bounded.pruned entry refused)

theorem course (bounded : a.Bounded units) (course : Course a b) (trail : b.trail = a.trail) :
    b.Bounded units := by
  have records := (course.records trail).mono fun p isOwn => isOwn.isLocal.code_ne.1
  refine bounded.grow course.precedes records [] ?_ ?_ ?_
  · rw [trail, List.append_nil]
  · simp
  · simp

section

variable {w : Walk} {unit : SourceUnit} (given : units[w.file.val]? = some unit)
  (isArena : w.arena = unit.tree.arena)
include given

theorem inspect (bounded : a.Bounded units) {remaining : Nat} {scope : WalkScope} {idx : NodeIndex}
    (depth : remaining + 1 ≤ a.options.maxDepth)
    (leads : a.LeadsTo unit w.file (remaining + 1) (scope.kind, idx)) (node : Node) :
    (w.inspect (remaining + 1) scope idx node a).2.Bounded units := by
  have precedes := (w.inspect_steps a (remaining + 1) scope idx node).precedes
  have trail := w.inspect_trail a (remaining + 1) scope idx node
  have records := (w.inspect_extends a (remaining + 1) scope idx node).mono
    fun p isRuled => isRuled.isLocal.code_ne.1
  refine bounded.grow precedes records [w.inspected (remaining + 1) scope idx node a] ?_ ?_ ?_
  · rw [trail, Array.toList_push]
  · intro e isIn
    obtain rfl := List.mem_singleton.1 isIn
    refine ⟨by rw [precedes.options]; exact depth, fun _ => Nat.succ_pos _, unit, scope.kind, given, ?_⟩
    exact leads.mono (by rw [trail]; simp) precedes.options
  · intro e isIn
    obtain rfl := List.mem_singleton.1 isIn
    unfold Walk.inspected Walk.encounter
    cases a.log.isPruned w.file idx <;> simp

include isArena

/-- A node that is nested too deeply is refused, unless it has been pruned before. -/
theorem refuseDepth (bounded : a.Bounded units) {kind : ScopeKind} {idx : NodeIndex} {node : Node}
    (found : w.arena.get? idx = some node) (leads : a.LeadsTo unit w.file 0 (kind, idx)) :
    (w.refuseDepth idx node a).Bounded units := by
  have precedes := (w.refuseDepth_steps a idx node).precedes
  rw [w.refuseDepth_eq] at precedes ⊢
  have come {b : Context} (trail : b.trail = a.trail.push (w.encounter idx 0 none a))
      (options : b.options = a.options) : b.IsNested units (w.encounter idx 0 none a) :=
    ⟨Nat.zero_le _, nofun, unit, kind, given, leads.mono (by simp [trail]) options⟩
  cases pruned : a.log.isPruned w.file idx with
  | true =>
    rw [pruned] at precedes
    refine bounded.grow precedes .rest [w.encounter idx 0 none a] (by simp) ?_ ?_
    · intro e isIn
      obtain rfl := List.mem_singleton.1 isIn
      exact come rfl rfl
    · intro e isIn _
      obtain rfl := List.mem_singleton.1 isIn
      exact pruned
  | false =>
    have refusals (b : Context) (trail : b.trail = a.trail.push (w.encounter idx 0 none a)) :
        b.refusals = a.refusals ++ [(w.file, idx)] := by
      simp [Context.refusals, trail, Walk.encounter, pruned]
    have notYet : (w.file, idx) ∉ a.refusals := by
      intro refused
      have isIn := bounded.pruned _ refused
      simp [ErrorLog.isPruned, isIn] at pruned
    refine ⟨bounded.files, fun e isIn => ?_, ?_, ?_, ?_⟩
    · rw [Array.toList_push, List.mem_append, List.mem_singleton] at isIn
      rcases isIn with before | now
      · exact (bounded.nested e before).mono (by simp) rfl
      · subst now
        exact come rfl rfl
    all_goals rw [refusals _ rfl]
    · -- the record made now is that of the node refused now
      simp only [Bool.false_eq_true, if_false]
      rw [ErrorLog.nesting_addPruning, fileName_of_names bounded.files given]
      refine List.rel_append bounded.recorded (.cons ⟨unit, node, given, ?_, rfl⟩ .nil)
      rw [← isArena]
      exact found
    · exact bounded.once.append (List.nodup_singleton _) (by simpa using notYet)
    · intro entry refused
      rcases List.mem_append.1 refused with before | now
      · exact List.mem_insert_of_mem (bounded.pruned entry before)
      · obtain rfl := List.mem_singleton.1 now
        exact List.mem_insert_self

/-- A tour of nodes that the walk leads to. The levels that remain go down with the visits from within
a node, and the trail holds the node then. -/
theorem tour {remaining : Nat} {stops : List Stop} (tour : w.Tour remaining stops a b)
    (bounded : a.Bounded units) (depth : remaining ≤ a.options.maxDepth)
    (leads : ∀ stop ∈ stops, a.LeadsTo unit w.file remaining stop) : b.Bounded units := by
  induction tour with
  | rest => exact bounded
  | aside course trail _ ih =>
    have options := course.precedes.options
    refine ih (bounded.course course trail) (by rw [options]; exact depth) fun stop isIn => ?_
    exact (leads stop isIn).mono course.trail options
  | absent _ _ ih => exact ih bounded depth fun stop isIn => leads stop (List.mem_cons_of_mem _ isIn)
  | @refused kind idx node stops a b found after ih =>
    have refused := bounded.refuseDepth given isArena found (leads _ List.mem_cons_self)
    have course := Course.deed (.rest a) (.refuse a w idx node)
    have options := course.precedes.options
    refine ih refused (by rw [options]; exact depth) fun stop isIn => ?_
    exact (leads stop (List.mem_cons_of_mem _ isIn)).mono course.trail options
  | @skipped remaining scope kind idx node stops a b c found isKind skips after ih =>
    subst isKind
    have inspected := bounded.inspect given depth (leads _ List.mem_cons_self) node
    have course := Course.deed (.rest a) (.inspect a w (remaining + 1) scope idx node)
    rw [skips] at inspected course
    have options := course.precedes.options
    refine ih inspected (by rw [options]; exact depth) fun stop isIn => ?_
    exact (leads stop (List.mem_cons_of_mem _ isIn)).mono course.trail options
  | @entered remaining scope kind idx node admission inner stops a b c d found isKind admits inside
      goes whole after ihInside ihAfter =>
    subst isKind
    have inspected := bounded.inspect given depth (leads _ List.mem_cons_self) node
    have course := Course.deed (.rest a) (.inspect a w (remaining + 1) scope idx node)
    have trail := w.inspect_trail a (remaining + 1) scope idx node
    have fresh := w.fresh_of_admits admits
    rw [admits] at inspected course trail
    have options := course.precedes.options
    have entered : c.Bounded units := by
      refine ihInside inspected (by rw [options]; omega) fun stop isIn => .inr ?_
      refine ⟨w.inspected (remaining + 1) scope idx node a, by rw [trail]; simp,
        w.offer scope node a, ?_, rfl, rfl, ?_⟩
      · simp [Walk.inspected, Walk.encounter, fresh]
      · rw [← isArena]
        exact goes.subset isIn
    have visited := course.trans inside.course
    have options := visited.precedes.options
    refine ihAfter entered (by rw [options]; exact depth) fun stop isIn => ?_
    exact (leads stop (List.mem_cons_of_mem _ isIn)).mono visited.trail options

end

/-! ### Files -/

/-- Whatever the table that a run starts with, there is nothing on the trail and in the log. -/
theorem withTable (table : SymbolTable) (options : Options) :
    (Context.withTable table options).Bounded [] where
  files := rfl
  nested _ isIn := absurd isIn List.not_mem_nil
  recorded := .nil
  once := List.nodup_nil
  pruned _ refused := absurd refused List.not_mem_nil

theorem addFile (bounded : a.Bounded units) (unit : SourceUnit) :
    (a.addFile unit.tree.fileName unit.level).2.Bounded (units ++ [unit]) := by
  refine ⟨?_, fun e isIn => ?_, ?_, bounded.once, bounded.pruned⟩
  · exact addFile_names bounded.files unit
  · obtain ⟨depth, offered, given, kind, is, leads⟩ := bounded.nested e isIn
    exact ⟨depth, offered, given, kind, getElem?_further is _, leads⟩
  · refine bounded.recorded.imp fun d entry refuses => ?_
    obtain ⟨given, node, is, found, record⟩ := refuses
    exact ⟨given, node, getElem?_further is _, found, record⟩

theorem analyzeFile (bounded : a.Bounded units) (unit : SourceUnit) :
    (a.analyzeFile unit).2.Bounded (units ++ [unit]) := by
  have given := walkOf_given bounded.files unit
  refine (bounded.addFile unit).tour given rfl (a.analyzeFile_tour unit) le_rfl fun stop isIn => ?_
  obtain rfl := List.mem_singleton.1 isIn
  exact .inl ⟨rfl, rfl⟩

theorem settle (bounded : a.Bounded units) : a.settle.Bounded units := by
  refine bounded.grow a.settle_settles.precedes a.settle_extends [] ?_ ?_ ?_
  · rw [a.settle_trail, List.append_nil]
  · simp
  · simp

theorem performAll (bounded : a.Bounded units) (requests : List Request) :
    (a.performAll requests).Bounded (units ++ requests.filterMap Request.unit?) := by
  induction requests generalizing a units with
  | nil => simpa [Context.performAll] using bounded
  | cons request rest ih =>
    cases request with
    | analyze unit =>
      have analyzed := ih (bounded.analyzeFile unit)
      rw [List.append_assoc] at analyzed
      exact analyzed
    | settle => exact ih bounded.settle

end Bounded

/-- A walk is bounded: it unrolls into visits that are nested one level deeper than the limit says, and
is the only solution of the recursion that counts the depth up. In a run over any files, every visit
keeps to that depth, only nodes above the limit are visited further, and a node is recorded as nested
too deeply at most once. -/
theorem performAll_bounded (options : Options) (requests : List Request) :
    (∀ (w : Walk) (limit : Nat) (beyond : Visitor),
        w.frames limit beyond (limit + 1) 0 = w.visit limit)
      ∧ (∀ (w : Walk) (limit : Nat) (visit : Nat → Visitor),
        (∀ depth, visit depth = w.frame limit depth (visit (depth + 1)))
          ↔ ∀ depth, visit depth = w.visit (limit - depth))
      ∧ ((start options).performAll requests).Bounded (requests.filterMap Request.unit?) := by
  have started : (start options).Bounded [] := .withTable .seeded options
  refine ⟨fun w limit beyond => ?_, fun w limit visit => w.visits_iff limit visit, ?_⟩
  · exact w.frames_eq_visit beyond limit (Nat.zero_add limit)
  · exact started.performAll requests

end Context

end LevelCheck
