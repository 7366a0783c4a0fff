import LevelCheck.Proofs.PreOrder
set_option autoImplicit false

/-! # The walk follows source order

A walk goes on from a node to its children, or past declarators to their initializers, in the order in
which the node lists them, and it leaves out some. So the nodes that it comes to are a part of the
listing of its root, in the order of that listing, and where the nodes form a tree it comes to no node
twice. What a policy raises about a node is recorded on coming to it, so the records of policies follow
the order of the nodes as well. -/

namespace LevelCheck

namespace Arena

variable (a : Arena)

/-! ## Where a walk goes on -/

theorem stops_sublist {α : Type} (f : NodeIndex → List α)
    (places : List (Option ScopeKind × NodeIndex)) :
    ((stops places).flatMap fun s => f s.2).Sublist ((places.map Prod.snd).flatMap f) := by
  induction places with
  | nil => exact List.Sublist.refl _
  | cons place rest ih =>
    obtain ⟨kind?, idx⟩ := place
    cases kind? with
    | none => exact ih.trans (List.sublist_append_right _ _)
    | some kind => exact (List.Sublist.refl (f idx)).append ih

/-- The initializer of a declarator is listed with it. -/
theorem initializers_sublist (depth : Nat) (declarators : List NodeIndex) :
    ((declarators.filterMap a.initializer?).flatMap (a.listing depth)).Sublist
      (declarators.flatMap (a.listing (depth + 1))) := by
  induction declarators with
  | nil => exact List.Sublist.refl _
  | cons d rest ih =>
    cases writes : a.initializer? d with
    | none =>
      rw [List.filterMap_cons_none writes]
      exact ih.trans (List.sublist_append_right _ _)
    | some init =>
      rw [List.filterMap_cons_some writes, List.flatMap_cons, List.flatMap_cons]
      refine List.Sublist.append ?_ ih
      -- only a declarator has an initializer
      have isDeclarator : a.isDeclarator d = true := by
        simp only [initializer?] at writes
        simp only [Arena.isDeclarator]
        split at writes
        · rfl
        · cases writes
      obtain ⟨node, found⟩ : ∃ node, a.get? d = some node := by
        cases found : a.get? d with
        | none => simp [initializer?, found] at writes
        | some node => exact ⟨node, rfl⟩
      obtain ⟨type, name, data⟩ := data_of_isDeclarator found isDeclarator
      rw [writes] at data
      rw [listing, found]
      simp [data, NodeData.children]

/-- The nodes that a walk goes on to from a node are listed with its children, in their order. -/
theorem onward_sublist (depth : Nat) (kind : ScopeKind) (data : NodeData) :
    ((a.onward kind data).flatMap fun s => a.listing depth s.2).Sublist
      (data.children.flatMap (a.listing (depth + 1))) := by
  have deeper (nodes : List NodeIndex) :
      (nodes.flatMap (a.listing depth)).Sublist (nodes.flatMap (a.listing (depth + 1))) :=
    List.Sublist.flatMap_right _ fun idx _ => a.listing_sublist (Nat.le_succ depth) idx
  have part {places : List (Option ScopeKind × NodeIndex)}
      (among : (places.map Prod.snd).Sublist data.children) :
      ((stops places).flatMap fun s => a.listing depth s.2).Sublist
        (data.children.flatMap (a.listing (depth + 1))) :=
    (stops_sublist (a.listing depth) places).trans ((among.flatMap _).trans (deeper _))
  cases data with
  | methodDef modifiers typeParams returnType name params throws body =>
    refine part ?_
    rw [List.map_map, show (Prod.snd ∘ fun idx => (provided (kind == .classBody) .body, idx)) = id
      from rfl, List.map_id]
    exact List.sublist_append_right _ _
  | constructorDef modifiers name params throws body =>
    exact part (List.sublist_append_right _ _)
  | variableDeclaration modifiers declarators =>
    simp only [onward]
    split
    · exact List.nil_sublist _
    · rw [List.flatMap_map]
      exact a.initializers_sublist depth declarators
  | catchBlock exception handler => exact part (List.sublist_cons_self _ _)
  | _ =>
    refine part ?_
    rw [a.placed_children]

end Arena

/-! ## What a policy has raised -/

/-- The records that a ruling about a node makes. If it prunes the node, the first of them says so. -/
def Ruling.records (ruling : Ruling) (name : String) (pos : Position) : List Diagnostic :=
  match ruling.step, ruling.raised with
  | .prune, first :: rest =>
    (Diagnostic.ofProblem name pos first).pruning :: rest.map (.ofProblem name pos)
  | _, raised => raised.map (.ofProblem name pos)

namespace Walk

variable (w : Walk)

/-- The records that the policy has made of a node on the trail, in a file of a name: none, if the node
was not offered to it. -/
def judged (name : String) (e : Encounter) : List Diagnostic :=
  match e.offer with
  | some offer => (Policy.ruling w.policy offer).records name offer.node.pos
  | none => []

theorem rulings_append {log : ErrorLog} {name : String} {pos : Position} {problems : List Problem}
    (areRuled : ∀ p ∈ problems, p.IsRuled) :
    ({ log with diagnostics := log.diagnostics
        ++ (problems.map (Diagnostic.ofProblem name pos)).toArray } : ErrorLog).rulings
      = log.rulings ++ problems.map (.ofProblem name pos) := by
  have all : (problems.map (Diagnostic.ofProblem name pos)).filter Diagnostic.isRuled
      = problems.map (.ofProblem name pos) := by
    refine List.filter_eq_self.2 fun d isIn => ?_
    obtain ⟨p, raised, rfl⟩ := List.mem_map.1 isIn
    exact (areRuled p raised).code
  simp [ErrorLog.rulings, all]

/-- An inspection records what the trail tells. -/
theorem inspect_rulings (cx : Context) (remaining : Nat) (scope : WalkScope) (idx : NodeIndex)
    (node : Node) :
    (w.inspect remaining scope idx node cx).2.log.rulings
      = cx.log.rulings ++ w.judged (cx.fileName w.file) (w.inspected remaining scope idx node cx) := by
  have areRuled := w.rulingOn_isRuled cx scope node
  unfold inspected encounter judged
  cases w.inspect_inspection cx remaining scope idx node with
  | skipped pruned is =>
    rw [is, pruned]
    exact (List.append_nil _).symm
  | @refused p rest fresh prunes raised is =>
    rw [raised] at areRuled
    have first : (Diagnostic.ofProblem (cx.fileName w.file) node.pos p).pruning.isRuled = true :=
      (areRuled p List.mem_cons_self).code
    have records : (Policy.ruling w.policy (w.offer scope node cx)).records (cx.fileName w.file)
        node.pos = (Diagnostic.ofProblem (cx.fileName w.file) node.pos p).pruning
          :: rest.map (.ofProblem (cx.fileName w.file) node.pos) := by
      rw [rulingOn] at prunes raised
      rw [Ruling.records, prunes, raised]
    have pruned : ((w.offered remaining scope idx node cx).reportPruning w.file idx node.pos p).log.rulings
        = cx.log.rulings ++ [(Diagnostic.ofProblem (cx.fileName w.file) node.pos p).pruning] := by
      simp only [ErrorLog.rulings, Context.reportPruning, ErrorLog.addPruning, Array.toList_push,
        List.filter_append]
      exact congrArg _ (List.filter_eq_self.2 (List.forall_mem_singleton.2 first))
    rw [is, fresh, reportAll_eq]
    simp only [Bool.false_eq_true, if_false]
    have others := fun q isIn => areRuled q (List.mem_cons_of_mem p isIn)
    refine (rulings_append others).trans ?_
    rw [pruned, List.append_assoc]
    exact congrArg _ records.symm
  | admitted fresh passes is =>
    have records : (Policy.ruling w.policy (w.offer scope node cx)).records (cx.fileName w.file)
        node.pos = (w.rulingOn scope node cx).raised.map (.ofProblem (cx.fileName w.file) node.pos) := by
      rw [rulingOn] at passes ⊢
      unfold Ruling.records
      split
      · next prunes _ => exact absurd prunes passes
      · rfl
    rw [is, fresh, reportAll_eq]
    simp only [Bool.false_eq_true, if_false]
    refine (rulings_append areRuled).trans ?_
    exact congrArg _ records.symm

/-- Refusing a node for its depth is no ruling of a policy. -/
theorem refuseDepth_rulings (cx : Context) (idx : NodeIndex) (node : Node) :
    (w.refuseDepth idx node cx).log.rulings = cx.log.rulings := by
  rw [w.refuseDepth_eq]
  simp only
  split
  · rfl
  · simp only [ErrorLog.rulings, ErrorLog.addPruning, Array.toList_push, List.filter_append]
    exact List.append_nil _

/-! ## Tours -/

/-- A walk has come to these nodes between two states, in the order of a listing, and the log has grown
by what the policy has raised about them. -/
structure Passes (w : Walk) (listed : List NodeIndex) (met : List Encounter) (a b : Context) :
    Prop where
  trail : b.trail.toList = a.trail.toList ++ met
  inOrder : (met.map Encounter.node).Sublist listed
  offered : ∀ e ∈ met, e.file = w.file ∧ ∀ o ∈ e.offer, w.arena.get? e.node = some o.node
  ruled : b.log.rulings = a.log.rulings ++ met.flatMap (w.judged (a.fileName w.file))

namespace Passes

variable {w} {listed more : List NodeIndex} {met later : List Encounter} {a b c : Context}

theorem mono (passes : w.Passes listed met a b) (among : listed.Sublist more) :
    w.Passes more met a b :=
  ⟨passes.trail, passes.inOrder.trans among, passes.offered, passes.ruled⟩

theorem of_quiet (trail : b.trail = a.trail) (rulings : b.log.rulings = a.log.rulings) :
    w.Passes [] [] a b where
  trail := by rw [trail, List.append_nil]
  inOrder := List.Sublist.refl _
  offered _ isIn := absurd isIn List.not_mem_nil
  ruled := by rw [rulings, List.flatMap_nil, List.append_nil]

theorem append (first : w.Passes listed met a b) (second : w.Passes more later b c)
    (name : b.fileName w.file = a.fileName w.file) :
    w.Passes (listed ++ more) (met ++ later) a c where
  trail := by rw [second.trail, first.trail, List.append_assoc]
  inOrder := by
    rw [List.map_append]
    exact first.inOrder.append second.inOrder
  offered := List.forall_mem_append.2 ⟨first.offered, second.offered⟩
  ruled := by rw [second.ruled, first.ruled, name, List.flatMap_append, List.append_assoc]

/-- Coming to a single node. -/
theorem single {idx : NodeIndex} {e : Encounter} (trail : b.trail = a.trail.push e)
    (node : e.node = idx) (file : e.file = w.file)
    (offered : ∀ o ∈ e.offer, w.arena.get? e.node = some o.node)
    (rulings : b.log.rulings = a.log.rulings ++ w.judged (a.fileName w.file) e) :
    w.Passes [idx] [e] a b where
  trail := by rw [trail, Array.toList_push]
  inOrder := by simp [node]
  offered := List.forall_mem_singleton.2 ⟨file, offered⟩
  ruled := by rw [rulings, List.flatMap_cons, List.flatMap_nil, List.append_nil]

end Passes

theorem refuseDepth_passes (idx : NodeIndex) (node : Node) (a : Context) :
    w.Passes [idx] [w.encounter idx 0 none a] a (w.refuseDepth idx node a) := by
  have trail : (w.refuseDepth idx node a).trail = a.trail.push (w.encounter idx 0 none a) := by
    rw [w.refuseDepth_eq]
  have rulings : (w.refuseDepth idx node a).log.rulings
      = a.log.rulings ++ w.judged (a.fileName w.file) (w.encounter idx 0 none a) := by
    rw [w.refuseDepth_rulings]
    exact (List.append_nil _).symm
  refine .single trail rfl rfl ?_ rulings
  intro o offered
  cases offered

theorem inspect_passes (remaining : Nat) (scope : WalkScope) {idx : NodeIndex} {node : Node}
    (found : w.arena.get? idx = some node) (a : Context) :
    w.Passes [idx] [w.inspected remaining scope idx node a] a
      (w.inspect remaining scope idx node a).2 := by
  have trail := w.inspect_trail a remaining scope idx node
  have rulings := w.inspect_rulings a remaining scope idx node
  refine .single trail rfl rfl ?_ rulings
  intro o offered
  unfold inspected encounter at offered
  split at offered
  · cases offered
  · obtain rfl := Option.some.inj offered
    exact found

/-- Listing the stops of a tour deep enough lists all that it comes to, in order. -/
theorem Tour.passes {remaining : Nat} {stops : List Stop} {a b : Context}
    (tour : w.Tour remaining stops a b) :
    ∃ met, w.Passes (stops.flatMap fun s => w.arena.listing (2 * remaining + 1) s.2) met a b := by
  induction tour with
  | rest remaining a => exact ⟨[], .of_quiet rfl rfl⟩
  | aside course trail _ ih =>
    obtain ⟨met, passes⟩ := ih
    have quiet : w.Passes [] [] _ _ := .of_quiet trail (course.records trail).rulings
    exact ⟨[] ++ met, quiet.append passes (course.precedes.fileName w.file)⟩
  | @absent remaining kind idx stops a b missing _ ih =>
    obtain ⟨met, passes⟩ := ih
    exact ⟨met, passes.mono (List.sublist_append_right _ _)⟩
  | @refused kind idx node stops a b found after ih =>
    obtain ⟨met, passes⟩ := ih
    have here := w.refuseDepth_passes idx node a
    have name := (w.refuseDepth_steps a idx node).precedes.fileName w.file
    refine ⟨_, (here.append passes name).mono ?_⟩
    simp [Arena.listing, found]
  | @skipped remaining scope kind idx node stops a b c found isKind skips after ih =>
    obtain ⟨met, passes⟩ := ih
    have here := w.inspect_passes (remaining + 1) scope found a
    have name := (w.inspect_steps a (remaining + 1) scope idx node).precedes.fileName w.file
    rw [skips] at here name
    refine ⟨_, (here.append passes name).mono ?_⟩
    rw [List.flatMap_cons, Arena.listing, found]
    exact (List.singleton_sublist.2 List.mem_cons_self).append (List.Sublist.refl _)
  | @entered remaining scope kind idx node admission inner stops a b c d found isKind admits inside
      goes whole after ihInside ihAfter =>
    obtain ⟨within, passesInside⟩ := ihInside
    obtain ⟨met, passesAfter⟩ := ihAfter
    have here := w.inspect_passes (remaining + 1) scope found a
    have name := (w.inspect_steps a (remaining + 1) scope idx node).precedes.fileName w.file
    rw [admits] at here name
    have nameInside := inside.course.precedes.fileName w.file
    have node' := here.append passesInside name
    refine ⟨_, (node'.append passesAfter (nameInside.trans name)).mono ?_⟩
    -- the nodes further inside are listed one level deeper, or two if declarators lie in between
    have below : (inner.flatMap fun s => w.arena.listing (2 * remaining + 1) s.2).Sublist
        (node.data.children.flatMap (w.arena.listing (2 * remaining + 2))) :=
      (goes.sublist.flatMap _).trans (w.arena.onward_sublist (2 * remaining + 1) kind node.data)
    rw [List.flatMap_cons, show 2 * (remaining + 1) + 1 = 2 * remaining + 2 + 1 by omega,
      Arena.listing, found]
    exact (below.cons_cons idx).append (List.Sublist.refl _)

/-- A walk from a root whose nodes form a tree comes to some of them, in the order in which they are
listed and to none of them twice. The records of the policy are those of the nodes that it was offered,
in the same order. -/
theorem visitIn_inSourceOrder (w : Walk) (cx : Context) {root : NodeIndex}
    (tree : w.arena.FormsTree root) :
    ∃ met, w.Passes (w.arena.descendants root) met cx (w.visitIn .file root cx).2
      ∧ (met.map Encounter.node).Nodup := by
  have tour := (w.visit_tours cx.options.maxDepth).tour .nested .file root
    (WalkScope.isOpenIn_file cx.table) nofun
  obtain ⟨met, passes⟩ := tour.passes
  rw [List.flatMap_cons, List.flatMap_nil, List.append_nil] at passes
  have listed := passes.mono (Arena.listing_sublist_descendants tree.acyclic _)
  exact ⟨met, listed, tree.nodup_descendants.sublist listed.inOrder⟩

/-- A walk of two fields, the initializers of which are operations on bits. -/
def bitFields : Walk where
  policy := .advanced
  file := ⟨0⟩
  arena :=
    { nodes := #[
        ⟨.nowhere, .sourceFile none [] [⟨1⟩]⟩,
        ⟨⟨1, 1⟩, .classDef [] "A" [] none [] [⟨2⟩]⟩,
        ⟨⟨2, 3⟩, .variableDeclaration [] [⟨3⟩, ⟨7⟩]⟩,
        ⟨⟨2, 7⟩, .variableDeclarator "int" "x" (some ⟨4⟩)⟩,
        ⟨⟨2, 11⟩, .binary .bitAnd ⟨5⟩ ⟨6⟩⟩,
        ⟨⟨2, 11⟩, .literal (.int 1)⟩,
        ⟨⟨2, 15⟩, .literal (.int 2)⟩,
        ⟨⟨2, 18⟩, .variableDeclarator "int" "y" (some ⟨8⟩)⟩,
        ⟨⟨2, 22⟩, .unary .bitNot ⟨9⟩⟩,
        ⟨⟨2, 23⟩, .literal (.int 3)⟩] }

/-- The walk comes from the declaration to the two initializers, and the policy prunes both. -/
theorem visitIn_inSourceOrder_bitFields :
    ((bitFields.visitIn .file ⟨0⟩ (.start .usual)).2.trail.toList.map Encounter.node
        = [⟨0⟩, ⟨1⟩, ⟨2⟩, ⟨4⟩, ⟨8⟩])
      ∧ (bitFields.visitIn .file ⟨0⟩ (.start .usual)).2.log.rulings.map Diagnostic.code = [1006, 1008]
      ∧ ∃ met, bitFields.Passes (bitFields.arena.descendants ⟨0⟩) met (.start .usual)
          (bitFields.visitIn .file ⟨0⟩ (.start .usual)).2
        ∧ (met.map Encounter.node).Nodup := by
  have tree : bitFields.arena.FormsTree ⟨0⟩ :=
    Arena.formsTree_of_closed [⟨0⟩, ⟨1⟩, ⟨2⟩, ⟨3⟩, ⟨4⟩, ⟨5⟩, ⟨6⟩, ⟨7⟩, ⟨8⟩, ⟨9⟩] (by decide) (by decide)
      (by decide) (by decide +kernel) (by decide)
  exact ⟨by decide +kernel, by decide +kernel, visitIn_inSourceOrder bitFields (.start .usual) tree⟩

end Walk

end LevelCheck
