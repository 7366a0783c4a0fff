import LevelCheck.Proofs.Records
import LevelCheck.Proofs.WalkLockstep
set_option autoImplicit false

/-! # What a run without records has covered

Of the children of a node, the walk leaves out those without a place where they lie, and makes no
record of that. For any other child that it skips there is a record. A run that has made no record has
therefore offered every node that it takes up to the policy of its file, which raised nothing. At a
restricted level no such node is an operation on bits, wherever it lies. -/

namespace LevelCheck

/-! ## Operations on bits -/

/-- The operator combines or shifts bits. -/
def BinaryOp.isBitwise : BinaryOp → Bool
  | .bitAnd | .bitOr | .bitXor | .shiftLeft | .shiftRight | .unsignedShiftRight => true
  | _ => false

/-- The assignment combines or shifts bits before it assigns. -/
def AssignOp.isBitwise : AssignOp → Bool
  | .bitAnd | .bitOr | .bitXor | .shiftLeft | .shiftRight | .unsignedShiftRight => true
  | _ => false

/-- The node is an operation on bits. -/
def NodeData.isBitwise : NodeData → Bool
  | .binary op _ _ => op.isBitwise
  | .unary op _ => op == .bitNot
  | .assignment op _ _ => op.isBitwise
  | _ => false

/-- The table of the advanced level raises something about every operation on bits, in every
scope. -/
theorem Level.Tolerates.not_bitwise {offer : Offer} (tolerates : Level.advanced.Tolerates offer) :
    offer.node.data.isBitwise = false := by
  -- the rules for operators are entered for any scope, and there is no other for their kinds
  have entered (kind : Kind) (rule : Rule) (is : offer.node.kind = kind)
      (anywhere : ∀ scope, Level.advanced.ruleFor? scope kind = some rule) :
      (rule offer).raised = [] := by
    refine tolerates rule ?_
    rw [is, anywhere]
    rfl
  cases data : offer.node.data with
  | binary op left right =>
    have raised := entered .binary Rule.noBitwiseBinary (by rw [Node.kind, data]; rfl)
      (by intro scope; cases scope <;> rfl)
    simp only [Rule.noBitwiseBinary, data] at raised
    cases op <;> first | rfl | cases raised
  | unary op operand =>
    have raised := entered .unary Rule.noBitwiseNot (by rw [Node.kind, data]; rfl)
      (by intro scope; cases scope <;> rfl)
    simp only [Rule.noBitwiseNot, data] at raised
    cases op <;> first | rfl | cases raised
  | assignment op target value =>
    have raised := entered .assignment Rule.noBitwiseAssignment (by rw [Node.kind, data]; rfl)
      (by intro scope; cases scope <;> rfl)
    simp only [Rule.noBitwiseAssignment, data] at raised
    cases op <;> first | rfl | cases raised
  | _ => rfl

/-- A restricted policy that raises nothing about a node has not been offered an operation on bits. -/
theorem Policy.not_bitwise {l : Level} (restricted : l.isRestricted = true) {offer : Offer}
    (clean : (Policy.ruling l offer).raised = []) : offer.node.data.isBitwise = false := by
  have above : Level.advanced ∈ l.andAbove := by
    cases l with
    | full => cases restricted
    | _ => decide
  exact ((raised_eq_nil_iff l.andAbove_inOrder offer).1 clean _ above).not_bitwise

/-! ## Nodes that are taken up -/

namespace Arena

variable (a : Arena)

/-- The walk takes a node up in a scope of the kind: it is the root, or has its place under a node that
the walk takes up. -/
inductive Taken (root : NodeIndex) : ScopeKind → NodeIndex → Prop where
  | root : Taken root .file root
  | child {kind inner : ScopeKind} {idx child : NodeIndex} {node : Node} (parent : Taken root kind idx)
      (found : a.get? idx = some node) (place : (some inner, child) ∈ a.placed kind node.data) :
      Taken root inner child

/-- References lead from the first node to the second, if they are not the same. -/
abbrev Within : NodeIndex → NodeIndex → Prop := Relation.ReflTransGen a.Refers

/-- The node is, or lies below, a child without a place under a node that the walk takes up. -/
def PassedOver (root idx : NodeIndex) : Prop :=
  ∃ kind parent node child, a.Taken root kind parent ∧ a.get? parent = some node
    ∧ (none, child) ∈ a.placed kind node.data ∧ a.Within child idx

/-- The walk goes on from the first node to the second. -/
def GoesOn (s t : Stop) : Prop :=
  ∃ node, a.get? s.2 = some node ∧ t ∈ a.onward s.1 node.data

/-- The walk comes to the second node from the first. -/
abbrev Reaches : Stop → Stop → Prop := Relation.ReflTransGen a.GoesOn

variable {a}

instance (a : Arena) (parent child : NodeIndex) : Decidable (a.Refers parent child) :=
  inferInstanceAs (Decidable (child ∈ a.childrenOf parent))

theorem refers_iff {parent child : NodeIndex} :
    a.Refers parent child ↔ ∃ node, a.get? parent = some node ∧ child ∈ node.data.children := by
  unfold Refers childrenOf
  cases a.get? parent <;> simp

/-- Every node of a tree is taken up or passed over. -/
theorem taken_or_passedOver {root idx : NodeIndex} (within : a.Within root idx) :
    (∃ kind, a.Taken root kind idx) ∨ a.PassedOver root idx := by
  induction within with
  | refl => exact .inl ⟨.file, .root⟩
  | @tail parent child _ refers ih =>
    rcases ih with ⟨kind, taken⟩ | ⟨kind, top, node, passed, taken, found, place, within⟩
    · obtain ⟨node, found, isChild⟩ := refers_iff.1 refers
      rw [← a.placed_children kind] at isChild
      obtain ⟨⟨inner?, child⟩, place, rfl⟩ := List.mem_map.1 isChild
      cases inner? with
      | none => exact .inr ⟨kind, parent, node, child, taken, found, place, .refl⟩
      | some inner => exact .inl ⟨inner, taken.child found place⟩
    · exact .inr ⟨kind, top, node, passed, taken, found, place, within.tail refers⟩

theorem data_of_isParameter {idx : NodeIndex} {node : Node} (found : a.get? idx = some node)
    (isParameter : a.isParameter idx = true) :
    ∃ isFinal type name, node.data = .formalParameter isFinal type name := by
  simp only [Arena.isParameter, found, Option.map_some] at isParameter
  split at isParameter
  · next is => exact ⟨_, _, _, Option.some.inj is⟩
  · cases isParameter

theorem data_of_isDeclarator {idx : NodeIndex} {node : Node} (found : a.get? idx = some node)
    (isDeclarator : a.isDeclarator idx = true) :
    ∃ type name, node.data = .variableDeclarator type name (a.initializer? idx) := by
  simp only [Arena.isDeclarator, Arena.initializer?, found, Option.map_some] at isDeclarator ⊢
  split at isDeclarator
  · next is =>
    obtain is := Option.some.inj is
    exact ⟨_, _, by rw [is]⟩
  · cases isDeclarator

theorem provided_eq_some {condition : Bool} {kind inner : ScopeKind} :
    provided condition kind = some inner ↔ condition = true ∧ kind = inner := by
  cases condition <;> simp [provided]

/-- A child that has its place is visited next, or is read with its parent: it is a parameter, or a
declarator whose initializer is visited next. -/
theorem placed_onward {kind inner : ScopeKind} {child : NodeIndex} {data : NodeData}
    (place : (some inner, child) ∈ a.placed kind data) :
    (inner, child) ∈ a.onward kind data ∨ a.isParameter child = true
      ∨ a.isDeclarator child = true
        ∧ ∀ init ∈ a.initializer? child, (inner, init) ∈ a.onward kind data := by
  cases data with
  | methodDef | constructorDef =>
    rcases List.mem_append.1 place with isParam | isBody
    · obtain ⟨p, -, is⟩ := List.mem_map.1 isParam
      obtain ⟨given, rfl⟩ := Prod.mk.inj is
      obtain ⟨condition, -⟩ := provided_eq_some.1 given
      exact .inr (.inl (Bool.and_eq_true_iff.1 condition).2)
    · exact .inl (mem_stops.2 isBody)
  | variableDeclaration modifiers declarators =>
    obtain ⟨d, isIn, is⟩ := List.mem_map.1 place
    obtain ⟨given, rfl⟩ := Prod.mk.inj is
    obtain ⟨condition, rfl⟩ := provided_eq_some.1 given
    obtain ⟨inside, isDeclarator⟩ := Bool.and_eq_true_iff.1 condition
    refine .inr (.inr ⟨isDeclarator, fun init writes => ?_⟩)
    rw [onward, if_neg (by simpa using inside)]
    exact List.mem_map.2 ⟨init, List.mem_filterMap.2 ⟨d, isIn, writes⟩, rfl⟩
  | catchBlock exception handler =>
    rcases List.mem_cons.1 place with isException | isHandler
    · obtain ⟨place, rfl⟩ := Prod.mk.inj isException
      obtain ⟨condition, -⟩ := provided_eq_some.1 place.symm
      exact .inr (.inl (Bool.and_eq_true_iff.1 condition).2)
    · exact .inl (mem_stops.2 isHandler)
  | _ => exact .inl (mem_stops.2 place)

/-- The walk comes to every node that it takes up, or reads it with its parent. -/
theorem Taken.reached {root idx : NodeIndex} {kind : ScopeKind} (taken : a.Taken root kind idx) :
    a.Reaches (.file, root) (kind, idx) ∨ a.isParameter idx = true
      ∨ a.isDeclarator idx = true
        ∧ ∀ init ∈ a.initializer? idx, a.Reaches (.file, root) (kind, init) := by
  induction taken with
  | root => exact .inl .refl
  | @child kind inner idx child node parent found place ih =>
    rcases ih with reached | isParameter | ⟨isDeclarator, reached⟩
    · rcases placed_onward place with next | isParameter | ⟨isDeclarator, next⟩
      · exact .inl (reached.tail ⟨node, found, next⟩)
      · exact .inr (.inl isParameter)
      · exact .inr (.inr ⟨isDeclarator, fun init given => reached.tail ⟨node, found, next init given⟩⟩)
    · -- parameters have no children
      obtain ⟨isFinal, type, name, data⟩ := data_of_isParameter found isParameter
      rw [data] at place
      cases place
    · -- the only child of a declarator is its initializer
      obtain ⟨type, name, data⟩ := data_of_isDeclarator found isDeclarator
      rw [data] at place
      obtain ⟨init, given, is⟩ := List.mem_map.1 place
      cases is
      exact .inl (reached _ (Option.mem_toList.1 given))

end Arena

/-! ## A clean tour -/

/-- The trail shows that a node was offered to the policy of a level in the scope that it lies in, and
that the policy raised nothing. -/
def Context.Covers (cx : Context) (l : Level) (file : FileId) (stop : Stop) (node : Node) : Prop :=
  ∃ e ∈ cx.trail.toList, ∃ o ∈ e.offer, e.file = file ∧ e.node = stop.2 ∧ o.node = node
    ∧ o.scope = stop.1 ∧ (Policy.ruling l o).raised = []

theorem Context.Covers.mono {a b : Context} {l : Level} {file : FileId} {stop : Stop} {node : Node}
    (covers : a.Covers l file stop node) (trail : a.trail.toList <+: b.trail.toList) :
    b.Covers l file stop node := by
  obtain ⟨e, isIn, offered⟩ := covers
  exact ⟨e, trail.subset isIn, offered⟩

/-- The trail covers every node that the walk comes to from a stop. -/
def Context.CoversFrom (cx : Context) (w : Walk) (s : Stop) : Prop :=
  ∀ t, w.arena.Reaches s t → ∀ node, w.arena.get? t.2 = some node →
    cx.Covers w.policy w.file t node

namespace Context.CoversFrom

variable {w : Walk} {s : Stop} {a b : Context}

theorem mono (covers : a.CoversFrom w s) (trail : a.trail.toList <+: b.trail.toList) :
    b.CoversFrom w s :=
  fun t reaches node found => (covers t reaches node found).mono trail

/-- Nothing is reached from an index that names no node. -/
theorem of_missing (missing : w.arena.get? s.2 = none) : a.CoversFrom w s := by
  intro t reaches node found
  rcases reaches.cases_head with rfl | ⟨next, ⟨node', found', -⟩, -⟩
  · rw [missing] at found
    cases found
  · rw [missing] at found'
    cases found'

theorem of_onward {node : Node} (found : w.arena.get? s.2 = some node)
    (here : a.Covers w.policy w.file s node)
    (onward : ∀ next ∈ w.arena.onward s.1 node.data, a.CoversFrom w next) : a.CoversFrom w s := by
  intro t reaches node' found'
  rcases reaches.cases_head with rfl | ⟨next, ⟨parent, isParent, goesOn⟩, reaches⟩
  · rw [found] at found'
    cases found'
    exact here
  · rw [found] at isParent
    cases isParent
    exact onward next goesOn t reaches node' found'

end Context.CoversFrom

/-- Where a log has no record, an earlier one has none either. -/
theorem ErrorLog.clean_of_prefix {log next : ErrorLog}
    (grown : log.diagnostics.toList <+: next.diagnostics.toList) (clean : next.diagnostics = #[]) :
    log.diagnostics = #[] := by
  rw [clean] at grown
  exact Array.toList_eq_nil_iff.1 (List.prefix_nil.1 grown)

namespace Walk

variable {w : Walk}

/-- Where nothing has been pruned, a node that is inspected without a record is admitted, and the policy
has raised nothing about it. -/
theorem inspect_clean {remaining : Nat} {scope : WalkScope} {idx : NodeIndex} {node : Node}
    {a b : Context} {admission? : Option Admission}
    (entry : w.inspect (remaining + 1) scope idx node a = (admission?, b))
    (fresh : a.log.pruned = []) (clean : b.log.diagnostics = #[]) :
    admission?.isSome = true ∧ b.Covers w.policy w.file (scope.kind, idx) node := by
  have inspection := w.inspect_inspection a (remaining + 1) scope idx node
  have trail := w.inspect_trail a (remaining + 1) scope idx node
  have unpruned : a.log.isPruned w.file idx = false := by simp [ErrorLog.isPruned, fresh]
  rw [entry] at inspection trail
  cases inspection with
  | skipped pruned is =>
    rw [unpruned] at pruned
    cases pruned
  | refused _ _ _ is =>
    obtain ⟨-, rfl⟩ := Prod.mk.inj is
    rw [reportAll_eq] at clean
    simp [Context.reportPruning, ErrorLog.addPruning] at clean
  | admitted _ _ is =>
    obtain ⟨rfl, rfl⟩ := Prod.mk.inj is
    have raised : (w.rulingOn scope node a).raised = [] := by
      rw [reportAll_eq] at clean
      simpa using (Array.append_eq_empty_iff.1 clean).2
    refine ⟨rfl, w.inspected (remaining + 1) scope idx node a, by rw [trail]; simp,
      w.offer scope node a, ?_, rfl, rfl, rfl, rfl, raised⟩
    simp [inspected, encounter, unpruned]

/-- Refusing a node for its depth makes a record, unless it had been pruned before. -/
theorem refuseDepth_not_clean {idx : NodeIndex} {node : Node} {a : Context}
    (fresh : a.log.pruned = []) : (w.refuseDepth idx node a).log.diagnostics ≠ #[] := by
  rw [refuseDepth_eq]
  simp [ErrorLog.isPruned, fresh, ErrorLog.addPruning]

/-- A tour without records comes to every node that its stops lead to. -/
theorem Tour.covers {remaining : Nat} {stops : List Stop} {a b : Context}
    (tour : w.Tour remaining stops a b) (fresh : a.log.pruned = [])
    (clean : b.log.diagnostics = #[]) :
    b.log.pruned = [] ∧ ∀ s ∈ stops, b.CoversFrom w s := by
  have earlier {c d : Context} (course : Course c d) :=
    ErrorLog.clean_of_prefix course.precedes.log
  induction tour with
  | rest => exact ⟨fresh, nofun⟩
  | aside course trail after ih =>
    have same := (course.records trail).eq_of_clean (earlier after.course clean)
    exact ih (by rw [same]; exact fresh) clean
  | absent missing after ih =>
    obtain ⟨unpruned, later⟩ := ih fresh clean
    exact ⟨unpruned, List.forall_mem_cons.2 ⟨.of_missing missing, later⟩⟩
  | refused found after ih =>
    exact absurd (earlier after.course clean) (refuseDepth_not_clean fresh)
  | skipped found isKind skips after ih =>
    have admitted := (inspect_clean skips fresh (earlier after.course clean)).1
    cases admitted
  | @entered remaining scope kind idx node admission inner stops a b c d found isKind admits inside
      goes whole after ihInside ihAfter =>
    subst isKind
    have cleanInside := earlier after.course clean
    have cleanEntry := earlier inside.course cleanInside
    obtain ⟨-, here⟩ := inspect_clean admits fresh cleanEntry
    have inspected := w.inspect_extends a (remaining + 1) scope idx node
    rw [admits] at inspected
    have same := inspected.eq_of_clean cleanEntry
    obtain ⟨unpruned, within⟩ := ihInside (by rw [same]; exact fresh) cleanInside
    -- nothing has been pruned, so the walk goes on to all that it may go on to
    rw [whole (by simp [ErrorLog.isPruned, unpruned])] at within
    obtain ⟨unpruned', later⟩ := ihAfter unpruned clean
    refine ⟨unpruned', List.forall_mem_cons.2 ⟨?_, later⟩⟩
    have covers := here.mono (inside.course.trans after.course).trail
    exact .of_onward found covers fun next goesOn => (within next goesOn).mono after.course.trail

end Walk

/-! ## Clean runs -/

namespace Context

/-- A run over these files has pruned nothing and has come to every node that their roots lead to. -/
structure Covering (units : List SourceUnit) (cx : Context) : Prop where
  files : cx.files.size = units.length
  pruned : cx.log.pruned = []
  covers : ∀ {j : Nat} {unit : SourceUnit}, units[j]? = some unit →
    cx.CoversFrom { arena := unit.tree.arena, policy := unit.level, file := ⟨j⟩ }
      (.file, unit.tree.root)

namespace Covering

variable {units : List SourceUnit} {cx : Context}

/-- Whatever the table that a run starts with, no file has been analysed. -/
theorem withTable (table : SymbolTable) (options : Options) :
    (Context.withTable table options).Covering [] :=
  ⟨rfl, rfl, nofun⟩

theorem analyzeFile (covering : cx.Covering units) {unit : SourceUnit}
    (clean : (cx.analyzeFile unit).2.log.diagnostics = #[]) :
    (cx.analyzeFile unit).2.Covering (units ++ [unit]) := by
  have tour := cx.analyzeFile_tour unit
  have run := cx.analyzeFile_run unit
  obtain ⟨unpruned, covers⟩ := tour.covers covering.pruned clean
  refine ⟨?_, unpruned, fun {j given} isGiven => ?_⟩
  · rw [run.precedes.files_size]
    simp [addFile, covering.files]
  · by_cases earlier : j < units.length
    · rw [List.getElem?_append_left earlier] at isGiven
      exact (covering.covers isGiven).mono tour.course.trail
    · have isLast : j = cx.files.size := by
        have within := (List.getElem?_eq_some_iff.1 isGiven).1
        rw [List.length_append, List.length_singleton] at within
        rw [covering.files]
        omega
      subst isLast
      rw [covering.files, List.getElem?_concat_length] at isGiven
      cases isGiven
      exact covers _ (List.mem_singleton.2 rfl)

theorem analyzeFiles (covering : cx.Covering units) (more : List SourceUnit)
    (clean : (cx.analyzeFiles more).log.diagnostics = #[]) :
    (cx.analyzeFiles more).Covering (units ++ more) := by
  induction more generalizing cx units with
  | nil =>
    rw [List.append_nil]
    exact covering
  | cons unit rest ih =>
    have first := ErrorLog.clean_of_prefix ((cx.analyzeFile unit).2.analyzeFiles_log rest) clean
    have whole := ih (covering.analyzeFile first) clean
    rw [List.append_assoc] at whole
    exact whole

theorem settle (covering : cx.Covering units) (clean : cx.settle.log.diagnostics = #[]) :
    cx.settle.Covering units where
  files := by rw [cx.settle_settles.precedes.files_size, covering.files]
  pruned := by rw [cx.settle_extends.eq_of_clean clean, covering.pruned]
  covers given := (covering.covers given).mono (by rw [cx.settle_trail])

/-- A node that the walk takes up is offered to the policy, or read with its parent. -/
theorem taken (covering : cx.Covering units) {j : Nat} {unit : SourceUnit}
    (given : units[j]? = some unit) {kind : ScopeKind} {idx : NodeIndex} {node : Node}
    (taken : unit.tree.arena.Taken unit.tree.root kind idx)
    (found : unit.tree.arena.get? idx = some node) :
    unit.tree.arena.isParameter idx = true ∨ unit.tree.arena.isDeclarator idx = true
      ∨ cx.Covers unit.level ⟨j⟩ (kind, idx) node := by
  rcases taken.reached with reached | isParameter | ⟨isDeclarator, -⟩
  · exact .inr (.inr (covering.covers given _ reached node found))
  · exact .inl isParameter
  · exact .inr (.inl isDeclarator)

theorem not_bitwise (covering : cx.Covering units) {j : Nat} {unit : SourceUnit}
    (given : units[j]? = some unit) (restricted : unit.level.isRestricted = true)
    {kind : ScopeKind} {idx : NodeIndex} {node : Node}
    (taken : unit.tree.arena.Taken unit.tree.root kind idx)
    (found : unit.tree.arena.get? idx = some node) : node.data.isBitwise = false := by
  rcases covering.taken given taken found with isParameter | isDeclarator | covers
  · obtain ⟨isFinal, type, name, data⟩ := Arena.data_of_isParameter found isParameter
    rw [data]
    rfl
  · obtain ⟨type, name, data⟩ := Arena.data_of_isDeclarator found isDeclarator
    rw [data]
    rfl
  · obtain ⟨e, -, o, -, -, -, rfl, -, clean⟩ := covers
    exact Policy.not_bitwise restricted clean

end Covering

/-- If a batch is analysed without any record, every node below the root of a file is taken up by the
walk, or lies below a child that has no place where it lies. A node that is taken up has been offered
to the policy of the file in its scope, which raised nothing, unless it is a parameter or a declarator
and read with its parent; and if the level of the file is restricted, it is no operation on bits. -/
theorem ofUnits_covering (units : List SourceUnit) (options : Options)
    (clean : (ofUnits units options).log.diagnostics = #[]) {j : Nat} {unit : SourceUnit}
    (given : units[j]? = some unit) :
    (∀ idx, unit.tree.arena.Within unit.tree.root idx →
        (∃ kind, unit.tree.arena.Taken unit.tree.root kind idx)
          ∨ unit.tree.arena.PassedOver unit.tree.root idx)
      ∧ ∀ kind idx node, unit.tree.arena.Taken unit.tree.root kind idx →
        unit.tree.arena.get? idx = some node →
          (unit.tree.arena.isParameter idx = true ∨ unit.tree.arena.isDeclarator idx = true
            ∨ (ofUnits units options).Covers unit.level ⟨j⟩ (kind, idx) node)
          ∧ (unit.level.isRestricted = true → node.data.isBitwise = false) := by
  have started : (start options).Covering [] := .withTable .seeded options
  have before := ErrorLog.clean_of_prefix
    ((start options).analyzeFiles units).settle_settles.precedes.log clean
  have covering : (ofUnits units options).Covering units :=
    (started.analyzeFiles units before).settle clean
  refine ⟨fun idx within => Arena.taken_or_passedOver within, fun kind idx node taken found => ?_⟩
  exact ⟨covering.taken given taken found,
    fun restricted => covering.not_bitwise given restricted taken found⟩

/-- A file with a class that has a field, the initializer of which adds, and with a declaration outside
of the class, the initializer of which combines bits. -/
def strayBits : SourceUnit where
  level := .advanced
  tree :=
    { fileName := "A.dj2", root := ⟨0⟩
      arena :=
        { nodes := #[
            ⟨.nowhere, .sourceFile none [] [⟨1⟩, ⟨7⟩]⟩,
            ⟨⟨1, 1⟩, .classDef [] "A" [] none [] [⟨2⟩]⟩,
            ⟨⟨2, 3⟩, .variableDeclaration [] [⟨3⟩]⟩,
            ⟨⟨2, 7⟩, .variableDeclarator "int" "x" (some ⟨4⟩)⟩,
            ⟨⟨2, 11⟩, .binary .add ⟨5⟩ ⟨6⟩⟩,
            ⟨⟨2, 11⟩, .literal (.int 1)⟩,
            ⟨⟨2, 15⟩, .literal (.int 2)⟩,
            ⟨⟨4, 1⟩, .variableDeclaration [] [⟨8⟩]⟩,
            ⟨⟨4, 5⟩, .variableDeclarator "int" "y" (some ⟨9⟩)⟩,
            ⟨⟨4, 9⟩, .binary .bitAnd ⟨10⟩ ⟨11⟩⟩,
            ⟨⟨4, 9⟩, .literal (.int 1)⟩,
            ⟨⟨4, 13⟩, .literal (.int 2)⟩] } }

theorem strayBits_clean : (ofUnits [strayBits] .usual).log.diagnostics = #[] := by decide +kernel

/-- The addition has been offered to the policy, in the class. -/
theorem ofUnits_covering_field :
    (ofUnits [strayBits] .usual).log.diagnostics = #[]
      ∧ (ofUnits [strayBits] .usual).Covers .advanced ⟨0⟩ (.classBody, ⟨4⟩)
        ⟨⟨2, 11⟩, .binary .add ⟨5⟩ ⟨6⟩⟩ := by
  have type : strayBits.tree.arena.Taken ⟨0⟩ .file ⟨1⟩ := .child .root rfl (by decide)
  have field : strayBits.tree.arena.Taken ⟨0⟩ .classBody ⟨2⟩ := .child type rfl (by decide)
  have declarator : strayBits.tree.arena.Taken ⟨0⟩ .classBody ⟨3⟩ := .child field rfl (by decide)
  have addition : strayBits.tree.arena.Taken ⟨0⟩ .classBody ⟨4⟩ := .child declarator rfl (by decide)
  have covering := (ofUnits_covering [strayBits] .usual strayBits_clean
    (show [strayBits][0]? = some strayBits from rfl)).2
  rcases (covering .classBody ⟨4⟩ _ addition rfl).1 with isParameter | isDeclarator | covers
  · exact absurd isParameter (by decide)
  · exact absurd isDeclarator (by decide)
  · exact ⟨strayBits_clean, covers⟩

/-- Not every node below the root of a restricted file that is clean is free of operations on bits:
the walk passes over the declaration outside of the class. -/
theorem not_clean_sound : ¬ ∀ units options, (ofUnits units options).log.diagnostics = #[] →
    ∀ unit ∈ units, unit.level.isRestricted = true → ∀ idx node,
      unit.tree.arena.Within unit.tree.root idx → unit.tree.arena.get? idx = some node →
        node.data.isBitwise = false := by
  intro sound
  have declaration : strayBits.tree.arena.Within ⟨0⟩ ⟨7⟩ := .single (by decide)
  have declarator : strayBits.tree.arena.Within ⟨0⟩ ⟨8⟩ := declaration.tail (by decide)
  have within : strayBits.tree.arena.Within ⟨0⟩ ⟨9⟩ := declarator.tail (by decide)
  have free := sound [strayBits] .usual strayBits_clean strayBits (List.mem_singleton.2 rfl) rfl
    ⟨9⟩ _ within rfl
  cases free

end Context

end LevelCheck
