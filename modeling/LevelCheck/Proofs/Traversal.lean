import LevelCheck.Proofs.PreOrder
import LevelCheck.Syntax.Builder
set_option autoImplicit false

/-! # The loop that lists nodes

The pre-order of a node is the node followed by the pre-orders of its children. Where no node comes
back to itself this ends, and the loop over a stack ends with the same list. Trees that are built out of
nodes that were built before are of that kind: an index is handed out when its node joins the arena, so
each node refers to earlier ones only. -/

namespace LevelCheck

namespace Arena

variable {a : Arena}

/-! ## Pre-order -/

/-- The listing of a row of nodes in pre-order: of each the node itself, then the listing of its
children. Indices that name no node are left out. -/
inductive PreOrder (a : Arena) : List NodeIndex → List NodeIndex → Prop where
  | nil : PreOrder a [] []
  | missing {idx : NodeIndex} {rest after : List NodeIndex} (missing : a.get? idx = none)
      (others : PreOrder a rest after) : PreOrder a (idx :: rest) after
  | node {idx : NodeIndex} {node : Node} {rest below after : List NodeIndex}
      (found : a.get? idx = some node) (children : PreOrder a node.data.children below)
      (others : PreOrder a rest after) : PreOrder a (idx :: rest) (idx :: (below ++ after))

/-- A row of nodes has one listing only. -/
theorem PreOrder.unique {nodes first second : List NodeIndex} (listing : a.PreOrder nodes first)
    (other : a.PreOrder nodes second) : first = second := by
  induction listing generalizing second with
  | nil =>
    cases other
    rfl
  | missing missing _ ih =>
    cases other with
    | missing _ others => exact ih others
    | node found =>
      rw [missing] at found
      cases found
  | node found _ _ ihBelow ihAfter =>
    cases other with
    | missing missing =>
      rw [missing] at found
      cases found
    | node found' children others =>
      rw [found] at found'
      cases found'
      rw [ihBelow children, ihAfter others]

/-- The listings of single nodes, one after the other, are the listing of them all. -/
theorem PreOrder.flatMap {list : NodeIndex → List NodeIndex} {nodes : List NodeIndex}
    (each : ∀ idx ∈ nodes, a.PreOrder [idx] (list idx)) : a.PreOrder nodes (nodes.flatMap list) := by
  induction nodes with
  | nil => exact .nil
  | cons idx nodes ih =>
    obtain ⟨first, others⟩ := List.forall_mem_cons.1 each
    rw [List.flatMap_cons]
    generalize list idx = listed at first
    cases first with
    | missing missing none =>
      cases none
      exact .missing missing (ih others)
    | node found children none =>
      cases none
      rw [List.append_nil]
      exact .node found children (ih others)

theorem descendants_of_missing {idx : NodeIndex} (missing : a.get? idx = none) :
    a.descendants idx = [] := by
  rw [descendants_eq_listing]
  cases a.size with
  | zero => rfl
  | succ depth => rw [listing, missing]

theorem descendants_of_found {idx : NodeIndex} {node : Node} (acyclic : a.AcyclicFrom idx)
    (found : a.get? idx = some node) :
    a.descendants idx = idx :: node.data.children.flatMap a.descendants := by
  rw [← listing_eq_descendants acyclic (Nat.le_succ a.size), listing, found]
  refine congrArg (idx :: ·) (List.flatMap_congr fun child isChild => ?_)
  exact listing_eq_descendants (acyclic.child (refers_iff.2 ⟨node, found, isChild⟩)) le_rfl

/-- The descendants of a node are its pre-order. -/
theorem preOrder_descendants {root : NodeIndex} (acyclic : a.AcyclicFrom root) :
    a.PreOrder [root] (a.descendants root) := by
  -- a child has fewer descendants than its parent
  induction count : (a.descendants root).length using Nat.strongRecOn generalizing root with
  | ind count ih =>
    subst count
    cases found : a.get? root with
    | none =>
      rw [descendants_of_missing found]
      exact .missing found .nil
    | some node =>
      have unfolded := descendants_of_found acyclic found
      have children : a.PreOrder node.data.children (node.data.children.flatMap a.descendants) := by
        refine .flatMap fun child isChild => ?_
        have within := (List.singleton_sublist.2 isChild).flatMap a.descendants
        rw [List.flatMap_singleton] at within
        have fewer : (a.descendants child).length < (a.descendants root).length := by
          rw [unfolded, List.length_cons]
          exact Nat.lt_succ_of_le within.length_le
        exact ih _ fewer (acyclic.child (refers_iff.2 ⟨node, found, isChild⟩)) rfl
      rw [unfolded, ← List.append_nil (List.flatMap _ _)]
      exact .node found children .nil

/-! ## Turns of the loop -/

theorem turn_missing {idx : NodeIndex} (missing : a.get? idx = none) (stack listed : List NodeIndex) :
    a.turn { stack := idx :: stack, listed } = { stack, listed } := by
  simp only [turn, missing]

/-- The children of a node take its place on the stack, the first one on top. -/
theorem turn_found {idx : NodeIndex} {node : Node} (found : a.get? idx = some node)
    (stack listed : List NodeIndex) :
    a.turn { stack := idx :: stack, listed }
      = { stack := node.data.children ++ stack, listed := listed ++ [idx] } := by
  simp only [turn, found, List.foldl_flip_cons_eq_append, List.map_id', List.reverse_reverse]

/-- Nodes on top of a stack are listed with all that lies below them before the loop comes to the rest
of the stack. -/
theorem PreOrder.iterate_turn {nodes below : List NodeIndex} (listing : a.PreOrder nodes below)
    (stack listed : List NodeIndex) : ∃ turns,
      a.turn^[turns] { stack := nodes ++ stack, listed } = { stack, listed := listed ++ below } := by
  induction listing generalizing stack listed with
  | nil => exact ⟨0, by simp⟩
  | missing missing _ ih =>
    obtain ⟨turns, ends⟩ := ih stack listed
    refine ⟨turns + 1, ?_⟩
    rw [Function.iterate_succ_apply, List.cons_append, turn_missing missing, ends]
  | @node idx node rest below after found _ _ ihBelow ihAfter =>
    obtain ⟨first, atOthers⟩ := ihBelow (rest ++ stack) (listed ++ [idx])
    obtain ⟨second, ends⟩ := ihAfter stack (listed ++ [idx] ++ below)
    refine ⟨second + first + 1, ?_⟩
    rw [Function.iterate_succ_apply, List.cons_append, turn_found found, Function.iterate_add_apply,
      atOthers, ends]
    simp

/-! ## References to earlier nodes -/

/-- Every reference leads to a node, and to an earlier one. -/
def LooksBack (a : Arena) : Prop :=
  ∀ parent child, a.Refers parent child → child.val < parent.val ∧ (a.get? child).isSome

theorem LooksBack.below {top idx : NodeIndex} (looksBack : a.LooksBack) (below : a.Below top idx) :
    idx.val < top.val ∧ (a.get? idx).isSome := by
  induction below with
  | child refers => exact looksBack _ _ refers
  | step _ refers ih =>
    obtain ⟨less, exists'⟩ := looksBack _ _ refers
    exact ⟨UInt32.lt_trans less ih.1, exists'⟩

theorem LooksBack.acyclicFrom (looksBack : a.LooksBack) (root : NodeIndex) : a.AcyclicFrom root :=
  acyclicFrom_iff.2 fun _ _ below => UInt32.lt_irrefl _ (looksBack.below below).1

/-- Each node has its place behind those of its children. -/
def IsOrdered (a : Arena) : Prop :=
  ∀ (place : Nat) (node : Node), a.nodes[place]? = some node →
    ∀ child ∈ node.data.children, child.val.toNat < place

theorem IsOrdered.looksBack (ordered : a.IsOrdered) : a.LooksBack := by
  intro parent child refers
  obtain ⟨node, found, isChild⟩ := refers_iff.1 refers
  rw [get?] at found
  split at found
  · cases found
  have before := ordered _ node found child isChild
  have less : child.val < parent.val := UInt32.lt_iff_toNat_lt.2 before
  -- the index that names no node is the greatest
  have isIndex : child ≠ .absent := by
    rintro rfl
    have greatest := parent.val.toNat_lt
    rw [NodeIndex.absent] at before
    simp at before
    omega
  have inside := (Array.getElem?_eq_some_iff.1 found).1
  refine ⟨less, ?_⟩
  rw [get?, if_neg isIndex, Array.getElem?_eq_getElem (Nat.lt_trans before inside)]
  rfl

end Arena

/-! ## Trees that are built -/

namespace Builder

/-- The constructions of a builder, with the nodes that each is given. -/
inductive IsConstruction : List NodeIndex → Step NodeIndex → Prop where
  | node (data : NodeData) : IsConstruction data.children (node data)
  | sourceFile (package : Option String) (imports : List String) (types : List NodeIndex) :
      IsConstruction types (sourceFile package imports types)
  | classDef (modifiers : List Modifier) (name : String) (superclass : Option String)
      (interfaces : List String) (members : List NodeIndex) :
      IsConstruction members (classDef modifiers name superclass interfaces members)
  | interfaceDef (modifiers : List Modifier) (name : String) (parents : List String)
      (members : List NodeIndex) :
      IsConstruction members (interfaceDef modifiers name parents members)
  | methodDef (modifiers : List Modifier) (returnType name : String) (params : List NodeIndex)
      (throws : List String) (body : Option NodeIndex) :
      IsConstruction (params ++ body.toList) (methodDef modifiers returnType name params throws body)
  | constructorDef (modifiers : List Modifier) (name : String) (params : List NodeIndex)
      (body : NodeIndex) :
      IsConstruction (params ++ [body]) (constructorDef modifiers name params body)
  | param (type name : String) : IsConstruction [] (param type name)
  | declarator (type name : String) (initializer : Option NodeIndex) :
      IsConstruction initializer.toList (declarator type name initializer)
  | variableDeclaration (modifiers : List Modifier) (declarators : List NodeIndex) :
      IsConstruction declarators (variableDeclaration modifiers declarators)
  | localVariable (type name : String) : IsConstruction [] (localVariable type name)
  | block (statements : List NodeIndex) : IsConstruction statements (block statements)
  | instanceInitializer (body : NodeIndex) : IsConstruction [body] (instanceInitializer body)
  | tryCatch (tryBlock : NodeIndex) (catches : List NodeIndex) (finallyBlock : Option NodeIndex) :
      IsConstruction (tryBlock :: (catches ++ finallyBlock.toList))
        (tryCatch tryBlock catches finallyBlock)
  | catchBlock (exception handler : NodeIndex) :
      IsConstruction [exception, handler] (catchBlock exception handler)
  | expressionStatement (expression : NodeIndex) :
      IsConstruction [expression] (expressionStatement expression)
  | returnStatement (value : Option NodeIndex) :
      IsConstruction value.toList (returnStatement value)
  | ifStatement (condition thenBranch : NodeIndex) (elseBranch : Option NodeIndex) :
      IsConstruction (condition :: thenBranch :: elseBranch.toList)
        (ifStatement condition thenBranch elseBranch)
  | whileStatement (condition body : NodeIndex) :
      IsConstruction [condition, body] (whileStatement condition body)
  | forStatement (init : List NodeIndex) (condition : Option NodeIndex) (update : List NodeIndex)
      (body : NodeIndex) :
      IsConstruction (init ++ condition.toList ++ update ++ [body])
        (forStatement init condition update body)
  | binary (op : BinaryOp) (left right : NodeIndex) :
      IsConstruction [left, right] (binary op left right)
  | unary (op : UnaryOp) (operand : NodeIndex) : IsConstruction [operand] (unary op operand)
  | assignment (op : AssignOp) (target value : NodeIndex) :
      IsConstruction [target, value] (assignment op target value)
  | int (value : Int64) : IsConstruction [] (int value)
  | string (value : String) : IsConstruction [] (string value)
  | name (name : String) : IsConstruction [] (Builder.name name)
  | fieldAccess (receiver : NodeIndex) (name : String) :
      IsConstruction [receiver] (fieldAccess receiver name)
  | call (receiver : Option NodeIndex) (name : String) (arguments : List NodeIndex) :
      IsConstruction (receiver.toList ++ arguments) (call receiver name arguments)
  | thisReference : IsConstruction [] thisReference
  | qualifiedThis (qualifier : NodeIndex) : IsConstruction [qualifier] (qualifiedThis qualifier)
  | newInstance (type : String) (arguments : List NodeIndex) :
      IsConstruction arguments (newInstance type arguments)
  | anonymousClass (type : String) (arguments members : List NodeIndex) :
      IsConstruction (arguments ++ members) (anonymousClass type arguments members)
  | cast (type : String) (expression : NodeIndex) :
      IsConstruction [expression] (cast type expression)

/-- A builder that was given, as nodes, only what it had returned before, and the indices that it has
returned, the latest first. -/
inductive Built (fileName : String) : List NodeIndex → Builder → Prop where
  | start : Built fileName [] (start fileName)
  | place {returned : List NodeIndex} {b : Builder} (line column : UInt32)
      (built : Built fileName returned b) : Built fileName returned ((place line column).run b).2
  | construct {returned nodes : List NodeIndex} {b : Builder} {step : Step NodeIndex}
      (built : Built fileName returned b) (construction : IsConstruction nodes step)
      (known : nodes ⊆ returned) : Built fileName ((step.run b).1 :: returned) (step.run b).2

/-- A construction adds one node with the nodes it is given as children, unless it is that of a local
variable, which adds its declaration as well. -/
theorem IsConstruction.eq_node {nodes : List NodeIndex} {step : Step NodeIndex}
    (construction : IsConstruction nodes step) :
    (∃ data, step = Builder.node data ∧ data.children = nodes)
      ∨ ∃ type name, step = Builder.localVariable type name := by
  cases construction with
  | localVariable type name => exact .inr ⟨type, name, rfl⟩
  | _ => exact .inl ⟨_, rfl, rfl⟩

/-- The indices lie within the arena, in which each node has its place behind those of its children. -/
structure Holds (b : Builder) (indices : List NodeIndex) : Prop where
  ordered : b.arena.IsOrdered
  within : ∀ idx ∈ indices, idx.val.toNat < b.arena.size

variable {b : Builder} {indices : List NodeIndex}

/-- A new node joins the arena at its end. -/
theorem run_node (data : NodeData) (b : Builder) : ∃ pos,
    ((node data).run b).1 = (b.arena.add pos data).1
      ∧ ((node data).run b).2.arena = (b.arena.add pos data).2 := by
  cases pinned : b.pinned with
  | some pos => exact ⟨pos, by simp [node, StateT.run, pinned]⟩
  | none => exact ⟨⟨b.nextLine, 1⟩, by simp [node, StateT.run, pinned]⟩

theorem Holds.node (holds : b.Holds indices) (data : NodeData) (known : data.children ⊆ indices) :
    ((node data).run b).2.Holds (((node data).run b).1 :: indices) := by
  obtain ⟨pos, returned, arena⟩ := run_node data b
  have size : ((Builder.node data).run b).2.arena.size = b.arena.size + 1 := by
    rw [arena, Arena.add, Arena.size, Array.size_push]
    rfl
  refine ⟨fun place n found => ?_, List.forall_mem_cons.2 ⟨?_, fun idx isIn => ?_⟩⟩
  · rw [arena, Arena.add, Array.getElem?_push] at found
    split at found
    · next isLast =>
      cases found
      subst isLast
      exact fun child isChild => holds.within child (known isChild)
    · exact holds.ordered place n found
  · -- beyond the greatest index, indices start again
    rw [returned, size]
    exact Nat.lt_succ_of_le (Nat.mod_le _ _)
  · rw [size]
    exact Nat.lt_succ_of_lt (holds.within idx isIn)

theorem Holds.construct (holds : b.Holds indices) {nodes : List NodeIndex} {step : Step NodeIndex}
    (construction : IsConstruction nodes step) (known : nodes ⊆ indices) :
    (step.run b).2.Holds ((step.run b).1 :: indices) := by
  obtain ⟨data, rfl, rfl⟩ | ⟨type, name, rfl⟩ := construction.eq_node
  · exact holds.node data known
  · have single := holds.node (.variableDeclarator type name none) (List.nil_subset _)
    have declared := single.node (.variableDeclaration [] [_])
      (List.cons_subset.2 ⟨List.mem_cons_self, List.nil_subset _⟩)
    refine ⟨declared.ordered, fun idx isIn => declared.within idx ?_⟩
    exact List.cons_subset_cons _ (List.subset_cons_self _ _) isIn

theorem Built.holds {fileName : String} (built : Built fileName indices b) : b.Holds indices := by
  induction built with
  | start => exact ⟨fun place n found => by simp [Builder.start, Arena.empty] at found, nofun⟩
  | place line column _ ih => exact ⟨ih.ordered, ih.within⟩
  | construct _ construction known ih => exact ih.construct construction known

end Builder

/-! ## Descendants -/

/-- From a root from which no node can be reached that comes back to itself, the loop ends, with the
pre-order of the root as what it has listed. In an arena that was built, from nodes returned before, all
references lead to earlier nodes, so that every root is one. -/
theorem Arena.descendants_preOrder :
    (∀ (a : Arena) (root : NodeIndex), a.AcyclicFrom root →
      (∃ turns, a.turn^[turns] (.start root) = { stack := [], listed := a.descendants root })
        ∧ ∀ listed, a.PreOrder [root] listed ↔ listed = a.descendants root)
    ∧ ∀ (fileName : String) (returned : List NodeIndex) (b : Builder),
      Builder.Built fileName returned b →
        (∀ parent child, b.arena.Refers parent child → child.val < parent.val)
          ∧ ∀ root, b.arena.AcyclicFrom root
            ∧ ∀ idx, b.arena.Below root idx → (b.arena.get? idx).isSome := by
  refine ⟨fun a root acyclic => ?_, fun fileName returned b built => ?_⟩
  · have listing := preOrder_descendants acyclic
    obtain ⟨turns, ends⟩ := listing.iterate_turn [] []
    exact ⟨⟨turns, ends⟩, fun listed => ⟨fun other => other.unique listing, fun is => is ▸ listing⟩⟩
  · have looksBack : b.arena.LooksBack := built.holds.ordered.looksBack
    exact ⟨fun parent child refers => (looksBack parent child refers).1,
      fun root => ⟨looksBack.acyclicFrom root, fun idx below => (looksBack.below below).2⟩⟩

/-- A statement that stands twice in a block, next to an index of no node, is listed twice; and a name
may be built into two operands of one operation. -/
theorem Arena.descendants_preOrder_shared :
    let a : Arena := { nodes := #[⟨.nowhere, .block [⟨1⟩, ⟨9⟩, ⟨1⟩]⟩,
      ⟨.nowhere, .expressionStatement ⟨2⟩⟩, ⟨.nowhere, .nameReference "x"⟩] }
    let b := ((Builder.binary .add ⟨0⟩ ⟨0⟩).run ((Builder.name "x").run (.start "A.java")).2).2
    a.AcyclicFrom ⟨0⟩
      ∧ (∃ turns, a.turn^[turns] (.start ⟨0⟩)
        = { stack := [], listed := [⟨0⟩, ⟨1⟩, ⟨2⟩, ⟨1⟩, ⟨2⟩] })
      ∧ Builder.Built "A.java" [⟨1⟩, ⟨0⟩] b
      ∧ b.arena.AcyclicFrom ⟨1⟩ ∧ ∀ idx, b.arena.Below ⟨1⟩ idx → (b.arena.get? idx).isSome := by
  intro a b
  have acyclic : a.AcyclicFrom ⟨0⟩ :=
    acyclicFrom_of_later [⟨0⟩, ⟨1⟩, ⟨2⟩, ⟨9⟩] (by decide) (by decide) (by decide)
  have listed : a.descendants ⟨0⟩ = [⟨0⟩, ⟨1⟩, ⟨2⟩, ⟨1⟩, ⟨2⟩] := by
    rw [descendants_eq_listing]
    decide
  have built : Builder.Built "A.java" [⟨1⟩, ⟨0⟩] b :=
    .construct (.construct .start (.name "x") (List.nil_subset _)) (.binary .add ⟨0⟩ ⟨0⟩) (by decide)
  refine ⟨acyclic, ?_, built, (descendants_preOrder.2 _ _ b built).2 ⟨1⟩⟩
  rw [← listed]
  exact (descendants_preOrder.1 a ⟨0⟩ acyclic).1

end LevelCheck
