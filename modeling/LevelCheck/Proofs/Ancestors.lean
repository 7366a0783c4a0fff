import LevelCheck.Proofs.PreOrder
set_option autoImplicit false

/-! # The ancestors of a node

Where a node lies is told by its ancestors: by what each of them says, and by the part of it in which
the next one lies. From the ancestors alone it can be read in what kind of scope a node appears, and
whether it lies in the body of a constructor. In a tree a node has its ancestors in one way only. -/

namespace LevelCheck

/-- The part of a node in which a child lies. -/
inductive Part where
  /-- The members of a class, an interface or an anonymous class. -/
  | member
  /-- The body of a method or constructor. -/
  | body
  /-- What is done about an exception. -/
  | handler
  /-- The block of an initializer. -/
  | initializer
  /-- The statements of a block. -/
  | statement
  /-- The header and the body of a `for` loop. -/
  | loop
  /-- Any part that makes no difference to where its nodes appear. -/
  | other
  deriving DecidableEq, Repr

namespace NodeData

/-- The children of a node, each with the part in which it lies. -/
def parts : NodeData → List (Part × NodeIndex)
  | .classDef _ _ _ _ _ members | .interfaceDef _ _ _ _ members => members.map (.member, ·)
  | .methodDef _ _ _ _ params _ body => params.map (.other, ·) ++ body.toList.map (.body, ·)
  | .constructorDef _ _ params _ body => params.map (.other, ·) ++ [(.body, body)]
  | .block statements => statements.map (.statement, ·)
  | .instanceInitializer body => [(.initializer, body)]
  | .catchBlock exception handler => [(.other, exception), (.handler, handler)]
  | .forStatement init condition update body =>
    (init ++ condition.toList ++ update ++ [body]).map (.loop, ·)
  | .anonymousClass outer _ arguments members =>
    (outer.toList ++ arguments).map (.other, ·) ++ members.map (.member, ·)
  | data => data.children.map (.other, ·)

/-- Every child lies in a part, and nothing else does. -/
theorem parts_children (data : NodeData) : data.parts.map Prod.snd = data.children := by
  cases data <;> simp [parts, children, Function.comp_def]

end NodeData

/-- An ancestor of a node: what it says, and the part of it in which the node lies. -/
structure Ancestor where
  data : NodeData
  part : Part
  deriving Repr

/-- The ancestors of a node, from the inside out. -/
abbrev Ancestry := List Ancestor

namespace Ancestry

/-- The kind of scope in which a node of the ancestry appears. The parts of classes, methods,
handlers and blocks have one of their own; an initializer has one if it stands in a class, and a loop
if it does not stand at the top level of a file. Any other part is in the scope of the node itself. -/
def kind : Ancestry → ScopeKind
  | [] => .file
  | ⟨_, part⟩ :: outer =>
    match part with
    | .member => .classBody
    | .body | .handler | .statement => .body
    | .initializer => if kind outer = .classBody then .body else kind outer
    | .loop => if kind outer = .file then .file else .body
    | .other => kind outer

/-- Going outward, the body of a constructor is reached before that of a method and before the
boundary of a class. -/
def reachesConstructor : Ancestry → Bool
  | [] => false
  | ⟨data, part⟩ :: outer =>
    match part with
    | .member => false
    | .body => data.kind == .constructorDef
    | .handler | .initializer | .statement | .loop | .other => reachesConstructor outer

/-- A node of the ancestry lies in the body of a constructor. -/
def inConstructor (path : Ancestry) : Bool := kind path == .body && reachesConstructor path

/-- What lies in a constructor appears in a body, so in any other scope nothing does. -/
theorem kind_of_reachesConstructor {path : Ancestry} (reaches : reachesConstructor path = true) :
    kind path = .body := by
  induction path with
  | nil => cases reaches
  | cons ancestor outer ih =>
    obtain ⟨data, part⟩ := ancestor
    cases part with
    | member => cases reaches
    | body | handler | statement => rfl
    | initializer =>
      have around : kind outer = .body := ih reaches
      simp [kind, around]
    | loop =>
      have around : kind outer = .body := ih reaches
      simp [kind, around]
    | other => exact ih reaches

theorem inConstructor_eq (path : Ancestry) : inConstructor path = reachesConstructor path := by
  rw [inConstructor]
  cases reaches : reachesConstructor path with
  | false => exact Bool.and_false _
  | true => rw [kind_of_reachesConstructor reaches]; rfl

end Ancestry

namespace Arena

variable {a : Arena} {root idx : NodeIndex} {path : Ancestry}

/-- The ancestors lead from the root down to the node. -/
inductive HasAncestors (a : Arena) (root : NodeIndex) : NodeIndex → Ancestry → Prop where
  | root : HasAncestors a root root []
  | child {parent child : NodeIndex} {node : Node} {part : Part} {path : Ancestry}
      (above : HasAncestors a root parent path) (found : a.get? parent = some node)
      (isPart : (part, child) ∈ node.data.parts) :
      HasAncestors a root child (⟨node.data, part⟩ :: path)

theorem refers_of_part {parent child : NodeIndex} {node : Node} {part : Part}
    (found : a.get? parent = some node) (isPart : (part, child) ∈ node.data.parts) :
    a.Refers parent child := by
  refine refers_iff.2 ⟨node, found, ?_⟩
  rw [← node.data.parts_children]
  exact List.mem_map.2 ⟨_, isPart, rfl⟩

theorem HasAncestors.within (above : a.HasAncestors root idx path) : a.Within root idx := by
  induction above with
  | root => exact .refl
  | child _ found isPart ih => exact ih.tail (refers_of_part found isPart)

/-- In a tree a node lies in one part of its parent only. -/
theorem FormsTree.part_unique (tree : a.FormsTree root) {parent child : NodeIndex} {node : Node}
    {part part' : Part} (inside : a.Within root parent) (found : a.get? parent = some node)
    (isPart : (part, child) ∈ node.data.parts) (isPart' : (part', child) ∈ node.data.parts)
    (exists' : (a.get? child).isSome) : part = part' := by
  have once := tree.once parent inside
  rw [childrenOf, found] at once
  simp only [← node.data.parts_children, List.filter_map] at once
  have named {part : Part} (isPart : (part, child) ∈ node.data.parts) :
      (part, child) ∈ node.data.parts.filter ((fun c => (a.get? c).isSome) ∘ Prod.snd) :=
    List.mem_filter.2 ⟨isPart, exists'⟩
  exact congrArg Prod.fst (List.inj_on_of_nodup_map once (named isPart) (named isPart') rfl)

/-- In a tree a node has its ancestors in one way only. -/
theorem FormsTree.ancestors_unique (tree : a.FormsTree root) {other : Ancestry}
    (above : a.HasAncestors root idx path) (above' : a.HasAncestors root idx other)
    (exists' : (a.get? idx).isSome) : other = path := by
  induction above generalizing other with
  | root =>
    cases above' with
    | root => rfl
    | child above found isPart => exact absurd (refers_of_part found isPart) (tree.top _ above.within)
  | @child parent child node part path above found isPart ih =>
    have refers := refers_of_part found isPart
    cases above' with
    | root => exact absurd refers (tree.top _ above.within)
    | @child parent' _ node' part' path' above' found' isPart' =>
      have refers' := refers_of_part found' isPart'
      obtain rfl : parent' = parent :=
        tree.single parent' parent child above'.within above.within refers' refers exists'
      obtain rfl : node' = node := Option.some.inj (found'.symm.trans found)
      have samePart := tree.part_unique above.within found isPart' isPart exists'
      rw [samePart, ih above' (exists_of_refers refers)]

end Arena

end LevelCheck
