import LevelCheck.Proofs.Coverage
set_option autoImplicit false

/-! # Listing nodes in pre-order

Listing the nodes below a root with a stack gives what listing them recursively gives. The recursive
listing goes down to a depth, and from some depth on it stays the same, provided that no node is
reachable from itself: the nodes on the way down to a node are all different, so there are no more of
them than the arena has nodes. Where the nodes form a tree, no node is listed twice. -/

namespace LevelCheck

namespace Arena

variable {a : Arena}

/-! ## Stacks -/

/-- The nodes on a stack are listed one after the other, each with what lies below it. -/
theorem drain_eq_flatMap (a : Arena) (stack : List (Nat × NodeIndex)) :
    a.drain stack = stack.flatMap fun entry => a.listing entry.1 entry.2 := by
  fun_induction a.drain stack with
  | case1 => rfl
  | case2 idx stack ih => rw [ih, List.flatMap_cons, listing, List.nil_append]
  | case3 depth idx stack missing ih =>
    rw [ih, List.flatMap_cons, listing, missing, List.nil_append]
  | case4 depth idx stack node found ih =>
    rw [ih, List.flatMap_cons, List.flatMap_append, List.flatMap_map, listing, found,
      List.cons_append]

theorem descendants_eq_listing (a : Arena) (root : NodeIndex) :
    a.descendants root = a.listing a.size root := by
  rw [descendants, drain_eq_flatMap]
  simp

/-! ## Depth -/

/-- A deeper listing leaves nothing out. -/
theorem listing_sublist (a : Arena) {depth deeper : Nat} (le : depth ≤ deeper) (idx : NodeIndex) :
    (a.listing depth idx).Sublist (a.listing deeper idx) := by
  induction depth generalizing deeper idx with
  | zero => exact List.nil_sublist _
  | succ depth ih =>
    obtain ⟨deeper, rfl⟩ : ∃ k, deeper = k + 1 := ⟨deeper - 1, by omega⟩
    rw [listing, listing]
    cases a.get? idx with
    | none => exact List.Sublist.refl _
    | some node =>
      exact .cons_cons idx (List.Sublist.flatMap_right _ fun child _ => ih (by omega) child)

/-- There are no more indices that name nodes than the arena has nodes. -/
theorem length_le_size {nodes : List NodeIndex} (nodup : nodes.Nodup)
    (exist : ∀ idx ∈ nodes, (a.get? idx).isSome) : nodes.length ≤ a.size := by
  have inj : (nodes.map fun idx => idx.val.toNat).Nodup := by
    refine nodup.map fun i j same => ?_
    cases i
    cases j
    exact congrArg NodeIndex.mk (UInt32.toNat.inj same)
  have within : (nodes.map fun idx => idx.val.toNat) ⊆ List.range a.size := by
    intro n isIn
    obtain ⟨idx, isNode, rfl⟩ := List.mem_map.1 isIn
    have exists' := exist idx isNode
    rw [get?] at exists'
    split at exists'
    · cases exists'
    · exact List.mem_range.2 (by simpa [size] using exists')
  simpa using (inj.subperm within).length_le

theorem below_iff {top idx : NodeIndex} :
    a.Below top idx ↔ ∃ parent, a.Within top parent ∧ a.Refers parent idx := by
  constructor
  · intro below
    induction below with
    | child refers => exact ⟨_, .refl, refers⟩
    | step _ refers ih =>
      obtain ⟨parent, within, before⟩ := ih
      exact ⟨_, within.tail before, refers⟩
  · rintro ⟨parent, within, refers⟩
    induction within generalizing idx with
    | refl => exact .child refers
    | tail _ before ih => exact .step (ih before) refers

theorem below_of_refers {parent child idx : NodeIndex} (refers : a.Refers parent child)
    (within : a.Within child idx) : a.Below parent idx := by
  induction within with
  | refl => exact .child refers
  | tail _ before ih => exact .step ih before

theorem exists_of_refers {parent child : NodeIndex} (refers : a.Refers parent child) :
    (a.get? parent).isSome := by
  obtain ⟨node, found, -⟩ := refers_iff.1 refers
  rw [found]
  rfl

theorem exists_of_within {top idx : NodeIndex} (within : a.Within top idx)
    (exists' : (a.get? idx).isSome) : (a.get? top).isSome := by
  rcases within.cases_head with rfl | ⟨next, refers, -⟩
  · exact exists'
  · exact exists_of_refers refers

/-- No node that is the given one or lies below it is reachable from itself. -/
theorem acyclicFrom_iff {root : NodeIndex} :
    a.AcyclicFrom root ↔ ∀ idx, a.Within root idx → ¬ a.Below idx idx := by
  constructor
  · rintro ⟨atRoot, below⟩ idx within
    rcases within.cases_tail with same | ⟨parent, before, refers⟩
    · rwa [same]
    · exact below idx (below_iff.2 ⟨parent, before, refers⟩)
  · intro acyclic
    refine ⟨acyclic root .refl, fun idx below => acyclic idx ?_⟩
    obtain ⟨parent, within, refers⟩ := below_iff.1 below
    exact within.tail refers

theorem AcyclicFrom.child {parent child : NodeIndex} (acyclic : a.AcyclicFrom parent)
    (refers : a.Refers parent child) : a.AcyclicFrom child := by
  rw [acyclicFrom_iff] at acyclic ⊢
  exact fun idx within => acyclic idx (.head refers within)

/-- What can be reached from a node is among those of a list that is closed under references. -/
theorem mem_of_within {root idx : NodeIndex} {nodes : List NodeIndex} (isIn : root ∈ nodes)
    (closed : ∀ parent ∈ nodes, ∀ child ∈ a.childrenOf parent, child ∈ nodes)
    (within : a.Within root idx) : idx ∈ nodes := by
  induction within with
  | refl => exact isIn
  | tail _ refers ih => exact closed _ ih _ refers

/-- Where every reference leads to a later node, no node is reachable from itself. -/
theorem acyclicFrom_of_later {root : NodeIndex} (nodes : List NodeIndex) (isIn : root ∈ nodes)
    (closed : ∀ parent ∈ nodes, ∀ child ∈ a.childrenOf parent, child ∈ nodes)
    (later : ∀ parent ∈ nodes, ∀ child ∈ a.childrenOf parent, parent.val < child.val) :
    a.AcyclicFrom root := by
  have ascends {top idx : NodeIndex} (within : a.Within root top) (below : a.Below top idx) :
      a.Within root idx ∧ top.val < idx.val := by
    induction below with
    | child refers =>
      exact ⟨within.tail refers, later _ (mem_of_within isIn closed within) _ refers⟩
    | step _ refers ih =>
      obtain ⟨before, less⟩ := ih
      exact ⟨before.tail refers,
        UInt32.lt_trans less (later _ (mem_of_within isIn closed before) _ refers)⟩
  rw [acyclicFrom_iff]
  exact fun idx within below => UInt32.lt_irrefl _ (ascends within below).2

/-- With the nodes that lead to a node, listing it goes no deeper than the arena has nodes. -/
theorem listing_add_of_path {depth : Nat} (extra : Nat) {idx : NodeIndex}
    (acyclic : a.AcyclicFrom idx) {path : List NodeIndex} (nodup : path.Nodup)
    (leads : ∀ p ∈ path, (a.get? p).isSome ∧ a.Below p idx)
    (enough : a.size ≤ depth + path.length) :
    a.listing (depth + extra) idx = a.listing depth idx := by
  have notOn : idx ∉ path := fun isOn => acyclic.1 (leads idx isOn).2
  induction depth generalizing idx path with
  | zero =>
    -- a further node would be one too many
    have missing : a.get? idx = none := by
      rw [← Option.not_isSome_iff_eq_none]
      intro exists'
      have bound := length_le_size (a := a) (List.nodup_cons.2 ⟨notOn, nodup⟩)
        (List.forall_mem_cons.2 ⟨exists', fun p isOn => (leads p isOn).1⟩)
      rw [List.length_cons] at bound
      omega
    cases extra with
    | zero => rfl
    | succ extra =>
      simp only [listing, missing]
  | succ depth ih =>
    rw [Nat.add_right_comm, listing, listing]
    cases found : a.get? idx with
    | none => rfl
    | some node =>
      refine congrArg (idx :: ·) (List.flatMap_congr fun child isChild => ?_)
      have refers : a.Refers idx child := refers_iff.2 ⟨node, found, isChild⟩
      have onward : ∀ p ∈ idx :: path, (a.get? p).isSome ∧ a.Below p child := by
        refine List.forall_mem_cons.2 ⟨⟨exists_of_refers refers, .child refers⟩, fun p isOn => ?_⟩
        exact ⟨(leads p isOn).1, .step (leads p isOn).2 refers⟩
      have below := acyclic.child refers
      refine ih below (List.nodup_cons.2 ⟨notOn, nodup⟩) onward ?_ fun isOn => ?_
      · rw [List.length_cons]
        omega
      · exact below.1 (onward child isOn).2

/-- From the depth of as many nodes as there are on, the listing stays the same. -/
theorem listing_eq_descendants {root : NodeIndex} (acyclic : a.AcyclicFrom root) {depth : Nat}
    (enough : a.size ≤ depth) : a.listing depth root = a.descendants root := by
  obtain ⟨extra, rfl⟩ := Nat.exists_eq_add_of_le enough
  rw [descendants_eq_listing]
  exact listing_add_of_path extra acyclic List.nodup_nil nofun (by simp)

/-- Whatever the depth, no more is listed than the descendants, and in their order. -/
theorem listing_sublist_descendants {root : NodeIndex} (acyclic : a.AcyclicFrom root) (depth : Nat) :
    (a.listing depth root).Sublist (a.descendants root) := by
  rw [← listing_eq_descendants acyclic (Nat.le_max_right depth a.size)]
  exact a.listing_sublist (Nat.le_max_left depth a.size) root

/-! ## Trees -/

/-- What is listed exists, and lies within the root of the listing. -/
theorem within_of_mem_listing {depth : Nat} {root idx : NodeIndex}
    (listed : idx ∈ a.listing depth root) : a.Within root idx ∧ (a.get? idx).isSome := by
  induction depth generalizing root with
  | zero => cases listed
  | succ depth ih =>
    rw [listing] at listed
    cases found : a.get? root with
    | none =>
      rw [found] at listed
      cases listed
    | some node =>
      rw [found] at listed
      rcases List.mem_cons.1 listed with rfl | below
      · exact ⟨.refl, by rw [found]; rfl⟩
      · obtain ⟨child, isChild, later⟩ := List.mem_flatMap.1 below
        obtain ⟨within, exists'⟩ := ih later
        exact ⟨.head (refers_iff.2 ⟨node, found, isChild⟩) within, exists'⟩

/-- The nodes within a root form a tree: none refers to the root, and each of the others is a child of
one of them only, and only once. Indices that name no node do not count. -/
structure FormsTree (a : Arena) (root : NodeIndex) : Prop where
  top : ∀ parent, a.Within root parent → ¬ a.Refers parent root
  single : ∀ parent other child, a.Within root parent → a.Within root other →
    a.Refers parent child → a.Refers other child → (a.get? child).isSome → parent = other
  once : ∀ parent, a.Within root parent →
    ((a.childrenOf parent).filter fun child => (a.get? child).isSome).Nodup

/-- To see that nodes form a tree it is enough to look at a list of nodes that no reference leaves. -/
theorem formsTree_of_closed {root : NodeIndex} (nodes : List NodeIndex) (isIn : root ∈ nodes)
    (closed : ∀ parent ∈ nodes, ∀ child ∈ a.childrenOf parent, child ∈ nodes)
    (top : ∀ parent ∈ nodes, root ∉ a.childrenOf parent)
    (single : ∀ parent ∈ nodes, ∀ other ∈ nodes, ∀ child ∈ a.childrenOf parent,
      child ∈ a.childrenOf other → (a.get? child).isSome → parent = other)
    (once : ∀ parent ∈ nodes,
      ((a.childrenOf parent).filter fun child => (a.get? child).isSome).Nodup) :
    a.FormsTree root := by
  have within {idx : NodeIndex} (within : a.Within root idx) : idx ∈ nodes :=
    mem_of_within isIn closed within
  refine ⟨fun parent inside => top parent (within inside), ?_, fun parent inside => ?_⟩
  · intro parent other child inside inside' refers refers' exists'
    exact single parent (within inside) other (within inside') child refers refers' exists'
  · exact once parent (within inside)

namespace FormsTree

variable {root : NodeIndex} (tree : a.FormsTree root)
include tree

/-- No node of a tree is reachable from itself. -/
theorem acyclic : a.AcyclicFrom root := by
  rw [acyclicFrom_iff]
  intro idx within
  induction within with
  | refl =>
    intro below
    obtain ⟨parent, inside, refers⟩ := below_iff.1 below
    exact tree.top parent inside refers
  | @tail parent child inside refers ih =>
    -- the last node on the way back to the child is its parent, so the parent comes back to itself
    intro below
    obtain ⟨last, around, back⟩ := below_iff.1 below
    have exists' := exists_of_within around (exists_of_refers back)
    have same : parent = last := tree.single parent last child inside
      ((inside.tail refers).trans around) refers back exists'
    exact ih (below_of_refers refers (same ▸ around))

/-- Of two nodes that lead to a third, one leads to the other. -/
theorem linear {first second idx : NodeIndex} (inside : a.Within root first)
    (inside' : a.Within root second) (within : a.Within first idx) (within' : a.Within second idx)
    (exists' : (a.get? idx).isSome) : a.Within first second ∨ a.Within second first := by
  induction within with
  | refl => exact .inr within'
  | @tail parent child around refers ih =>
    rcases within'.cases_tail with same | ⟨other, around', refers'⟩
    · rw [← same]
      exact .inl (around.tail refers)
    · have same : parent = other := tree.single parent other child (inside.trans around)
        (inside'.trans around') refers refers' exists'
      exact ih (same ▸ around') (exists_of_refers refers)

/-- No node lies below two children of another. -/
theorem apart {parent first second idx : NodeIndex} (inside : a.Within root parent)
    (refers : a.Refers parent first) (refers' : a.Refers parent second) (different : first ≠ second)
    (within : a.Within first idx) (within' : a.Within second idx) : ¬ (a.get? idx).isSome := by
  intro exists'
  -- the way from one child to the other would go through their parent
  have noWay {c d : NodeIndex} (toC : a.Refers parent c) (toD : a.Refers parent d) (ne : c ≠ d)
      (leads : a.Within c d) (there : (a.get? d).isSome) : False := by
    rcases leads.cases_tail with same | ⟨last, around, back⟩
    · exact ne same.symm
    · have same : parent = last := tree.single parent last d inside
        ((inside.tail toC).trans around) toD back there
      exact acyclicFrom_iff.1 tree.acyclic parent inside (below_of_refers toC (same ▸ around))
  rcases tree.linear (inside.tail refers) (inside.tail refers') within within' exists' with leads | leads
  · exact noWay refers refers' different leads (exists_of_within within' exists')
  · exact noWay refers' refers different.symm leads (exists_of_within within exists')

/-- No node of a tree is listed twice. -/
theorem nodup_listing (depth : Nat) {idx : NodeIndex} (inside : a.Within root idx) :
    (a.listing depth idx).Nodup := by
  induction depth generalizing idx with
  | zero => exact List.nodup_nil
  | succ depth ih =>
    rw [listing]
    cases found : a.get? idx with
    | none => exact List.nodup_nil
    | some node =>
      have refers {child : NodeIndex} (isChild : child ∈ node.data.children) :
          a.Refers idx child := refers_iff.2 ⟨node, found, isChild⟩
      refine List.nodup_cons.2 ⟨fun below => ?_, List.nodup_flatMap.2 ⟨fun child isChild => ?_, ?_⟩⟩
      · obtain ⟨child, isChild, listed⟩ := List.mem_flatMap.1 below
        exact acyclicFrom_iff.1 tree.acyclic idx inside
          (below_of_refers (refers isChild) (within_of_mem_listing listed).1)
      · exact ih (inside.tail (refers isChild))
      · -- children that name nodes are different, and the listings of the others are empty
        have once := tree.once idx inside
        rw [show a.childrenOf idx = node.data.children by rw [childrenOf, found]] at once
        refine (List.pairwise_filter.1 once).imp_of_mem fun {c d} isC isD different => ?_
        intro x fromC fromD
        obtain ⟨withinC, exists'⟩ := within_of_mem_listing fromC
        obtain ⟨withinD, -⟩ := within_of_mem_listing fromD
        have isNode := exists_of_within withinC exists'
        have isNode' := exists_of_within withinD exists'
        exact tree.apart inside (refers isC) (refers isD) (different isNode isNode') withinC withinD
          exists'

theorem nodup_descendants : (a.descendants root).Nodup := by
  rw [descendants_eq_listing]
  exact tree.nodup_listing _ .refl

end FormsTree

end Arena

end LevelCheck
