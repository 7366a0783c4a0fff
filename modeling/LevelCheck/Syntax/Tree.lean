import LevelCheck.Syntax.Node
set_option autoImplicit false

/-! # Syntax trees

The nodes of a source file lie in one arena and refer to each other by index. Nothing makes these
references a tree: an index may dangle, nodes may be shared, and in an ill-formed arena a node may be
reachable from itself. Two listings of the nodes below a root are given, a recursive one and one that
keeps a stack of nodes still to be listed. Both stop at a depth that no path without repetition
exceeds, so they are total and leave out nothing unless some node is reachable from itself. The loop
that knows no such depth is given by its turns. -/

namespace LevelCheck

/-- The nodes of one source file. -/
structure Arena where
  nodes : Array Node
  deriving BEq, Repr, Inhabited

namespace Arena

/-- An arena without nodes. -/
def empty : Arena := { nodes := #[] }

/-- The number of nodes. -/
def size (a : Arena) : Nat := a.nodes.size

/-- The node at an index, if the index names one. -/
def get? (a : Arena) (idx : NodeIndex) : Option Node :=
  if idx = .absent then none else a.nodes[idx.val.toNat]?

/-- The position of a node, `nowhere` for an index that names none. -/
def pos (a : Arena) (idx : NodeIndex) : Position :=
  match a.get? idx with
  | some node => node.pos
  | none => .nowhere

/-- Append a node; its index comes with the new arena. -/
def add (a : Arena) (pos : Position) (data : NodeData) : NodeIndex × Arena :=
  ({ val := a.size.toUInt32 }, { nodes := a.nodes.push { pos, data } })

/-- Replace what a node says; nothing happens if the index names none. -/
def setData (a : Arena) (idx : NodeIndex) (data : NodeData) : Arena :=
  if idx = .absent then a
  else { nodes := a.nodes.modify idx.val.toNat fun node => { node with data } }

/-- The nodes that a node refers to, dangling references included. -/
def childrenOf (a : Arena) (idx : NodeIndex) : List NodeIndex :=
  match a.get? idx with
  | some node => node.data.children
  | none => []

/-! ## Pre-order -/

/-- The node and, after it, the listings of its children in order, down to a depth. Dangling indices
are skipped and a shared node is listed at each of its occurrences. -/
def listing (a : Arena) : Nat → NodeIndex → List NodeIndex
  | 0, _ => []
  | depth + 1, idx =>
    match a.get? idx with
    | none => []
    | some node => idx :: node.data.children.flatMap (a.listing depth)

/-- The sum of a measure over a list. -/
def total {α : Type} (measure : α → Nat) : List α → Nat
  | [] => 0
  | x :: rest => measure x + total measure rest

theorem total_append {α : Type} (measure : α → Nat) (xs ys : List α) :
    total measure (xs ++ ys) = total measure xs + total measure ys := by
  induction xs with
  | nil => rw [total, List.nil_append, Nat.zero_add]
  | cons x rest ih => rw [List.cons_append, total, total, ih, Nat.add_assoc]

theorem total_map {α β : Type} (measure : β → Nat) (f : α → β) (xs : List α) :
    total measure (xs.map f) = total (fun x => measure (f x)) xs := by
  induction xs with
  | nil => rfl
  | cons x rest ih => rw [List.map_cons, total, total, ih]

/-- The number of steps that listing from a node with a stack takes. -/
def steps (a : Arena) : Nat → NodeIndex → Nat
  | 0, _ => 1
  | depth + 1, idx => 1 + total (a.steps depth) (a.childrenOf idx)

/-- The number of steps that listing from a stack takes. -/
def stackSteps (a : Arena) (stack : List (Nat × NodeIndex)) : Nat :=
  total (fun entry => a.steps entry.1 entry.2) stack

theorem steps_pos (a : Arena) (depth : Nat) (idx : NodeIndex) : 0 < a.steps depth idx := by
  cases depth with
  | zero => exact Nat.one_pos
  | succ depth => rw [steps]; omega

theorem stackSteps_lt_cons (a : Arena) (entry : Nat × NodeIndex) (stack : List (Nat × NodeIndex)) :
    a.stackSteps stack < a.stackSteps (entry :: stack) := by
  have := a.steps_pos entry.1 entry.2
  simp only [stackSteps, total]
  omega

/-- A node takes one step more than its children together. -/
theorem stackSteps_children_lt {a : Arena} {idx : NodeIndex} {node : Node}
    (found : a.get? idx = some node) (depth : Nat) (stack : List (Nat × NodeIndex)) :
    a.stackSteps (node.data.children.map (depth, ·) ++ stack)
      < a.stackSteps ((depth + 1, idx) :: stack) := by
  have children : a.childrenOf idx = node.data.children := by rw [childrenOf, found]
  have expand : a.steps (depth + 1) idx = 1 + total (a.steps depth) node.data.children := by
    rw [steps, children]
  rw [stackSteps, total_append, total_map, stackSteps, total, expand]
  exact Nat.add_lt_add_right (Nat.lt_add_of_pos_left Nat.one_pos) _

/-- List the nodes below those on a stack: the top node is listed and its children take its place.
Each stacked node carries the depth down to which it is listed. -/
def drain (a : Arena) : List (Nat × NodeIndex) → List NodeIndex
  | [] => []
  | (0, _) :: stack => a.drain stack
  | (depth + 1, idx) :: stack =>
    match _found : a.get? idx with
    | none => a.drain stack
    | some node => idx :: a.drain (node.data.children.map (depth, ·) ++ stack)
termination_by stack => a.stackSteps stack
decreasing_by
  · exact a.stackSteps_lt_cons _ stack
  · exact a.stackSteps_lt_cons _ stack
  · exact stackSteps_children_lt _found depth stack

/-- All nodes reachable from a root, in pre-order. -/
def descendants (a : Arena) (root : NodeIndex) : List NodeIndex := a.drain [(a.size, root)]

/-- A listing under way: the nodes that are still to be listed, the next one first, and those that
have been. -/
structure Listing where
  stack : List NodeIndex
  listed : List NodeIndex
  deriving DecidableEq, Repr

/-- The root is to be listed. -/
def Listing.start (root : NodeIndex) : Listing := { stack := [root], listed := [] }

/-- One turn of the loop: the next node is listed, and its children are pushed on the stack from the
last one to the first. An index that names no node is dropped. Without a next node, nothing happens. -/
def turn (a : Arena) (l : Listing) : Listing :=
  match l.stack with
  | [] => l
  | idx :: stack =>
    match a.get? idx with
    | none => { l with stack }
    | some node =>
      { stack := node.data.children.reverse.foldl (fun stack child => child :: stack) stack
        listed := l.listed ++ [idx] }

/-! ## Reachability -/

/-- A node that exists refers to `child`. -/
def Refers (a : Arena) (parent child : NodeIndex) : Prop := child ∈ a.childrenOf parent

/-- One or more references lead from the first node to the second. -/
inductive Below (a : Arena) : NodeIndex → NodeIndex → Prop where
  | child {parent child : NodeIndex} : a.Refers parent child → Below a parent child
  | step {top parent child : NodeIndex} : Below a top parent → a.Refers parent child → Below a top child

/-- No node that is the given one or lies below it is reachable from itself. -/
def AcyclicFrom (a : Arena) (root : NodeIndex) : Prop :=
  ¬ a.Below root root ∧ ∀ idx, a.Below root idx → ¬ a.Below idx idx

end Arena

/-- One source file: its name, its nodes and the root of its syntax. -/
structure SyntaxTree where
  fileName : String
  arena : Arena
  root : NodeIndex
  deriving BEq, Repr, Inhabited

namespace SyntaxTree

/-- The root node, if the root index names one. -/
def rootNode? (t : SyntaxTree) : Option Node := t.arena.get? t.root

end SyntaxTree

end LevelCheck
