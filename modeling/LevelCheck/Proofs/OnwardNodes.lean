import LevelCheck.Proofs.WalkRun
set_option autoImplicit false

/-! # Which nodes a walk goes on to

The walk does not go on to every node that a node lists. What a child is visited in depends on the
scope of its parent and on its role there: the body of a method is visited in the method, but only if
the method stands in a class; the declarators of a declaration are read with it, and the walk goes on
to their initializers. `Arena.placed` says this of the children of a node one by one, and
`Arena.onward` which nodes are visited next. `Walk.Tour` holds between two states when a walk leads
from one to the other by visiting given nodes in order: what a visit of a node does to the state is
told apart into the inspection of the node, the visits of further nodes from within it, and the steps
in between, which come to no node. -/

namespace LevelCheck

/-- A node to be visited, and the kind of scope in which it is. -/
abbrev Stop := ScopeKind × NodeIndex

namespace Arena

variable (a : Arena)

/-! ## Children and where they are visited -/

/-- The node at an index is a parameter. -/
def isParameter (idx : NodeIndex) : Bool :=
  match (a.get? idx).map Node.data with
  | some (.formalParameter ..) => true
  | _ => false

/-- The node at an index is a declarator. -/
def isDeclarator (idx : NodeIndex) : Bool :=
  match (a.get? idx).map Node.data with
  | some (.variableDeclarator ..) => true
  | _ => false

/-- The initializer of the declarator at an index. -/
def initializer? (idx : NodeIndex) : Option NodeIndex :=
  match (a.get? idx).map Node.data with
  | some (.variableDeclarator _ _ initializer) => initializer
  | _ => none

/-- A kind of scope, provided that the walk does not pass over what is in it. -/
def provided (condition : Bool) (kind : ScopeKind) : Option ScopeKind :=
  if condition then some kind else none

/-- The children of a node, each with the kind of scope that it lies in when the node is visited in a
scope of the given kind, or with none if the walk passes it over: methods count in classes only,
handlers in bodies only, and variables, blocks and the members of anonymous classes anywhere but at
the top level of a file; and lists of parameters or declarators may hold nothing else. -/
def placed (scope : ScopeKind) (data : NodeData) : List (Option ScopeKind × NodeIndex) :=
  match data with
  | .classDef _ _ _ _ _ members | .interfaceDef _ _ _ _ members =>
    members.map (some .classBody, ·)
  | .methodDef _ _ _ _ params _ body =>
    params.map (fun p => (provided (scope == .classBody && a.isParameter p) .body, p))
      ++ body.toList.map (provided (scope == .classBody) .body, ·)
  | .constructorDef _ _ params _ body =>
    params.map (fun p => (provided (scope == .classBody && a.isParameter p) .body, p))
      ++ [(provided (scope == .classBody) .body, body)]
  | .variableDeclaration _ declarators =>
    declarators.map fun d => (provided (scope != .file && a.isDeclarator d) scope, d)
  | .block statements => statements.map (provided (scope != .file) .body, ·)
  | .instanceInitializer body => [(provided (scope != .file) .body, body)]
  | .catchBlock exception handler =>
    [(provided (scope == .body && a.isParameter exception) .body, exception),
      (provided (scope == .body) .body, handler)]
  | .forStatement init condition update body =>
    (init ++ condition.toList ++ update ++ [body]).map
      (some (if scope == .file then .file else .body), ·)
  | .anonymousClass outer _ arguments members =>
    (outer.toList ++ arguments).map (some scope, ·)
      ++ members.map (provided (scope != .file) .classBody, ·)
  | data => data.children.map (some scope, ·)

/-- Every child has its place, and nothing else has. -/
theorem placed_children (scope : ScopeKind) (data : NodeData) :
    (a.placed scope data).map Prod.snd = data.children := by
  cases data <;> simp [placed, NodeData.children, Function.comp_def]

/-- The children that have a place. -/
def stops (places : List (Option ScopeKind × NodeIndex)) : List Stop :=
  places.filterMap fun place => place.1.map (·, place.2)

theorem mem_stops {places : List (Option ScopeKind × NodeIndex)} {scope : ScopeKind}
    {idx : NodeIndex} : (scope, idx) ∈ stops places ↔ (some scope, idx) ∈ places := by
  simp [stops]

@[simp] theorem stops_some (scope : ScopeKind) (nodes : List NodeIndex) :
    stops (nodes.map (some scope, ·)) = nodes.map (scope, ·) := by
  simp [stops, List.filterMap_map]

@[simp] theorem stops_none (nodes : List NodeIndex) :
    stops (nodes.map ((none : Option ScopeKind), ·)) = [] := by
  simp [stops]

@[simp] theorem stops_append (places more : List (Option ScopeKind × NodeIndex)) :
    stops (places ++ more) = stops places ++ stops more := List.filterMap_append ..

/-- The nodes that the walk goes on to from a node that it visits in a scope of the given kind:
parameters and declarators are read with the node, and those of the latter that have an initializer
lead on to it. -/
def onward (scope : ScopeKind) (data : NodeData) : List Stop :=
  match data with
  | .methodDef _ _ _ _ _ _ body => stops (body.toList.map (provided (scope == .classBody) .body, ·))
  | .constructorDef _ _ _ _ body => stops [(provided (scope == .classBody) .body, body)]
  | .variableDeclaration _ declarators =>
    if scope = .file then [] else (declarators.filterMap a.initializer?).map (scope, ·)
  | .catchBlock _ handler => stops [(provided (scope == .body) .body, handler)]
  | data => stops (a.placed scope data)

end Arena

/-! ## Tours -/

namespace Walk

variable (w : Walk)

/-- The walk leads from the first state to the second by visiting the given nodes in order, each with
the given number of levels of nesting remaining. -/
inductive Tour : Nat → List Stop → Context → Context → Prop where
  | rest (remaining : Nat) (a : Context) : Tour remaining [] a a
  /-- What is done between visits comes to no node. -/
  | aside {remaining : Nat} {stops : List Stop} {a b c : Context} (course : Course a b)
      (trail : b.trail = a.trail) (after : Tour remaining stops b c) : Tour remaining stops a c
  /-- An index that names no node is passed over. -/
  | absent {remaining : Nat} {kind : ScopeKind} {idx : NodeIndex} {stops : List Stop}
      {a b : Context} (missing : w.arena.get? idx = none) (after : Tour remaining stops a b) :
      Tour remaining ((kind, idx) :: stops) a b
  /-- A node that is nested too deeply is skipped. -/
  | refused {kind : ScopeKind} {idx : NodeIndex} {node : Node} {stops : List Stop} {a b : Context}
      (found : w.arena.get? idx = some node) (after : Tour 0 stops (w.refuseDepth idx node a) b) :
      Tour 0 ((kind, idx) :: stops) a b
  /-- A node is inspected and skipped. -/
  | skipped {remaining : Nat} {scope : WalkScope} {kind : ScopeKind} {idx : NodeIndex} {node : Node}
      {stops : List Stop} {a b c : Context} (found : w.arena.get? idx = some node)
      (isKind : scope.kind = kind) (skips : w.inspect (remaining + 1) scope idx node a = (none, b))
      (after : Tour (remaining + 1) stops b c) : Tour (remaining + 1) ((kind, idx) :: stops) a c
  /-- A node is inspected and admitted, and the nodes are visited that the walk goes on to from it:
  all of them, unless the node is pruned on the way. -/
  | entered {remaining : Nat} {scope : WalkScope} {kind : ScopeKind} {idx : NodeIndex} {node : Node}
      {admission : Admission} {inner stops : List Stop} {a b c d : Context}
      (found : w.arena.get? idx = some node) (isKind : scope.kind = kind)
      (admits : w.inspect (remaining + 1) scope idx node a = (some admission, b))
      (inside : Tour remaining inner b c) (goes : inner <+: w.arena.onward kind node.data)
      (whole : c.log.isPruned w.file idx = false → inner = w.arena.onward kind node.data)
      (after : Tour (remaining + 1) stops c d) : Tour (remaining + 1) ((kind, idx) :: stops) a d

namespace Tour

variable {w} {remaining : Nat} {stops more : List Stop} {a b c : Context}

theorem of_course (course : Course a b) (trail : b.trail = a.trail) : w.Tour remaining [] a b :=
  .aside course trail (.rest remaining b)

theorem append (first : w.Tour remaining stops a b) (second : w.Tour remaining more b c) :
    w.Tour remaining (stops ++ more) a c := by
  induction first with
  | rest => exact second
  | aside course trail _ ih => exact .aside course trail (ih second)
  | absent missing _ ih => exact .absent missing (ih second)
  | refused found _ ih => exact .refused found (ih second)
  | skipped found isKind skips _ ih => exact .skipped found isKind skips (ih second)
  | entered found isKind admits inside goes whole _ _ ih =>
    exact .entered found isKind admits inside goes whole (ih second)

theorem andThen (tour : w.Tour remaining stops a b) (course : Course b c)
    (trail : c.trail = b.trail) : w.Tour remaining stops a c := by
  have := tour.append (.of_course course trail)
  rwa [List.append_nil] at this

/-- A tour goes by the deeds of the walk. -/
theorem course (tour : w.Tour remaining stops a b) : Course a b := by
  induction tour with
  | rest => exact .rest _
  | aside course _ _ ih => exact course.trans ih
  | absent _ _ ih => exact ih
  | refused found _ ih => exact (Course.deed (.rest _) (.refuse _ w _ _)).trans ih
  | @skipped remaining scope _ idx node _ a _ _ _ _ skips _ ih =>
    have inspected := Deed.inspect a w (remaining + 1) scope idx node
    rw [skips] at inspected
    exact (Course.deed (.rest a) inspected).trans ih
  | @entered remaining scope _ idx node _ _ _ a _ _ _ _ _ admits _ _ _ _ inside after =>
    have inspected := Deed.inspect a w (remaining + 1) scope idx node
    rw [admits] at inspected
    exact ((Course.deed (.rest a) inspected).trans inside).trans after

end Tour

end Walk

end LevelCheck
