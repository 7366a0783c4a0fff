import LevelCheck.Proofs.AfterVisits
import LevelCheck.Proofs.WrittenTypes
set_option autoImplicit false

/-! # Where types are used

A class is looked for wherever a declaration writes a type for a place of the table, and wherever a node
merely mentions a class. `Walk.Introduces` says which types a visit writes in the table, and from which
state on it links them in order; `Walk.Uses` says which type is linked in which state, and so tells apart
all occasions on which a walk looks for a class. A use lies between the states before and after its
visit. -/

namespace LevelCheck

/-- A type as the walk comes to link it: the scope in which its name is looked for (none at the top level
of a file), how it is written and where, and the place that its class is to fill. -/
structure TypeUse where
  scope : Option ScopeRef
  written : String
  pos : Position
  link : Link
  deriving DecidableEq, Repr

/-- A type that has been written in the table is used in its scope. -/
def Mention.use (m : Mention) : TypeUse :=
  { scope := some m.scope, written := m.written, pos := m.pos, link := m.link }

/-- The type refers to no class: it is empty, or a type parameter in scope. -/
def TypeUse.namesNoClass (u : TypeUse) (cx : Context) : Bool :=
  cx.namesNoClass u.scope (baseTypeName u.written)

namespace Walk

variable (w : Walk)

/-- The type is linked now, or begins to wait. -/
def linkUse (u : TypeUse) (cx : Context) : Context :=
  cx.linkType w.file u.scope u.written u.pos u.link

/-- The reference that is made of the type, with the names known in the file. -/
def reference (u : TypeUse) (f : FileScope) (cx : Context) : Reference :=
  cx.reference f w.file u.scope (baseTypeName u.written) u.pos u.link

/-- The reference is the one that is made of the type, which is looked for as a class. -/
structure Refers (u : TypeUse) (cx : Context) (r : Reference) : Prop where
  names : u.namesNoClass cx = false
  made : ∃ f, cx.file? w.file = some f ∧ r = w.reference u f cx

variable {w} in
theorem Refers.unique {u : TypeUse} {cx : Context} {r r' : Reference} (refers : w.Refers u cx r)
    (refers' : w.Refers u cx r') : r = r' := by
  obtain ⟨f, inRun, rfl⟩ := refers.made
  obtain ⟨f', inRun', rfl⟩ := refers'.made
  obtain rfl := Option.some.inj (inRun.symm.trans inRun')
  rfl

variable {w} in
/-- The reference is for the place of the type, and stands where the type is written. -/
theorem Refers.site {u : TypeUse} {cx : Context} {r : Reference} (refers : w.Refers u cx r) :
    u.link = r.link ∧ u.pos = r.position := by
  obtain ⟨f, -, rfl⟩ := refers.made
  exact ⟨rfl, rfl⟩

/-- The type is met as the reference, by the event: a class fills its place at once, or the reference
begins to wait. -/
inductive Meets (u : TypeUse) (cx : Context) (r : Reference) : Event → Prop where
  | atOnce {target : SymbolId} (fills : (w.linkUse u cx).table = cx.table.fill u.link target) :
      Meets u cx r (.linked r target)
  | waits (requests : (w.linkUse u cx).pending = cx.pending.request r.waiting) :
      Meets u cx r (.deferred r)

variable {w} in
theorem Meets.met {u : TypeUse} {cx : Context} {r : Reference} {e : Event} (meets : w.Meets u cx r e) :
    e.met? = some r := by
  cases meets <;> rfl

/-- A type that is looked for as a class is met once, with the names that it may denote. -/
theorem linkUse_meets {u : TypeUse} {cx : Context} (inFile : w.file.val < cx.files.size)
    (names : u.namesNoClass cx = false) : ∃ r e, w.Refers u cx r
      ∧ (w.linkUse u cx).history = cx.history.push e ∧ w.Meets u cx r e := by
  have inRun : cx.file? w.file = some cx.files[w.file.val] := Array.getElem?_eq_getElem inFile
  obtain ⟨e, history, isMet⟩ := Context.linkType_meets inRun names u.pos u.link rfl
  refine ⟨_, e, ⟨names, _, inRun, rfl⟩, history, ?_⟩
  rcases isMet with ⟨rfl, requests⟩ | ⟨target, rfl, fills⟩
  · exact .waits requests
  · exact .atOnce fills

/-- The visit has written types in the table, and links them in order from a state on. -/
inductive Introduces (v : Visit) : List Mention × Context → Prop where
  /-- The types of a method and its parameters, of fields, of local variables, or of an exception. -/
  | entered {node : Node} {admission : Admission} {a : Context} {types : List Mention × Context}
      (admits : w.Admits v node admission a)
      (enters : w.EntersTypes v.scope node admission.forceFinal a types) : Introduces v types
  | superclass {node : Node} {admission : Admission} {decl : TypeDecl} {id : SymbolId}
      {written : String} {a b : Context} (admits : w.Admits v node admission a)
      (is : node.data.typeDecl? = some decl)
      (begun : (w.qualifiedName v.scope decl.name a).2.beginClass?
        (w.qualifiedName v.scope decl.name a).1 v.scope.ref? decl.head = some (id, b))
      (isWritten : decl.superclass = some written) :
      Introduces v (writeSuperclass id written node.pos b)
  /-- An interface is written when those before it have been linked. -/
  | interface {node : Node} {admission : Admission} {decl : TypeDecl} {id : SymbolId}
      {before after : List String} {written : String} {a b : Context}
      (admits : w.Admits v node admission a) (is : node.data.typeDecl? = some decl)
      (begun : (w.qualifiedName v.scope decl.name a).2.beginClass?
        (w.qualifiedName v.scope decl.name a).1 v.scope.ref? decl.head = some (id, b))
      (are : decl.interfaces = before ++ written :: after) :
      Introduces v (writeInterface id before.length written node.pos
        (w.linkInterfaces id node.pos 0 before (w.linkSuperclass id node.pos
          (w.qualifiedName v.scope decl.name a).1 decl b)))
  /-- The base of an anonymous class is written in no slot. -/
  | base {node : Node} {ref : ScopeRef} {type : String} {members : List NodeIndex} {id : SymbolId}
      {a b : Context} (builds : w.Builds v node ref type members a)
      (begun : (numbered ref a).beginClass? (anonymousName ref a) (some ref) (fun s => s)
        = some (id, b)) :
      Introduces v
        ([{ link := .anonymousBase id, scope := ref, written := type, pos := node.pos }], b)

/-- The visit uses the type: it links it in a state of the run. -/
inductive Uses (v : Visit) : TypeUse → Context → Prop where
  | introduced {types : List Mention × Context} {before after : List Mention} {m : Mention}
      (introduces : w.Introduces v types) (is : types.1 = before ++ m :: after) :
      Uses v m.use (w.linkEach before types.2)
  | mentioned {node : Node} {admission : Admission} {type : String} {a : Context}
      (admits : w.Admits v node admission a) (is : node.data.mentioned? = some type) :
      Uses v { scope := v.scope.ref?, written := type, pos := node.pos, link := .existence } a

/-- The visit has come to a state from which on it writes types for places of a kind: its node has been
admitted, or the class that it declares has been begun. -/
inductive Starts (v : Visit) : (Link → Prop) → Context → Prop where
  | admitted {node : Node} {admission : Admission} {a : Context} (admits : w.Admits v node admission a) :
      Starts v Link.IsAside a
  | begun {node : Node} {admission : Admission} {decl : TypeDecl} {id : SymbolId} {a b : Context}
      (admits : w.Admits v node admission a) (is : node.data.typeDecl? = some decl)
      (begun : (w.qualifiedName v.scope decl.name a).2.beginClass?
        (w.qualifiedName v.scope decl.name a).1 v.scope.ref? decl.head = some (id, b)) :
      Starts v (Link.IsParentOf id) b

variable {w} {v : Visit} (isOpen : v.scope.IsOpenIn v.before.table)
include isOpen

theorem Starts.course {places : Link → Prop} {start : Context} (starts : w.Starts v places start) :
    Course v.before start := by
  cases starts with
  | admitted admits => exact .of_run admits.run
  | @begun node admission decl id a b admits _ begun =>
    have isOpen' := admits.run.precedes.isOpenIn isOpen
    have named := admits.run.trans (w.qualifiedName_run isOpen' decl.name)
    exact (Course.of_run named).opens (opens_declared isOpen' begun)

omit isOpen in
/-- How a visit comes to write types, and how it goes on when they have been linked: what lies between
is done by errands. -/
inductive Introduction (w : Walk) (v : Visit) (types : List Mention × Context) : Prop where
  | written {places : Link → Prop} {start before after : Context} {inner : WalkScope}
      {nodes : List (BlockMode × NodeIndex)} (starts : w.Starts v places start)
      (comes : w.Errands places [] start [] before) (writes : w.WritesTypes places before types)
      (goes : w.Errands places [] (w.linkEach types.1 types.2) [] after)
      (through : w.GoesThrough v inner nodes after) : Introduction w v types
  | base {node : Node} {ref : ScopeRef} {type : String} {members : List NodeIndex} {id : SymbolId}
      {a b : Context} (builds : w.Builds v node ref type members a)
      (begun : (numbered ref a).beginClass? (anonymousName ref a) (some ref) (fun s => s)
        = some (id, b))
      (are : types
        = ([{ link := .anonymousBase id, scope := ref, written := type, pos := node.pos }], b)) :
      Introduction w v types

/-- What a class extends is written when its declaration has begun. -/
theorem introduces_parents (lifecycle : v.before.Lifecycle) {node : Node} {admission : Admission}
    {decl : TypeDecl} {id : SymbolId} {a b : Context} (admits : w.Admits v node admission a)
    (begun : (w.qualifiedName v.scope decl.name a).2.beginClass?
      (w.qualifiedName v.scope decl.name a).1 v.scope.ref? decl.head = some (id, b)) :
    b.table.IsOpen (.symbol id) ∧ (b.table.symbol id).parents = (none, []) := by
  have isOpen' := admits.run.precedes.isOpenIn isOpen
  have opens := opens_declared isOpen' begun
  have named := admits.run.trans (w.qualifiedName_run isOpen' decl.name)
  exact ⟨opens.isOpen, (lifecycle.course (.of_run named)).untouched.bare opens⟩

theorem Introduces.introduction (lifecycle : v.before.Lifecycle) {types : List Mention × Context}
    (introduces : w.Introduces v types) : w.Introduction v types := by
  cases introduces with
  | @entered node admission a _ admits enters =>
    obtain ⟨inner, nodes, calls⟩ := enters.calls v.mode
    exact .written (.admitted admits) (.rest [] a)
      (enters.writes (admits.run.precedes.isOpenIn isOpen) admits.2.1) (.rest [] _)
      (.calls admits calls)
  | @superclass node admission decl id written a b admits is begun isWritten =>
    obtain ⟨isOpen', bare⟩ := introduces_parents isOpen lifecycle admits begun
    have linked := linkSuperclass_errands admits.2.1 is isOpen' bare
      (w.qualifiedName v.scope decl.name a).1
    have whole : decl.interfaces = [] ++ decl.interfaces := rfl
    have count := (linkSomeParents_errands admits.2.1 is isOpen' bare
      (w.qualifiedName v.scope decl.name a).1 whole).2
    have goes := (linkInterfaces_errands (linked.precedes.table.isOpen isOpen') count
      fun i type given => interfaces_said admits.2.1 is whole i type given).1
    have through : w.GoesThrough v _ _ _ := .members (.intro admits is begun)
    rw [linkSuperclass_eq_linkEach isWritten] at goes
    rw [linkParents, linkSuperclass_eq_linkEach isWritten] at through
    exact .written (.begun admits is begun) (.rest [] b)
      (writeSuperclass_writes admits.2.1 is isOpen' bare isWritten) goes through
  | @interface node admission decl id before after written a b admits is begun are =>
    obtain ⟨isOpen', bare⟩ := introduces_parents isOpen lifecycle admits begun
    obtain ⟨comes, count⟩ := linkSomeParents_errands admits.2.1 is isOpen' bare
      (w.qualifiedName v.scope decl.name a).1 are
    have here := comes.precedes.table.isOpen isOpen'
    have writes := writeInterface_writes here count (interfaces_said admits.2.1 is are 0 written rfl)
    have further : decl.interfaces = (before ++ [written]) ++ after := by simp [are]
    have grown := linkInterface_length (w := w) here before.length written node.pos
    have last : (before ++ [written]).length = before.length + 1 := by simp
    rw [count, ← last] at grown
    have goes := (linkInterfaces_errands (writes.linked.precedes.table.isOpen here) grown
      fun i type given => interfaces_said admits.2.1 is further i type given).1
    have through : w.GoesThrough v _ _ _ := .members (.intro admits is begun)
    rw [linkParents, are, linkInterfaces_append, Nat.zero_add, linkInterfaces_cons] at through
    rw [last] at goes
    exact .written (.begun admits is begun) comes writes goes through
  | base builds begun => exact .base builds begun rfl

/-- Between the beginning and the end of a visit that writes types, these are linked. They are due from
when they have been written. -/
theorem Introduction.course {types : List Mention × Context} (introduction : w.Introduction v types) :
    Course v.before types.2 ∧ (∃ places, ∀ m ∈ types.1, w.IsDue places types.2.table m)
      ∧ Course (w.linkEach types.1 types.2) (w.after v) := by
  cases introduction with
  | written starts comes writes goes through =>
    exact ⟨((starts.course isOpen).trans comes.course).trans writes.errands.course, ⟨_, writes.due⟩,
      goes.course.trans (through.goesOn isOpen)⟩
  | @base node ref type members id a b builds begun are =>
    subst are
    obtain ⟨run, around⟩ := builds.run isOpen
    have counted := Course.deed (.rest a) (.enter (.number around))
    have opens := anonymous_opens around begun
    have stillAround := (counted.opens opens).precedes.table.isOpen around
    have said : w.arena.Writes (.anonymousBase id) type node.pos := by
      obtain ⟨admits, is, -⟩ := builds
      exact ⟨v.node, node, admits.2.1, rfl, by rw [is]; rfl⟩
    refine ⟨(Course.of_run run).trans (counted.opens opens),
      ⟨(· = .anonymousBase id), fun m isIn => ?_⟩, ?_⟩
    · obtain rfl := List.mem_singleton.1 isIn
      exact ⟨stillAround, opens.isOpen, rfl, said⟩
    · rw [linkEach_singleton]
      exact (GoesThrough.anonymousMembers builds begun).goesOn isOpen

omit isOpen in
/-- Only types that are written in the table have a place. -/
theorem Uses.of_real {u : TypeUse} {a : Context} (uses : w.Uses v u a) (real : u.link ≠ .existence) :
    ∃ m types before after, u = m.use ∧ w.Introduces v types ∧ types.1 = before ++ m :: after
      ∧ a = w.linkEach before types.2 := by
  cases uses with
  | introduced introduces is => exact ⟨_, _, _, _, rfl, introduces, is, rfl⟩
  | mentioned => exact absurd rfl real

omit isOpen in
theorem linkUse_use (m : Mention) (types : List Mention) (cx : Context) :
    w.linkUse m.use (w.linkEach types cx) = w.linkEach (types ++ [m]) cx := by
  rw [linkEach_append, linkEach_singleton, linkUse, Mention.use]

/-- A type is used in the course of the visit: it is linked, and the visit goes on. -/
theorem Uses.course (lifecycle : v.before.Lifecycle) {u : TypeUse} {a : Context}
    (uses : w.Uses v u a) : Course v.before a ∧ Course a (w.linkUse u a)
      ∧ Course (w.linkUse u a) (w.after v) := by
  cases uses with
  | @introduced types before after m introduces is =>
    obtain ⟨comes, ⟨places, due⟩, goes⟩ := (introduces.introduction isOpen lifecycle).course isOpen
    rw [is, List.append_cons] at due goes
    rw [linkUse_use]
    have upTo (m' : Mention) (isIn : m' ∈ before ++ [m]) := due m' (List.mem_append_left _ isIn)
    have first := w.linkEach_course fun m' isIn => upTo m' (List.mem_append_left _ isIn)
    have dueHere : ∀ m' ∈ [m], w.IsDue places (w.linkEach before types.2).table m' := fun m' isIn =>
      (upTo m' (List.mem_append_right _ isIn)).later first.precedes.table
    have here := w.linkEach_course dueHere
    have others := w.linkEach_course fun m' isIn =>
      (due m' (List.mem_append_right _ isIn)).later (w.linkEach_course upTo).precedes.table
    rw [← linkEach_append] at here others
    exact ⟨comes.trans first, here, others.trans goes⟩
  | @mentioned node admission type a admits is =>
    have isOpen' := admits.run.precedes.isOpenIn isOpen
    have calls : w.Calls v.mode v.scope node admission.forceFinal a _ _ _ := .mention is
    exact ⟨.of_run admits.run, .of_run (calls.run isOpen').1,
      (GoesThrough.calls admits calls).goesOn isOpen⟩

end Walk

/-- A visit that the requests come to uses the type. -/
def Context.Uses (cx : Context) (requests : List Request) (w : Walk) (u : TypeUse) (a : Context) :
    Prop :=
  ∃ v, cx.ComesTo requests w v ∧ w.Uses v u a

/-- The types that a run uses are used in states of the run: they are linked, and the run goes on. -/
theorem Context.Uses.goesOn {cx : Context} {requests : List Request} {w : Walk} {u : TypeUse}
    {a : Context} (uses : cx.Uses requests w u a) (lifecycle : cx.Lifecycle) :
    w.file.val < a.files.size ∧ Course a (w.linkUse u a)
      ∧ (w.linkUse u a).GoesOn (cx.performAll requests) := by
  obtain ⟨v, comes, uses⟩ := uses
  obtain ⟨before, linked, after⟩ := uses.course comes.isOpen (comes.lifecycle lifecycle)
  refine ⟨?_, linked, (GoesOn.course after).trans comes.goesOn⟩
  rw [before.precedes.files_size]
  exact comes.inFile

end LevelCheck
