import LevelCheck.Proofs.Ancestors
import LevelCheck.Proofs.DeclaredRecords
import LevelCheck.Proofs.ObjectReferences
import LevelCheck.Proofs.ScopeMirror
import LevelCheck.Proofs.VisitInduction
set_option autoImplicit false

/-! # Where nodes are offered to the policy

The walk knows the scope of a node from the symbol table: whether it lies in a constructor is read from
the method around its body, across the blocks that were opened on the way. The ancestors of the node
say the same. So the policy is told of every node what its ancestors say, and it objects to a reference
to the object if and only if the ancestors say that it lies in the body of a constructor. -/

namespace LevelCheck

/-! ## Scopes in constructors -/

namespace SymbolTable

variable {t u : SymbolTable}

/-- The scope is the body of a constructor or lies in one. -/
def liesInConstructor (t : SymbolTable) (scope : ScopeRef) : Bool :=
  (t.enclosingMethod? scope).any fun id => (t.method id).isConstructor

theorem isConstructor_eq (t : SymbolTable) (body : BodyId) :
    t.isConstructor body = t.liesInConstructor body.scope := by
  rw [isConstructor, liesInConstructor]
  cases t.enclosingMethod? body.scope <;> rfl

@[simp] theorem liesInConstructor_symbol (t : SymbolTable) (id : SymbolId) :
    t.liesInConstructor (.symbol id) = false := by
  simp [liesInConstructor, enclosingMethod?, enclosingMethodFrom?]

@[simp] theorem liesInConstructor_method (t : SymbolTable) (id : MethodId) :
    t.liesInConstructor (.method id) = (t.method id).isConstructor := by
  simp [liesInConstructor, enclosingMethod?, enclosingMethodFrom?]

theorem ScopeTree.liesInConstructor_block (scopes : t.ScopeTree) {id : BlockId}
    (isOpen : t.IsOpen (.block id)) :
    t.liesInConstructor (.block id) = t.liesInConstructor (t.block id).outer := by
  rw [liesInConstructor, scopes.enclosingMethod_block isOpen, liesInConstructor]

/-- An open scope lies in a constructor as long as it did. The induction follows the blocks outward,
where their numbers go down. -/
theorem KeepsRecords.liesInConstructor (keeps : t.KeepsRecords u) (scopes : t.ScopeTree)
    (scopes' : u.ScopeTree) {scope : ScopeRef} (isOpen : t.IsOpen scope) :
    u.liesInConstructor scope = t.liesInConstructor scope := by
  have method (id : MethodId) (isOpen : t.IsOpen (.method id)) :
      u.liesInConstructor (.method id) = t.liesInConstructor (.method id) := by
    rw [liesInConstructor_method, liesInConstructor_method]
    exact keeps.method id isOpen
  have block (n : Nat) : ∀ id : BlockId, id.val < n → t.IsOpen (.block id) →
      u.liesInConstructor (.block id) = t.liesInConstructor (.block id) := by
    induction n with
    | zero => exact fun id below => absurd below (Nat.not_lt_zero _)
    | succ n ih =>
      intro id below isOpen
      rw [scopes.liesInConstructor_block isOpen,
        scopes'.liesInConstructor_block (keeps.grows.isOpen isOpen), keeps.grows.outer id isOpen]
      have outside := scopes.outer_isOpen isOpen
      have inward (outer : BlockId) (is : (t.block id).outer = .block outer) :=
        scopes.inward id outer (is ▸ if_pos isOpen)
      cases outer : (t.block id).outer with
      | symbol owner => rw [liesInConstructor_symbol, liesInConstructor_symbol]
      | method m => exact method m (outer ▸ outside)
      | block b =>
        have := inward b outer
        exact ih b (by omega) (outer ▸ outside)
  cases scope with
  | symbol id => rw [liesInConstructor_symbol, liesInConstructor_symbol]
  | method id => exact method id isOpen
  | block id => exact block (id.val + 1) id (Nat.lt_succ_self _) isOpen

end SymbolTable

namespace Walk

/-- A scope of the walk lies in a constructor as the table says. -/
theorem inConstructor_eq (scope : WalkScope) (cx : Context) :
    inConstructor scope cx = scope.ref?.any cx.table.liesInConstructor := by
  cases scope with
  | file => rfl
  | classBody id => exact (cx.table.liesInConstructor_symbol id).symm
  | body id => exact cx.table.isConstructor_eq id

/-! ## Scopes and ancestors -/

/-- The scope is what the ancestors of a node say of where it lies. -/
structure LiesAt (cx : Context) (scope : WalkScope) (path : Ancestry) : Prop where
  kind : scope.kind = path.kind
  inConstructor : scope.ref?.any cx.table.liesInConstructor = path.reachesConstructor

namespace LiesAt

variable {a b : Context} {scope inner : WalkScope} {path : Ancestry}

/-- Nothing that a walk does changes where an open scope lies. -/
theorem course (lies : LiesAt a scope path) (owned : a.Owned) (isOpen : scope.IsOpenIn a.table)
    (course : Course a b) : LiesAt b scope path := by
  refine ⟨lies.kind, ?_⟩
  rw [← lies.inConstructor]
  cases inScope : scope.ref? with
  | none => rfl
  | some ref =>
    exact course.keepsRecords.liesInConstructor owned.forest.scopes
      (owned.steps course.steps).forest.scopes (isOpen ref inScope)

theorem run (lies : LiesAt a scope path) (owned : a.Owned) (isOpen : scope.IsOpenIn a.table)
    (run : Run a b) : LiesAt b scope path :=
  lies.course owned isOpen (.of_run run)

/-- A part that does not change the scope. -/
theorem other (lies : LiesAt a scope path) (data : NodeData) :
    LiesAt a scope (⟨data, .other⟩ :: path) := ⟨lies.kind, lies.inConstructor⟩

/-- The members of a class are at its boundary. -/
theorem member (cx : Context) (id : SymbolId) (data : NodeData) (path : Ancestry) :
    LiesAt cx (.classBody id) (⟨data, .member⟩ :: path) :=
  ⟨rfl, cx.table.liesInConstructor_symbol id⟩

/-- A block that is opened lies where the scope around it does. -/
theorem opened (lies : LiesAt a scope path) (owned : a.Owned) (isOpen : scope.IsOpenIn a.table)
    {ref : ScopeRef} (inScope : scope.ref? = some ref) {within : Ancestry}
    (kind : within.kind = .body) (reaches : within.reachesConstructor = path.reachesConstructor) :
    LiesAt (inBlock ref a) (.body (.block (a.table.addBlock ref).1)) within := by
  have around := isOpen ref inScope
  have opened := addBlock_run around
  have outer : ((inBlock ref a).table.block (a.table.addBlock ref).1).outer = ref := by
    rw [inBlock, (a.table.addBlock_isNew ref).2]
  have scopes := (owned.steps opened.steps).forest.scopes
  have same : (inBlock ref a).table.liesInConstructor (.block (a.table.addBlock ref).1)
      = (inBlock ref a).table.liesInConstructor ref := by
    rw [scopes.liesInConstructor_block (addBlock_isOpen a.table ref), outer]
  have still := (lies.run owned isOpen opened).inConstructor
  rw [inScope] at still
  exact ⟨kind.symm, same.trans (still.trans reaches.symm)⟩

end LiesAt

end Walk

/-- A file keeps its level. -/
theorem Context.Precedes.level {a b : Context} (precedes : a.Precedes b) (w : Walk) :
    w.level b = w.level a := by
  have same := congrArg (fun files => files[w.file.val]?.map (·.2.2)) precedes.files
  simp only [Array.getElem?_map, Option.map_map, Function.comp_def] at same
  rw [Walk.level, Walk.level, Context.file?, Context.file?]
  cases here : b.files[w.file.val]? <;> cases there : a.files[w.file.val]? <;> simp_all

/-! ## Where a walk goes on -/

namespace NodeData

variable {data : NodeData}

theorem parts_of_plain (plain : data.IsPlain) : data.parts = data.children.map (.other, ·) := by
  cases data with
  | variableDeclarator | tryCatch | expressionStatement | returnStatement | ifStatement
  | whileStatement | binary | unary | assignment | literal | nameReference | fieldAccess
  | methodInvocation | thisReference => rfl
  | _ => exact plain.elim

theorem parts_of_mentioned {type : String} (is : data.mentioned? = some type) :
    data.parts = data.children.map (.other, ·) := by
  cases data with
  | instantiation | cast => rfl
  | _ => cases is

theorem parts_of_typeDecl {decl : Walk.TypeDecl} (is : data.typeDecl? = some decl) :
    data.parts = decl.members.map (.member, ·) := by
  cases data with
  | classDef | interfaceDef =>
    cases is
    rfl
  | _ => cases is

theorem body_mem_parts {decl : Walk.MethodDecl} (is : data.methodDecl? = some decl) :
    ∀ body ∈ decl.body.toList, (.body, body) ∈ data.parts := by
  intro body isBody
  cases data with
  | methodDef | constructorDef =>
    cases is
    simpa [parts] using isBody
  | _ => cases is

theorem isConstructor_of_methodDecl {decl : Walk.MethodDecl} (is : data.methodDecl? = some decl) :
    decl.isConstructor = (data.kind == .constructorDef) := by
  cases data with
  | methodDef | constructorDef =>
    cases is
    rfl
  | _ => cases is

end NodeData

namespace Walk

variable {w : Walk} {root : NodeIndex}

/-- A node that is visited in a scope has the ancestors, and they say where the scope lies. -/
structure Stands (w : Walk) (root : NodeIndex) (cx : Context) (scope : WalkScope)
    (entry : BlockMode × NodeIndex) (path : Ancestry) : Prop where
  above : w.arena.HasAncestors root entry.2 path
  lies : LiesAt cx scope path
  /-- Only in a body a block can belong to the scope around it. -/
  inline : entry.1 = .inline → path.kind = .body

/-- A method is known as a constructor if it is declared as one. -/
theorem enterMethod_isConstructor {owner : SymbolId} {node : Node} {decl : MethodDecl} {a : Context}
    (owned : a.Owned) (isOpen : a.table.IsOpen (.symbol owner))
    (is : node.data.methodDecl? = some decl) :
    (w.enterMethod owner node.pos decl a).2.table.liesInConstructor
      (.method (w.enterMethod owner node.pos decl a).1) = (node.data.kind == .constructorDef) := by
  have entry : w.Entry .nested (.classBody owner) node a _ _ _ := enterMethod_entry owned isOpen is
  generalize decl.body.toList.map (BlockMode.inline, ·) = nodes at entry
  cases entry with
  | method is' _ _ _ _ _ isConstructor =>
    rw [SymbolTable.liesInConstructor_method, isConstructor]
    exact NodeData.isConstructor_of_methodDecl is'

section

variable {idx : NodeIndex} {node : Node} {path : Ancestry} (found : w.arena.get? idx = some node)
  (above : w.arena.HasAncestors root idx path)
include found above

/-- The children that form a part of a node are visited in a scope that lies there. -/
theorem stands_part {cx : Context} {inner : WalkScope} (part : Part) (children : List NodeIndex)
    (mode : BlockMode) (areParts : ∀ c ∈ children, (part, c) ∈ node.data.parts)
    (lies : LiesAt cx inner (⟨node.data, part⟩ :: path))
    (inline : mode = .inline → Ancestry.kind (⟨node.data, part⟩ :: path) = .body) :
    ∀ entry ∈ children.map (mode, ·), ∃ further, w.Stands root cx inner entry further := by
  intro entry isIn
  obtain ⟨c, isChild, rfl⟩ := List.mem_map.1 isIn
  exact ⟨_, above.child found (areParts c isChild), lies, inline⟩

theorem stands_nested {cx : Context} {inner : WalkScope} (part : Part) (children : List NodeIndex)
    (areParts : ∀ c ∈ children, (part, c) ∈ node.data.parts)
    (lies : LiesAt cx inner (⟨node.data, part⟩ :: path)) :
    ∀ entry ∈ nested children, ∃ further, w.Stands root cx inner entry further :=
  stands_part found above part children .nested areParts lies (by simp)

/-- The initializer of a variable lies in its declarator. -/
theorem stands_initializers {cx : Context} {scope : WalkScope} {modifiers : List Modifier}
    {declarators : List NodeIndex} (is : node.data = .variableDeclaration modifiers declarators)
    (lies : LiesAt cx scope path) :
    ∀ entry ∈ nested ((w.declarators modifiers declarators).filterMap (·.2)),
      ∃ further, w.Stands root cx scope entry further := by
  intro entry isIn
  obtain ⟨init, isInit, rfl⟩ := List.mem_map.1 isIn
  obtain ⟨⟨d, written⟩, isDeclarator, rfl⟩ := List.mem_filterMap.1 isInit
  obtain ⟨declarator, listed, read⟩ := List.mem_filterMap.1 isDeclarator
  have isPart : (.other, declarator) ∈ node.data.parts := by
    rw [is]
    exact List.mem_map_of_mem listed
  have around := above.child found isPart
  rw [declarator?] at read
  cases there : w.arena.get? declarator with
  | none => simp [there] at read
  | some inner =>
    have isPart : (.other, init) ∈ inner.data.parts := by
      cases data : inner.data <;> simp [there, data] at read
      simp [NodeData.parts, NodeData.children, read]
    exact ⟨_, around.child there isPart, (lies.other node.data).other inner.data, by simp⟩

end

theorem Calls.stands {mode : BlockMode} {scope inner : WalkScope} {idx : NodeIndex} {node : Node}
    {force : Bool} {nodes : List (BlockMode × NodeIndex)} {a b : Context} {path : Ancestry}
    (calls : w.Calls mode scope node force a inner nodes b) (owned : a.Owned)
    (isOpen : scope.IsOpenIn a.table) (found : w.arena.get? idx = some node)
    (stands : w.Stands root a scope (mode, idx) path) :
    ∀ entry ∈ nodes, ∃ further, w.Stands root b inner entry further := by
  obtain ⟨above, lies, inline⟩ := stands
  have still : LiesAt b scope path := lies.run owned isOpen (calls.run isOpen).1
  have areParts {part : Part} {children : List NodeIndex}
      (is : node.data.parts = children.map (part, ·)) : ∀ c ∈ children, (part, c) ∈ node.data.parts := by
    rw [is]
    exact fun c isIn => List.mem_map_of_mem isIn
  cases calls with
  | header is =>
    exact stands_nested found above .other _ (areParts (by rw [is]; rfl)) (still.other _)
  | @method decl owner is inClass =>
    subst inClass
    have isConstructor := enterMethod_isConstructor (w := w) owned (isOpen _ rfl) is
    exact stands_part found above .body _ .inline (NodeData.body_mem_parts is) ⟨rfl, isConstructor⟩
      fun _ => rfl
  | fields is => exact stands_initializers found above is still
  | locals is => exact stands_initializers found above is still
  | block is _ inScope =>
    exact stands_nested found above .statement _ (areParts (by rw [is]; rfl))
      (lies.opened owned isOpen inScope rfl rfl)
  | statements is joins =>
    exact stands_nested found above .statement _ (areParts (by rw [is]; rfl))
      ⟨lies.kind.trans (inline joins), lies.inConstructor⟩
  | @initializer body _ is inClass =>
    subst inClass
    have kind : Ancestry.kind (⟨node.data, .initializer⟩ :: path) = .body := by
      rw [Ancestry.kind, ← lies.kind]
      rfl
    exact stands_part found above .initializer [body] .inline (areParts (by rw [is]; rfl))
      (lies.opened owned isOpen rfl kind rfl) fun _ => kind
  | @innerInitializer body _ is inBody =>
    subst inBody
    have kind : Ancestry.kind (⟨node.data, .initializer⟩ :: path) = .body := by
      rw [Ancestry.kind, ← lies.kind]
      rfl
    exact stands_nested found above .initializer [body] (areParts (by rw [is]; rfl))
      ⟨kind.symm, lies.inConstructor⟩
  | @handler exception handler outer is inBody =>
    subst inBody
    have opened := addBlock_run (isOpen outer.scope rfl)
    have inside := addBlock_isOpen a.table outer.scope
    have entered : Run (inBlock outer.scope a) _ := w.enterException_run inside exception
    have placed : LiesAt (inBlock outer.scope a) _ (⟨node.data, .handler⟩ :: path) :=
      lies.opened owned isOpen rfl rfl rfl
    refine stands_part found above .handler [handler] .inline ?_
      (placed.run (owned.steps opened.steps) (WalkScope.isOpenIn_body inside) entered) fun _ => rfl
    rw [is]
    simp [NodeData.parts]
  | loop is inScope =>
    have kind : Ancestry.kind (⟨node.data, .loop⟩ :: path) = .body := by
      rw [Ancestry.kind, ← lies.kind]
      cases scope with
      | file => cases inScope
      | classBody | body => rfl
    exact stands_nested found above .loop _ (areParts (by rw [is]; rfl))
      (lies.opened owned isOpen inScope kind rfl)
  | fileLoop is outside =>
    subst outside
    have kind : Ancestry.kind (⟨node.data, .loop⟩ :: path) = .file := by
      rw [Ancestry.kind, ← lies.kind]
      rfl
    exact stands_nested found above .loop _ (areParts (by rw [is]; rfl)) ⟨kind.symm, lies.inConstructor⟩
  | mention is =>
    exact stands_nested found above .other _ (areParts (NodeData.parts_of_mentioned is)) (still.other _)
  | anonymousAtFile is =>
    refine stands_nested found above .other _ (fun c isIn => ?_) (still.other _)
    rw [is]
    exact List.mem_append_left _ (List.mem_map_of_mem isIn)
  | children plain =>
    exact stands_nested found above .other _ (areParts (NodeData.parts_of_plain plain)) (still.other _)
  | stray => simp

/-- The ancestors of the node that is visited say where the visit is. -/
structure Fits (w : Walk) (root : NodeIndex) (v : Visit) (path : Ancestry) : Prop where
  owned : v.before.Owned
  isOpen : v.scope.IsOpenIn v.before.table
  level : w.level v.before = w.policy
  stands : w.Stands root v.before v.scope (v.mode, v.node) path

section

variable {v u : Visit} {path : Ancestry} (here : w.Fits root v path)
include here

theorem GoesThrough.stands {inner : WalkScope} {nodes : List (BlockMode × NodeIndex)} {a : Context}
    (goes : w.GoesThrough v inner nodes a) :
    ∀ entry ∈ nodes, ∃ further, w.Stands root a inner entry further := by
  have above := here.stands.above
  cases goes with
  | calls admits calls =>
    have run := admits.run
    have stands : w.Stands root _ v.scope (v.mode, v.node) path :=
      ⟨above, here.stands.lies.run here.owned here.isOpen run, here.stands.inline⟩
    exact calls.stands (here.owned.steps run.steps) (run.precedes.isOpenIn here.isOpen) admits.2.1 stands
  | members accepts =>
    obtain ⟨admits, is, -⟩ := accepts
    refine stands_nested admits.2.1 above .member _ (fun c isIn => ?_) (.member _ _ _ _)
    rw [NodeData.parts_of_typeDecl is]
    exact List.mem_map_of_mem isIn
  | arguments admits is =>
    have still := here.stands.lies.run here.owned here.isOpen admits.run
    refine stands_nested admits.2.1 above .other _ (fun c isIn => ?_) (still.other _)
    rw [is]
    exact List.mem_append_left _ (List.mem_map_of_mem isIn)
  | anonymousMembers builds =>
    obtain ⟨admits, is, -⟩ := builds
    refine stands_nested admits.2.1 above .member _ (fun c isIn => ?_) (.member _ _ _ _)
    rw [is]
    exact List.mem_append_right _ (List.mem_map_of_mem isIn)

/-- Wherever a walk goes on to, the ancestors of the node say where it is. -/
theorem LeadsTo.fits (leads : w.LeadsTo v u) : ∃ further, w.Fits root u further := by
  obtain ⟨course, isOpen⟩ := leads.course here.isOpen
  have level : w.level u.before = w.policy := (course.precedes.level w).trans here.level
  have owned := here.owned.steps course.steps
  obtain ⟨inner, before, mode, idx, more, a, goes, rfl⟩ := leads
  obtain ⟨further, above, lies, inline⟩ := goes.stands here (mode, idx) (by simp)
  obtain ⟨first, inside⟩ := goes.course here.isOpen
  have run := (through_run (w := w) inside (v.remaining - 1) before).1
  exact ⟨further, owned, isOpen, level, above, lies.run (here.owned.steps first.steps) inside run, inline⟩

end

/-! ## What the policy is told -/

/-- What the trail says of a node is what the ancestors of the node say: where it appears, and whether
it lies in the body of a constructor. -/
structure TellsPlace (w : Walk) (root : NodeIndex) (path : Ancestry) (e : Encounter) : Prop where
  above : w.arena.HasAncestors root e.node path
  found : (w.arena.get? e.node).isSome
  offer : ∀ o ∈ e.offer, w.arena.get? e.node = some o.node ∧ o.scope = path.kind
    ∧ o.inConstructor = path.inConstructor ∧ o.level = w.policy

/-- What the walk has come to in between is told with the ancestors of each node. -/
structure TellsPlaces (w : Walk) (root : NodeIndex) (met : List (Ancestry × Encounter))
    (a b : Context) : Prop where
  trail : b.trail.toList = a.trail.toList ++ met.map Prod.snd
  places : ∀ entry ∈ met, w.TellsPlace root entry.1 entry.2

namespace TellsPlaces

variable {met later : List (Ancestry × Encounter)} {a b c : Context}

theorem of_trail (trail : b.trail = a.trail) : w.TellsPlaces root [] a b :=
  ⟨by rw [trail]; exact (List.append_nil _).symm, List.forall_mem_nil _⟩

theorem append (first : w.TellsPlaces root met a b) (second : w.TellsPlaces root later b c) :
    w.TellsPlaces root (met ++ later) a c where
  trail := by rw [second.trail, first.trail, List.map_append, List.append_assoc]
  places := List.forall_mem_append.2 ⟨first.places, second.places⟩

theorem single {path : Ancestry} {e : Encounter} (trail : b.trail = a.trail.push e)
    (tells : w.TellsPlace root path e) : w.TellsPlaces root [(path, e)] a b where
  trail := by rw [trail, Array.toList_push]; rfl
  places := List.forall_mem_singleton.2 tells

end TellsPlaces

theorem Fits.refuseDepth {v : Visit} {path : Ancestry} {node : Node} (fits : w.Fits root v path)
    (found : w.arena.get? v.node = some node) :
    ∃ met, w.TellsPlaces root met v.before (w.refuseDepth v.node node v.before) := by
  have trail : (w.refuseDepth v.node node v.before).trail
      = v.before.trail.push (w.encounter v.node 0 none v.before) := by rw [w.refuseDepth_eq]
  have exists' : (w.arena.get? v.node).isSome := by rw [found]; rfl
  refine ⟨_, .single trail ⟨fits.stands.above, exists', fun o offered => ?_⟩⟩
  cases offered

/-- A node is offered with what its ancestors say. -/
theorem Fits.inspect {v : Visit} {path : Ancestry} {node : Node} (fits : w.Fits root v path)
    (found : w.arena.get? v.node = some node) :
    ∃ met, w.TellsPlaces root met v.before (w.inspect v.remaining v.scope v.node node v.before).2 := by
  have exists' : (w.arena.get? v.node).isSome := by rw [found]; rfl
  have inConstructor : inConstructor v.scope v.before = path.inConstructor := by
    rw [Ancestry.inConstructor_eq, ← fits.stands.lies.inConstructor]
    exact inConstructor_eq v.scope v.before
  have offer : ∀ o ∈ (w.inspected v.remaining v.scope v.node node v.before).offer,
      o = w.offer v.scope node v.before := by
    intro o offered
    unfold inspected encounter at offered
    split at offered
    · cases offered
    · exact (Option.some.inj offered).symm
  refine ⟨_, .single (w.inspect_trail v.before v.remaining v.scope v.node node)
    ⟨fits.stands.above, exists', fun o offered => ?_⟩⟩
  rw [offer o offered]
  exact ⟨found, fits.stands.lies.kind, inConstructor, fits.level⟩

/-- Whatever a walk comes to, its trail tells with the ancestors of each node. -/
theorem tellsPlaces_relates (w : Walk) (root : NodeIndex) :
    w.Relates fun v a b => ∀ path, w.Fits root v path → ∃ met, w.TellsPlaces root met a b where
  rest _ _ _ _ := ⟨[], .of_trail rfl⟩
  trans first second path fits := by
    obtain ⟨met, tells⟩ := first path fits
    obtain ⟨later, tells'⟩ := second path fits
    exact ⟨_, tells.append tells'⟩
  leads leads tells path fits := by
    obtain ⟨further, fits⟩ := leads.fits fits
    exact tells further fits
  refuses found _ _ fits := fits.refuseDepth found
  inspects found _ _ fits := fits.inspect found
  calls _ _ calls _ _ := ⟨[], .of_trail calls.trail⟩
  refusesName _ _ _ _ _ _ := ⟨[], .of_trail (w.qualifiedName_trail ..)⟩
  declares {v _ _ decl _ a b} _ _ _ begun inspected path fits := by
    obtain ⟨met, tells⟩ := inspected path fits
    have begins := Context.beginClass_trail (w.qualifiedName v.scope decl.name a).2 begun
    refine ⟨met ++ [], tells.append (.of_trail ?_)⟩
    rw [linkParents, linkInterfaces_trail, linkSuperclass_trail, begins, qualifiedName_trail]
  refusesNumber _ _ _ _ _ := ⟨[], .of_trail rfl⟩
  declaresAnonymous {_ _ ref _ _ _ a b} _ _ begun _ _ := by
    have begins : b.trail = a.trail := Context.beginClass_trail (numbered ref a) begun
    refine ⟨[], .of_trail ?_⟩
    rw [Context.linkType_trail, begins]
  completes _ _ _ _ := ⟨[], .of_trail (Context.defineComplete_trail ..)⟩

end Walk

/-! ## Runs -/

/-- The records of a code that a policy may raise are among those that policies have made. -/
theorem ErrorLog.coded_eq_rulings (log : ErrorLog) {code : UInt32} (isRuled : isRuledCode code = true) :
    log.coded code = log.rulings.filter (·.code == code) := by
  rw [coded, rulings, List.filter_filter]
  refine List.filter_congr fun d _ => ?_
  by_cases is : d.code = code
  · simp [Diagnostic.isRuled, is, isRuled]
  · simp [is]

/-- The record of a node that has been offered with its ancestors: of a reference to the object that
lies in the body of a constructor, by what the ancestors say. -/
def SourceUnit.objection? (unit : SourceUnit) (path : Ancestry) (e : Encounter) : Option Diagnostic :=
  match e.offer with
  | some o =>
    if o.node.kind = .thisReference ∧ path.inConstructor = true then
      some (.ofProblem unit.tree.fileName o.node.pos (.thisInConstructor unit.level))
    else none
  | none => none

namespace Walk

/-- What the policy of a file records of a node under the code is known from its ancestors. -/
theorem TellsPlace.objections {cx : Context} {unit : SourceUnit} {root : NodeIndex} {path : Ancestry}
    {e : Encounter} (tells : (cx.walkOf unit).TellsPlace root path e)
    (low : unit.level = .elementary ∨ unit.level = .intermediate) :
    ((cx.walkOf unit).judged unit.tree.fileName e).filter (·.code == 1004)
      = (unit.objection? path e).toList := by
  unfold judged SourceUnit.objection?
  cases offered : e.offer with
  | none => rfl
  | some o =>
    obtain ⟨-, scope, inConstructor, level⟩ := tells.offer o offered
    have inBody : o.inConstructor = true → o.scope = .body := fun inside => by
      rw [inConstructor, Ancestry.inConstructor_eq] at inside
      exact scope.trans (Ancestry.kind_of_reachesConstructor inside)
    have level : o.level = unit.level := level
    have ruled := Policy.objections low o unit.tree.fileName o.node.pos
    simp only
    rw [show (cx.walkOf unit).policy = unit.level from rfl, ruled, level, ← inConstructor]
    by_cases isObject : o.node.kind = .thisReference ∧ o.inConstructor = true
    · rw [if_pos ⟨isObject.1, inBody isObject.2, isObject.2⟩, if_pos isObject]
      rfl
    · rw [if_neg fun is => isObject ⟨is.1, is.2.2⟩, if_neg isObject]
      rfl

end Walk

namespace Context

open Walk

/-- When a file is analysed in the course of a run, the policy is told of every node that it is offered
what the ancestors of the node say, and nothing else decides on it: where the node appears, and whether
it lies in the body of a constructor. In a tree the ancestors are those of the node. At the two most
restricted levels a reference to the object is recorded, once for each time that it is offered, if and
only if its ancestors say that it lies in the body of a constructor. -/
theorem analyzeFile_tellsPlaces (options : Options) (requests : List Request) (unit : SourceUnit) :
    let cx := (start options).performAll requests
    ∃ met, (cx.walkOf unit).TellsPlaces unit.tree.root met cx (cx.analyzeFile unit).2
      ∧ (unit.tree.arena.FormsTree unit.tree.root → ∀ entry ∈ met, ∀ path,
          unit.tree.arena.HasAncestors unit.tree.root entry.2.node path → path = entry.1)
      ∧ (unit.level = .elementary ∨ unit.level = .intermediate →
          (cx.analyzeFile unit).2.log.coded 1004
            = cx.log.coded 1004 ++ met.filterMap fun entry => unit.objection? entry.1 entry.2) := by
  intro cx
  let w := cx.walkOf unit
  have owned : cx.Owned := (owned_start options).performAll requests
  have isOpen := WalkScope.isOpenIn_file (cx.rootVisit unit).before.table
  have inRun : (cx.addFile unit.tree.fileName unit.level).2.file? w.file
      = some (.start w.file unit.tree.fileName unit.level) := by
    simp [w, file?, addFile, walkOf]
  have fits : w.Fits unit.tree.root (cx.rootVisit unit) [] :=
    { owned := owned.addFile unit.tree.fileName unit.level
      isOpen
      level := by rw [Walk.level, rootVisit, inRun]; rfl
      stands := ⟨.root, ⟨rfl, rfl⟩, by simp [rootVisit]⟩ }
  obtain ⟨met, tells⟩ := (w.tellsPlaces_relates unit.tree.root).visit (cx.rootVisit unit) isOpen [] fits
  have tells : w.TellsPlaces unit.tree.root met cx (cx.analyzeFile unit).2 := ⟨tells.trail, tells.places⟩
  refine ⟨met, tells, fun tree entry isIn path above => ?_, fun low => ?_⟩
  · have place := tells.places entry isIn
    exact tree.ancestors_unique place.above above place.found
  · obtain ⟨visited, passes⟩ := (cx.analyzeFile_tour unit).passes
    obtain rfl : visited = met.map Prod.snd :=
      List.append_cancel_left (passes.trail.symm.trans tells.trail)
    have name : (cx.addFile unit.tree.fileName unit.level).2.fileName w.file = unit.tree.fileName := by
      rw [fileName, inRun]
      rfl
    have ruled := congrArg (List.filter (·.code == 1004)) passes.ruled
    rw [List.filter_append, ← ErrorLog.coded_eq_rulings _ rfl, ← ErrorLog.coded_eq_rulings _ rfl,
      List.filter_flatMap, List.flatMap_map, name] at ruled
    refine ruled.trans (congrArg (cx.log.coded 1004 ++ ·) ?_)
    rw [List.filterMap_eq_flatMap_toList]
    exact List.flatMap_congr fun entry isIn => (tells.places entry isIn).objections low

/-- A constructor that refers to its object, and builds an anonymous class in which a method refers to
its own. -/
def objects : SourceUnit where
  level := .intermediate
  tree :=
    { fileName := "A.dj1", root := ⟨0⟩
      arena := { nodes := #[
        ⟨.nowhere, .sourceFile none [] [⟨1⟩]⟩,
        ⟨⟨1, 1⟩, .classDef [] "A" [] none [] [⟨2⟩]⟩,
        ⟨⟨2, 3⟩, .constructorDef [] "A" [] [] ⟨3⟩⟩,
        ⟨⟨2, 7⟩, .block [⟨4⟩, ⟨6⟩]⟩,
        ⟨⟨3, 5⟩, .expressionStatement ⟨5⟩⟩,
        ⟨⟨3, 5⟩, .thisReference none⟩,
        ⟨⟨4, 5⟩, .expressionStatement ⟨7⟩⟩,
        ⟨⟨4, 5⟩, .anonymousClass none "Object" [] [⟨8⟩]⟩,
        ⟨⟨4, 20⟩, .methodDef [] [] "void" "m" [] [] (some ⟨9⟩)⟩,
        ⟨⟨4, 29⟩, .block [⟨10⟩]⟩,
        ⟨⟨5, 7⟩, .expressionStatement ⟨11⟩⟩,
        ⟨⟨5, 7⟩, .thisReference none⟩] } }

/-- Only the first of the two references is recorded. -/
theorem analyzeFile_tellsPlaces_objects :
    let cx := (start .usual).performAll []
    ((cx.analyzeFile objects).2.log.coded 1004).map Diagnostic.line = [3]
      ∧ ∃ met, (cx.walkOf objects).TellsPlaces ⟨0⟩ met cx (cx.analyzeFile objects).2
        ∧ (∀ entry ∈ met, ∀ path, objects.tree.arena.HasAncestors ⟨0⟩ entry.2.node path → path = entry.1)
        ∧ (cx.analyzeFile objects).2.log.coded 1004
            = met.filterMap fun entry => objects.objection? entry.1 entry.2 := by
  have tree : objects.tree.arena.FormsTree ⟨0⟩ :=
    Arena.formsTree_of_closed [⟨0⟩, ⟨1⟩, ⟨2⟩, ⟨3⟩, ⟨4⟩, ⟨5⟩, ⟨6⟩, ⟨7⟩, ⟨8⟩, ⟨9⟩, ⟨10⟩, ⟨11⟩] (by decide)
      (by decide) (by decide) (by decide +kernel) (by decide)
  obtain ⟨met, tells, only, objections⟩ := analyzeFile_tellsPlaces .usual [] objects
  exact ⟨by decide +kernel, met, tells, only tree, objections (.inr rfl)⟩

end Context

end LevelCheck
