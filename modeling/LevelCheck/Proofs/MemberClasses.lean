import LevelCheck.Proofs.DottedNames
import LevelCheck.Proofs.Landings
import LevelCheck.Proofs.Visibility
set_option autoImplicit false

/-! # Member classes by dotted name

A member of a type of the file may be written with dots anywhere in the file. The header of the file
declares its types before anything in it is visited, so wherever such a name is met, the class of the
member is among what it may denote. It need not have been declared by then: the reference waits for a
class that is literally named with dots, and is linked to the member when the run is settled. -/

namespace LevelCheck

/-! ## What a reference is linked to in the end -/

namespace Context

/-- In the end the reference is linked to the class and to no other, it is not given up, and the table
shows the class in the place that the reference fills. -/
structure LinksOnly (cx : Context) (r : Reference) (target : SymbolId) : Prop where
  links : cx.Links r target
  only : ∀ other, cx.Links r other → other = target
  kept : r.waiting ∉ cx.abandonedRefs
  shown : r.link ≠ .existence → ∃ m : Mention, m.link = r.link ∧ cx.table.Shows m (some target)

variable {units : List SourceUnit} {options : Options} {e : Event} {r : Reference} {id : SymbolId}

theorem filled_of_links {cx : Context} (links : cx.Links r id) :
    (r.link, id) ∈ cx.fillings r.link := by
  refine List.mem_filter.2 ⟨?_, beq_self_eq_true r.link⟩
  rcases links with now | ⟨-, later⟩
  · obtain ⟨e, happened, is⟩ := List.mem_filterMap.1 now
    refine List.mem_filterMap.2 ⟨e, happened, ?_⟩
    cases e with
    | linked =>
      cases is
      rfl
    | _ => cases is
  · obtain ⟨e, happened, is⟩ := List.mem_filterMap.1 later
    refine List.mem_filterMap.2 ⟨e, happened, ?_⟩
    cases e with
    | resumed =>
      cases is
      rfl
    | _ => cases is

/-- The table shows the class that a reference is linked to. -/
theorem ofUnits_shown (links : (ofUnits units options).Links r id) (real : r.link ≠ .existence) :
    ∃ m : Mention, m.link = r.link ∧ (ofUnits units options).table.Shows m (some id) := by
  obtain ⟨inPlace, inOrder⟩ := inPlace_performAll options (units.map .analyze)
  have settled := inPlace.settle inOrder
  rw [← analyzeFiles_eq_performAll] at settled
  have filled := filled_of_links links
  have account := settled.accounted.accounts r.link real List.not_mem_nil
  rcases account.untold_or_landed with untold | ⟨file, m, resolved, unit, isLink, landed⟩
  · have never : (ofUnits units options).fillings r.link = [] := untold.fillings_eq
    rw [never] at filled
    cases filled
  · refine ⟨m, isLink, ?_⟩
    have once : (ofUnits units options).fillings m.link = resolved.toList.map (m.link, ·) :=
      landed.fate.fillings_eq
    rw [isLink] at once
    rw [once] at filled
    obtain ⟨target, found, same⟩ := List.mem_map.1 filled
    obtain rfl := (Prod.mk.inj same).2
    have shown := landed.shown
    rwa [Option.mem_toList.1 found] at shown

/-- A reference is linked to a class if no other that it may denote is visited. -/
theorem Determines.linksOnly (happened : e ∈ (ofUnits units options).history.toList)
    (met : e.met? = some r) (keyed : r.key ∈ r.candidates)
    (known : id.val < (ofUnits units options).table.size)
    (determines : (ofUnits units options).Determines r ((ofUnits units options).table.symbol id).name) :
    (ofUnits units options).LinksOnly r id := by
  have settled := ofUnits_fates units options
  have resolves {r' : Reference} (same : ∀ c, c ∈ r'.candidates ↔ c ∈ r.candidates) :
      (ofUnits units options).resolves r' = true :=
    List.any_eq_true.2 ⟨_, (same _).2 determines.candidate, determines.visited⟩
  have only (other : SymbolId) (links : (ofUnits units options).Links r other) : other = id := by
    have named := (ofUnits_inOrder units options).determined r other links _ determines
    refine ofUnits_uniqueNames units options other id ?_ known named
    rcases links with now | ⟨-, later⟩
    · exact (settled.linked _ now).1
    · exact (settled.target _ later).1
  have linked : ∃ target, (ofUnits units options).Links r target := by
    cases e with
    | linked r' target =>
      obtain rfl := Option.some.inj met
      exact ⟨target, .inl (List.mem_filterMap.2 ⟨_, happened, rfl⟩)⟩
    | deferred r' =>
      obtain rfl := Option.some.inj met
      have deferred : r' ∈ (ofUnits units options).deferredRefs :=
        List.mem_filterMap.2 ⟨_, happened, rfl⟩
      exact (ofUnits_inOrder units options).found r' deferred (resolves fun _ => Iff.rfl)
    | began | resumed | abandoned => cases met
  obtain ⟨target, links⟩ := linked
  obtain rfl := only target links
  refine ⟨links, only, fun abandoned => ?_, ofUnits_shown links⟩
  -- what is given up denotes nothing, but waits for the same names
  obtain ⟨r', isIn, waits⟩ := List.mem_map.1 (settled.abandoned.mem_iff.1 abandoned)
  obtain ⟨deferred, unresolved⟩ := List.mem_filter.1 isIn
  have same (c : String) : c ∈ r'.candidates ↔ c ∈ r.candidates := by
    rw [← settled.candidates r' deferred c, waits]
    exact Reference.mem_waiting keyed c
  rw [resolves same] at unresolved
  cases unresolved

end Context

/-! ## What a walk meets -/

/-- The tree has one header, at its root. -/
structure SyntaxTree.HasOneHeader (tree : SyntaxTree) (package : Option String)
    (imports : List ImportDecl) (types : List NodeIndex) : Prop where
  root : ∃ pos, tree.arena.get? tree.root = some ⟨pos, .sourceFile package imports types⟩
  only : ∀ idx node package imports types, tree.arena.get? idx = some node →
    node.data = .sourceFile package imports types → idx = tree.root

namespace Walk

variable {w : Walk} {since a b : Context} {package : Option String} {imports : List ImportDecl}
  {types : List NodeIndex} {simple : String}

/-- The header has been read, and whatever reference has been met since a state, was looked for with the
types that it lists. -/
structure Reads (w : Walk) (since : Context) (package simple : String) (cx : Context) : Prop where
  file : ∃ f, cx.file? w.file = some f ∧ f.Declares package simple
  meets : since.Meets (Reference.Knows · package simple) cx

theorem Reads.step {package : String} (reads : w.Reads since package simple a)
    (files : b.files = a.files) (meets : a.Meets (Reference.Knows · package simple) b) :
    w.Reads since package simple b :=
  ⟨by rw [Context.file?, files]; exact reads.file, reads.meets.trans meets⟩

theorem reads_enterFile (inRun : ∃ f, a.file? w.file = some f)
    (meets : since.Meets (Reference.Knows · (package.getD "") simple) a)
    (listed : simple ∈ types.filterMap w.typeName?) :
    w.Reads since (package.getD "") simple (w.enterFile package imports types a) := by
  obtain ⟨f, inRun⟩ := inRun
  refine ⟨⟨_, ?_, FileScope.declares_header listed f package imports⟩, meets.trans (.of_same rfl)⟩
  rw [Context.file?] at inRun
  simp [Context.file?, enterFile, Context.modifyFile, Array.getElem?_modify, inRun]

/-- As long as there is no other header, a walk goes on to know the types of its file. -/
theorem reads_keeps (only : ∀ idx node package' imports' types', w.arena.get? idx = some node →
      node.data = .sourceFile package' imports' types' →
      package' = package ∧ types' = types)
    (listed : simple ∈ types.filterMap w.typeName?) :
    w.KeepsNaming (w.Reads since (package.getD "") simple) where
  same reads files history := reads.step files (.of_same history)
  links {a} scope written pos link reads := by
    refine reads.step (Context.Silent.linkType ..).files (.linkType fun f inRun => ?_)
    obtain ⟨g, inRun', declares⟩ := reads.file
    obtain rfl := Option.some.inj (inRun.symm.trans inRun')
    exact ⟨a, f, scope, _, declares, rfl⟩
  header {a idx node package' imports' types'} found is reads := by
    obtain ⟨rfl, rfl⟩ := only idx node package' imports' types' found is
    obtain ⟨f, inRun, -⟩ := reads.file
    exact reads_enterFile ⟨f, inRun⟩ reads.meets listed
  begins opens files reads := reads.step files (.begins opens)
  completes isOpen reads := reads.step (Context.Silent.defineComplete isOpen).files (.completes _ _)

/-- The first thing that a walk does at the header is to read it. -/
theorem Calls.reads {mode : BlockMode} {scope inner : WalkScope} {node : Node} {force : Bool}
    {nodes : List (BlockMode × NodeIndex)} (calls : w.Calls mode scope node force a inner nodes b)
    (data : node.data = .sourceFile package imports types)
    (inRun : ∃ f, a.file? w.file = some f)
    (meets : since.Meets (Reference.Knows · (package.getD "") simple) a)
    (listed : simple ∈ types.filterMap w.typeName?) : w.Reads since (package.getD "") simple b := by
  cases calls with
  | header is =>
    rw [data] at is
    cases is
    exact reads_enterFile inRun meets listed
  | fields is | locals is | block is | statements is | initializer is | innerInitializer is | handler is
  | loop is | fileLoop is | anonymousAtFile is =>
    rw [data] at is
    cases is
  | method is => simp [data, NodeData.methodDecl?] at is
  | mention is => simp [data, NodeData.mentioned?] at is
  | children is => simp [data, NodeData.IsPlain] at is
  | stray is => simp [data, NodeData.IsStray] at is

end Walk

/-! ## The walk of a file -/

namespace Context

variable {cx : Context} {unit : SourceUnit} {package : Option String} {imports : List ImportDecl}
  {types : List NodeIndex} {top : String}
  (headed : unit.tree.HasOneHeader package imports types)
  (listed : top ∈ types.filterMap (cx.walkOf unit).typeName?)
include headed

/-- The root of the tree declares nothing but its types. -/
theorem header_at_root {node : Node} (found : unit.tree.arena.get? unit.tree.root = some node) :
    node.data = .sourceFile package imports types := by
  obtain ⟨pos, root⟩ := headed.root
  obtain rfl := Option.some.inj (found.symm.trans root)
  rfl

include listed

theorem walkOf_reads (since : Context) :
    (cx.walkOf unit).KeepsNaming ((cx.walkOf unit).Reads since (package.getD "") top) := by
  refine Walk.reads_keeps (fun idx node package' imports' types' found is => ?_) listed
  obtain rfl := headed.only idx node package' imports' types' found is
  have data := header_at_root headed found
  rw [is] at data
  cases data
  exact ⟨rfl, rfl⟩

/-- What the header calls for is that it is read. -/
theorem root_reads {mode : BlockMode} {remaining : Nat} {inner : WalkScope} {node : Node}
    {admission : Walk.Admission} {nodes : List (BlockMode × NodeIndex)} {a b : Context}
    (found : unit.tree.arena.get? unit.tree.root = some node)
    (admits : (cx.walkOf unit).inspect remaining .file unit.tree.root node (cx.rootVisit unit).before
      = (some admission, a))
    (calls : (cx.walkOf unit).Calls mode .file node admission.forceFinal a inner nodes b) :
    (cx.walkOf unit).Reads (cx.rootVisit unit).before (package.getD "") top b := by
  obtain ⟨files, history⟩ := (cx.walkOf unit).inspect_history remaining .file unit.tree.root node
    (cx.rootVisit unit).before
  rw [admits] at files history
  refine calls.reads (header_at_root headed found) ?_ (.of_same history) listed
  rw [file?, files]
  exact ⟨_, Array.getElem?_push_size⟩

/-- Wherever the walk goes on to from the root, the types of the file are known. -/
theorem leads_reads (lifecycle : cx.Lifecycle) {u : Visit}
    (leads : (cx.walkOf unit).LeadsTo (cx.rootVisit unit) u) :
    u.scope.IsOpenIn u.before.table ∧ u.before.Lifecycle
      ∧ (cx.walkOf unit).Reads (cx.rootVisit unit).before (package.getD "") top u.before := by
  have isOpen := WalkScope.isOpenIn_file (cx.rootVisit unit).before.table
  have begun := lifecycle.addFile unit.tree.fileName unit.level
  obtain ⟨course, inside⟩ := leads.course isOpen
  refine ⟨inside, begun.course course, ?_⟩
  obtain ⟨inner, before, mode, idx, more, a, goes, rfl⟩ := leads
  obtain ⟨called, inside⟩ := goes.course isOpen
  have reads {nodes : List (BlockMode × NodeIndex)}
      (goes : (cx.walkOf unit).GoesThrough (cx.rootVisit unit) inner nodes a) :
      (cx.walkOf unit).Reads (cx.rootVisit unit).before (package.getD "") top a := by
    cases goes with
    | calls admits calls => exact root_reads headed listed admits.2.1 admits.2.2 calls
    | members accepts =>
      obtain ⟨admits, is, -⟩ := accepts
      rw [header_at_root headed admits.2.1] at is
      cases is
    | arguments admits is =>
      rw [header_at_root headed admits.2.1] at is
      cases is
    | anonymousMembers builds =>
      obtain ⟨admits, is, -⟩ := builds
      rw [header_at_root headed admits.2.1] at is
      cases is
  exact (((cx.walkOf unit).visit_journeys _).through before inside).keeps
    (walkOf_reads headed listed _).keeps (begun.course called) (reads goes)

/-- Every reference that the walk of the file meets is looked for with the types of the file. -/
theorem analyzeFile_reads (lifecycle : cx.Lifecycle) :
    cx.Meets (Reference.Knows · (package.getD "") top) (cx.analyzeFile unit).2 := by
  have added : cx.Meets (Reference.Knows · (package.getD "") top) (cx.rootVisit unit).before :=
    .of_same rfl
  refine added.trans ?_
  have inspected {remaining : Nat} {node : Node} {entry : Option Walk.Admission × Context}
      (is : (cx.walkOf unit).inspect remaining .file unit.tree.root node (cx.rootVisit unit).before
        = entry) : Course (cx.rootVisit unit).before entry.2 :=
    is ▸ .deed (.rest _) (.inspect _ (cx.walkOf unit) remaining .file unit.tree.root node)
  have journey : (cx.walkOf unit).Journey .file [(.nested, unit.tree.root)] (cx.rootVisit unit).before
      (cx.analyzeFile unit).2 := cx.analyzeFile_journey unit
  generalize (cx.analyzeFile unit).2 = last at *
  cases journey with
  | absent _ after =>
    cases after
    exact .refl _
  | refused _ _ after =>
    cases after
    refine .of_same ?_
    rw [Walk.refuseDepth_eq]
  | @skipped _ _ _ node remaining _ _ b _ _ _ skips after =>
    cases after
    obtain ⟨-, history⟩ := (cx.walkOf unit).inspect_history remaining .file unit.tree.root node
      (cx.rootVisit unit).before
    rw [skips] at history
    exact .of_same history
  | entered isOpen found admits calls inside after =>
    cases after
    have isOpen' := Walk.Journeys.isOpen_inspected isOpen admits
    have reads := root_reads headed listed found admits calls
    have called := (inspected admits).trans (.of_run (calls.run isOpen').1)
    exact (inside.keeps (walkOf_reads headed listed _).keeps
      ((lifecycle.addFile unit.tree.fileName unit.level).course called) reads).meets
  | duplicate _ found _ is | declared _ found _ is =>
    rw [header_at_root headed found] at is
    cases is
  | anonymousDuplicate _ found _ is | anonymous _ found _ is =>
    rw [header_at_root headed found] at is
    cases is

end Context

/-! ## Members of members -/

/-- The class is declared in the walk from the root on: at the top level, or as a member of a class that
is, and so on; the names of the members lead from the type at the top level to it. -/
inductive Walk.Nests (w : Walk) (root : Visit) (top : String) : List String → SymbolId → Prop where
  | top {v : Visit} {decl : TypeDecl} {id : SymbolId} {a : Context} (comes : w.Comes root v)
      (accepts : w.Accepts v decl id a) (atTop : v.scope = .file) (named : decl.name = top) :
      Nests w root top [] id
  | member {members : List String} {owner : SymbolId} {v : Visit} {decl : TypeDecl} {id : SymbolId}
      {a : Context} (outer : Nests w root top members owner) (comes : w.Comes root v)
      (accepts : w.Accepts v decl id a) (inside : v.scope = .classBody owner) :
      Nests w root top (members ++ [decl.name]) id

/-- The walk goes on to its end from where a class is accepted. -/
theorem Walk.Accepts.goesOn {w : Walk} {root v : Visit} {decl : TypeDecl} {id : SymbolId} {a : Context}
    (isOpen : root.scope.IsOpenIn root.before.table) (comes : w.Comes root v)
    (accepts : w.Accepts v decl id a) : a.GoesOn (w.after root) := by
  have isOpen' := (Comes.course isOpen comes).2
  have inside := WalkScope.isOpenIn_classBody (accepts.course isOpen').2
  have members := (through_run (w := w) inside (v.remaining - 1) (nested decl.members)).1
  have returns := ((GoesThrough.members accepts).returns isOpen').trans (comes.returns isOpen)
  exact .course ((Course.of_run members).trans returns)

namespace Context

variable {cx : Context} {unit : SourceUnit} {package : Option String} {imports : List ImportDecl}
  {types : List NodeIndex} {top : String}
  (headed : unit.tree.HasOneHeader package imports types)
  (listed : top ∈ types.filterMap (cx.walkOf unit).typeName?)
include headed listed

/-- At the end of the walk the class of a member is named by the members that lead to it. -/
theorem named_of_nests (lifecycle : cx.Lifecycle) {members : List String} {id : SymbolId}
    (nests : (cx.walkOf unit).Nests (cx.rootVisit unit) top members id) :
    (cx.analyzeFile unit).2.table.IsOpen (.symbol id)
      ∧ ((cx.analyzeFile unit).2.table.symbol id).name
        = nestedName (packagedName (package.getD "") top) members := by
  have isOpen := WalkScope.isOpenIn_file (cx.rootVisit unit).before.table
  induction nests with
  | @top v decl id a comes accepts atTop named =>
    obtain ⟨course, inside⟩ := Walk.Comes.course isOpen comes
    have goesOn := accepts.goesOn isOpen comes
    obtain ⟨-, c, -, files, placed⟩ := accepts.placed inside
    refine ⟨goesOn.table.isOpen (accepts.course inside).2, ?_⟩
    have reads : (cx.walkOf unit).Reads (cx.rootVisit unit).before (package.getD "") top v.before := by
      rcases Relation.ReflTransGen.cases_head comes with rfl | ⟨u, leads, comes'⟩
      · obtain ⟨admits, is, -⟩ := accepts
        rw [header_at_root headed admits.2.1] at is
        cases is
      · obtain ⟨isOpen', lifecycle', reads⟩ := leads_reads headed listed lifecycle leads
        exact (Walk.Comes.keeps isOpen' (walkOf_reads headed listed _).keeps lifecycle' reads comes').2
    obtain ⟨f, inRun, declares⟩ := reads.file
    have inRun' : c.file? (cx.walkOf unit).file = some f := by rw [file?, files]; exact inRun
    have known := goesOn.table.name id (accepts.course inside).2.1
    refine known.trans (placed.trans ?_)
    rw [atTop, Walk.qualifiedName, inRun', named]
    exact FileScope.qualify_of_package declares.inPackage top
  | @member members owner v decl id a outer comes accepts isInside ih =>
    obtain ⟨course, inside⟩ := Walk.Comes.course isOpen comes
    have goesOn := accepts.goesOn isOpen comes
    obtain ⟨-, c, table, -, placed⟩ := accepts.placed inside
    have older : v.before.table.IsOpen (.symbol owner) := inside _ (by rw [isInside]; rfl)
    have further := (accepts.course inside).1.precedes.table.trans goesOn.table
    refine ⟨goesOn.table.isOpen (accepts.course inside).2, ?_⟩
    have known := goesOn.table.name id (accepts.course inside).2.1
    refine known.trans (placed.trans ?_)
    rw [isInside, nestedName_concat, ← ih.2]
    show Resolution.memberName (c.table.symbol owner).name decl.name = _
    rw [table, ← further.name owner older.1]
    rfl

end Context

/-! ## Runs -/

namespace Context

variable {cx : Context} {units : List SourceUnit}

theorem Meets.mono {kind wider : Reference → Prop} {a b : Context} (le : ∀ r, kind r → wider r)
    (meets : a.Meets kind b) : a.Meets wider b := by
  obtain ⟨events, history, areSo⟩ := meets
  exact ⟨events, history, fun r isIn => le r (areSo r isIn)⟩

/-- The references that are met in further files are of those files. -/
theorem Attributed.meetsOwn (attributed : cx.Attributed units) (lifecycle : cx.Lifecycle)
    (more : List SourceUnit) : cx.Meets
      (fun r => units.length ≤ r.file.val ∧ r.file.val < units.length + more.length)
      (cx.analyzeFiles more) := by
  induction more generalizing cx units with
  | nil => exact .refl cx
  | cons unit rest ih =>
    obtain ⟨analyzed, own⟩ := attributed.analyzeFile lifecycle unit
    have later := ih analyzed ((lifecycle.addFile _ _).run (cx.analyzeFile_run unit))
    have here : cx.Meets (fun r => r.file.val = units.length) (cx.analyzeFile unit).2 := own
    refine (here.mono fun r is => ?_).trans (later.mono fun r within => ?_)
    · simp [is]
    · simp only [List.length_append, List.length_cons, List.length_nil] at within ⊢
      omega

/-- A class of which the name has been visited is the class that has been visited. -/
theorem isClassOf_of_visits (unique : cx.table.UniqueNames) {id : SymbolId}
    (known : id.val < cx.table.size) {name : String} (named : (cx.table.symbol id).name = name)
    (visited : cx.visits name) : cx.IsClassOf id [name] := by
  obtain ⟨target, within, isNamed, complete⟩ := (unique.lookupComplete_isSome name).1 visited
  obtain rfl := unique target id within known (isNamed.trans named.symm)
  exact ⟨within, complete, List.mem_singleton.2 isNamed⟩

theorem Settled.visits_iff (settled : cx.Settled) (name : String) :
    cx.visits name ↔ name ∈ Builtin.names ++ cx.declarations := by
  rw [settled.visited, List.mem_append, declarations, List.mem_filterMap]
  refine or_congr_right ⟨fun began => ⟨_, began, rfl⟩, fun listed => ?_⟩
  obtain ⟨e, happened, is⟩ := listed
  cases e with
  | began name' =>
    cases is
    exact happened
  | linked | deferred | resumed | abandoned => cases is

/-- The class of a member keeps its name to the end of a run, and is complete then. -/
theorem isClassOf_of_nests {unit : SourceUnit} {package : Option String} {imports : List ImportDecl}
    {types : List NodeIndex} {top : String} (headed : unit.tree.HasOneHeader package imports types)
    (listed : top ∈ types.filterMap (cx.walkOf unit).typeName?) (lifecycle : cx.Lifecycle)
    {members : List String} {id : SymbolId}
    (nests : (cx.walkOf unit).Nests (cx.rootVisit unit) top members id) {last : Context}
    (goesOn : (cx.analyzeFile unit).2.GoesOn last) (unique : last.table.UniqueNames)
    (settled : last.Settled) :
    last.IsClassOf id [nestedName (packagedName (package.getD "") top) members] := by
  obtain ⟨isOpen, named⟩ := named_of_nests headed listed lifecycle nests
  have analyzed := (lifecycle.addFile _ _).run (cx.analyzeFile_run unit)
  have accepted := (analyzed.declares _).1 ⟨id, isOpen.1, named, isOpen.2⟩
  refine isClassOf_of_visits unique (isOpen.1.trans_le goesOn.table.symbols)
    ((goesOn.table.name id isOpen.1).trans named) ((settled.visits_iff _).2 ?_)
  refine (List.mem_append.1 accepted).elim (List.mem_append_left _) fun declared => ?_
  exact List.mem_append_right _ ((goesOn.history.filterMap _).subset declared)

section

variable (before : List SourceUnit) (unit : SourceUnit) (after : List SourceUnit) (options : Options)

theorem ofUnits_split : ofUnits (before ++ unit :: after) options
    = ((((start options).analyzeFiles before).analyzeFile unit).2.analyzeFiles after).settle := by
  rw [ofUnits, analyzeFiles, List.foldl_append, List.foldl_cons]
  rfl

variable {before unit after options} {package : Option String} {imports : List ImportDecl}
  {types : List NodeIndex} {top : String}
  (headed : unit.tree.HasOneHeader package imports types)
  (listed : top ∈ types.filterMap (((start options).analyzeFiles before).walkOf unit).typeName?)
include headed listed

/-- The references of the file are looked for with its types, whatever files are analysed before and
after it. -/
theorem ofUnits_knows {e : Event} {r : Reference}
    (happened : e ∈ (ofUnits (before ++ unit :: after) options).history.toList)
    (met : e.met? = some r) (inFile : r.file = ⟨before.length⟩) : r.Knows (package.getD "") top := by
  let kind (r : Reference) : Prop := r.file.val = before.length → r.Knows (package.getD "") top
  have attributed := attributed_start options
  have lifecycle := lifecycle_start options
  have attributedBefore := attributed.analyzeFiles lifecycle before
  have lifecycleBefore := lifecycle.analyzeFiles before
  have attributedHere := (attributedBefore.analyzeFile lifecycleBefore unit).1
  have lifecycleHere := (lifecycleBefore.addFile _ _).run
    (((start options).analyzeFiles before).analyzeFile_run unit)
  have earlier : (start options).Meets kind ((start options).analyzeFiles before) :=
    (attributed.meetsOwn lifecycle before).mono fun r own is => by
      rw [List.length_nil] at own
      omega
  have here := (analyzeFile_reads headed listed lifecycleBefore).mono
    fun r knows => (fun _ => knows : kind r)
  have later := (attributedHere.meetsOwn lifecycleHere after).mono fun r own => (fun is => by
      simp only [List.length_append, List.length_cons, List.length_nil] at own
      omega : kind r)
  obtain ⟨events, history, areSo⟩ := ((earlier.trans here).trans later).trans (.settle _)
  rw [ofUnits_split, history] at happened
  refine areSo r (List.mem_filterMap.2 ⟨e, ?_, met⟩) (by rw [inFile])
  rwa [show (start options).history.toList = [] from rfl, List.nil_append] at happened

/-- In the end the class of a member is complete, and named by the members that lead to it. -/
theorem ofUnits_named {members : List String} {id : SymbolId}
    (nests : (((start options).analyzeFiles before).walkOf unit).Nests
      (((start options).analyzeFiles before).rootVisit unit) top members id) :
    (ofUnits (before ++ unit :: after) options).IsClassOf id
      [nestedName (packagedName (package.getD "") top) members] := by
  refine isClassOf_of_nests headed listed ((lifecycle_start options).analyzeFiles before) nests ?_
    (ofUnits_uniqueNames _ options) (ofUnits_fates _ options)
  rw [ofUnits_split, analyzeFiles_eq_performAll _ after]
  exact (GoesOn.performAll _ _).trans (.perform _ .settle)

variable (before unit after options)

/-- A member is reached by its dotted name. In the end the class of a member of a type of the file is
complete and carries the name that the members from the type down give it. Wherever in the file a type
is written as the dotted name of the member, before its declaration or after it, and whatever arguments
or brackets follow, it is linked to that class and to no other, unless a class is literally named so. -/
theorem ofUnits_reachesMembers {members : List String} {id : SymbolId}
    (nests : (((start options).analyzeFiles before).walkOf unit).Nests
      (((start options).analyzeFiles before).rootVisit unit) top members id)
    (isMember : members ≠ []) (areParts : ∀ name ∈ top :: members, IsNamePart name)
    (noOther : dottedName top members
      ∉ Builtin.names ++ (ofUnits (before ++ unit :: after) options).declarations) :
    (ofUnits (before ++ unit :: after) options).IsClassOf id
        [nestedName (packagedName (package.getD "") top) members]
      ∧ ∀ e ∈ (ofUnits (before ++ unit :: after) options).history.toList, ∀ r, e.met? = some r →
        r.file = ⟨before.length⟩ → r.IsWrittenAs (dottedName top members) →
        (ofUnits (before ++ unit :: after) options).LinksOnly r id := by
  have isClass : (ofUnits (before ++ unit :: after) options).IsClassOf id
      [nestedName (packagedName (package.getD "") top) members] := ofUnits_named headed listed nests
  refine ⟨isClass, fun e happened r met inFile isWritten => ?_⟩
  have settled := ofUnits_fates (before ++ unit :: after) options
  have named := List.mem_singleton.1 isClass.2.2
  have visited := IsClassOf.visits (ofUnits_uniqueNames (before ++ unit :: after) options) isClass
  obtain ⟨key, candidates⟩ :=
    (ofUnits_knows headed listed happened met inFile).candidates isMember areParts isWritten
  have keyed : r.key ∈ r.candidates := (candidates _).2 (.inl key)
  refine Determines.linksOnly happened met keyed isClass.1
    ⟨(candidates _).2 (.inr named), visited, fun other candidate isVisited => ?_⟩
  rcases (candidates other).1 candidate with rfl | is
  · exact absurd ((settled.visits_iff _).1 isVisited) noOther
  · exact is.trans named.symm

end

end Context

/-- A class of a package, with a member and two fields of its type, one before the member and one after
it. -/
def usesMember : SourceUnit where
  level := .full
  tree :=
    { fileName := "A.java", root := ⟨0⟩
      arena := { nodes := #[
        ⟨.nowhere, .sourceFile (some "p") [] [⟨1⟩]⟩,
        ⟨⟨1, 1⟩, .classDef [] "A" [] none [] [⟨2⟩, ⟨4⟩, ⟨5⟩]⟩,
        ⟨⟨2, 3⟩, .variableDeclaration [] [⟨3⟩]⟩,
        ⟨⟨2, 5⟩, .variableDeclarator "A.B[]" "first" none⟩,
        ⟨⟨3, 3⟩, .classDef [] "B" [] none [] []⟩,
        ⟨⟨4, 3⟩, .variableDeclaration [] [⟨6⟩]⟩,
        ⟨⟨4, 5⟩, .variableDeclarator "A.B" "second" none⟩] } }

theorem usesMember_hasOneHeader : usesMember.tree.HasOneHeader (some "p") [] [⟨1⟩] := by
  refine ⟨⟨.nowhere, rfl⟩, fun idx node package imports types found is => ?_⟩
  have found : usesMember.tree.arena.nodes[idx.val.toNat]? = some node := by
    rw [Arena.get?] at found
    split at found
    · cases found
    · exact found
  have known : idx.val.toNat < 7 := (Array.getElem?_eq_some_iff.1 found).1
  have isFirst : idx.val.toNat = 0 := by
    generalize idx.val.toNat = n at *
    interval_cases n <;> cases found <;> first | rfl | cases is
  exact congrArg NodeIndex.mk (UInt32.toNat_inj.1 isFirst)

theorem Walk.Admits.of_inspect {w : Walk} {v : Visit} {node : Node} {admission : Walk.Admission}
    (levels : 0 < v.remaining) (found : w.arena.get? v.node = some node)
    (is : (w.inspect v.remaining v.scope v.node node v.before).1 = some admission) :
    w.Admits v node admission (w.inspect v.remaining v.scope v.node node v.before).2 :=
  ⟨levels, found, Prod.ext is rfl⟩

theorem usesMember_nests : ((Context.start .usual).walkOf usesMember).Nests
    ((Context.start .usual).rootVisit usesMember) "A" ["B"] ⟨27⟩ := by
  let w := (Context.start .usual).walkOf usesMember
  let root := (Context.start .usual).rootVisit usesMember
  let file : Node := ⟨.nowhere, .sourceFile (some "p") [] [⟨1⟩]⟩
  let header : Context := (w.inspect root.remaining .file ⟨0⟩ file root.before).2
  have admits : w.Admits root file ⟨false, false⟩ header :=
    ⟨by decide, rfl, Prod.ext (by decide +kernel) rfl⟩
  let outer : Visit :=
    { remaining := root.remaining - 1, mode := .nested, scope := .file, node := ⟨1⟩
      before := w.enterFile (some "p") [] [⟨1⟩] header }
  have goes : w.GoesThrough root .file (nested [⟨1⟩]) (w.enterFile (some "p") [] [⟨1⟩] header) :=
    .calls admits (.header rfl)
  have comes : w.Comes root outer := .single ⟨.file, [], .nested, ⟨1⟩, [], _, goes, rfl⟩
  let decl : Walk.TypeDecl :=
    { modifiers := [], name := "A", typeParams := [], isInterface := false, superclass := none
      interfaces := [], members := [⟨2⟩, ⟨4⟩, ⟨5⟩] }
  let class' : Node := ⟨⟨1, 1⟩, .classDef [] "A" [] none [] [⟨2⟩, ⟨4⟩, ⟨5⟩]⟩
  let a := (w.inspect outer.remaining .file ⟨1⟩ class' outer.before).2
  have admitsOuter : w.Admits outer class' ⟨false, false⟩ a :=
    ⟨by decide, rfl, Prod.ext (by decide +kernel) rfl⟩
  let name := (w.qualifiedName .file "A" a).1
  let declInner : Walk.TypeDecl :=
    { modifiers := [], name := "B", typeParams := [], isInterface := false, superclass := none
      interfaces := [], members := [] }
  let member : Node := ⟨⟨3, 3⟩, .classDef [] "B" [] none [] []⟩
  let inner (begun : SymbolId × Context) : Visit :=
    { remaining := outer.remaining - 1, mode := .nested, scope := .classBody begun.1, node := ⟨4⟩
      before := (w.visit (outer.remaining - 1)).through (.classBody begun.1) (nested [⟨2⟩])
        (w.linkParents begun.1 ⟨1, 1⟩ name decl begun.2) }
  let inspect (v : Visit) : Option Walk.Admission × Context :=
    w.inspect v.remaining v.scope v.node member v.before
  let begin (v : Visit) : Option (SymbolId × Context) :=
    (w.qualifiedName v.scope declInner.name (inspect v).2).2.beginClass?
      (w.qualifiedName v.scope declInner.name (inspect v).2).1 v.scope.ref? declInner.head
  obtain ⟨begun, isBegun, further⟩ : ∃ r, (w.qualifiedName .file "A" a).2.beginClass? name none
      decl.head = some r ∧ ((inspect (inner r)).1 == some ⟨false, false⟩
        && (begin (inner r)).any (·.1 == ⟨27⟩)) = true :=
    (Option.any_eq_true _ _).1 (by decide +kernel)
  obtain ⟨isAdmitted, isSecond⟩ := Bool.and_eq_true_iff.1 further
  obtain ⟨second, isBegun', isId⟩ := (Option.any_eq_true _ _).1 isSecond
  have accepts : w.Accepts outer decl begun.1 _ := .intro admitsOuter rfl isBegun
  have comesInner : w.Comes root (inner begun) :=
    comes.tail ⟨.classBody begun.1, nested [⟨2⟩], .nested, ⟨4⟩, nested [⟨5⟩], _, .members accepts, rfl⟩
  have levels : 0 < (inner begun).remaining := (by decide : 0 < outer.remaining - 1)
  have isMember : w.arena.get? (inner begun).node = some member := (rfl : w.arena.get? ⟨4⟩ = some member)
  have inside : (inner begun).scope = .classBody begun.1 := rfl
  generalize inner begun = v at *
  have acceptsInner : w.Accepts v declInner second.1 _ :=
    .intro (.of_inspect levels isMember (beq_iff_eq.1 isAdmitted)) rfl isBegun'
  rw [← beq_iff_eq.1 isId]
  exact .member (.top comes accepts rfl rfl) comesInner acceptsInner inside

/-- The type of the first field waits, that of the second is linked at once, and both are linked to the
member. -/
theorem Context.ofUnits_reachesMembers_fields : ∃ id,
    (ofUnits [usesMember] .usual).IsClassOf id ["p.A$B"]
      ∧ ∃ first second : Reference,
        .deferred first ∈ (ofUnits [usesMember] .usual).history.toList
          ∧ .linked second id ∈ (ofUnits [usesMember] .usual).history.toList
          ∧ first.IsWrittenAs "A.B" ∧ second.IsWrittenAs "A.B"
          ∧ (ofUnits [usesMember] .usual).LinksOnly first id
          ∧ (ofUnits [usesMember] .usual).LinksOnly second id := by
  obtain ⟨isClass, linked⟩ := ofUnits_reachesMembers [] usesMember [] .usual usesMember_hasOneHeader
    (by decide) usesMember_nests (by decide) (by decide) (by decide +kernel)
  let f : FileScope :=
    { id := ⟨0⟩, name := "A.java", level := .full, package := "p", imports := []
      importedPackages := [Builtin.package], classes := [("A", "p.A")] }
  let early := (start .usual).reference f ⟨0⟩ none (baseTypeName ("A.B" ++ "[]")) ⟨2, 5⟩
    (.variableType ⟨0⟩)
  let late := (start .usual).reference f ⟨0⟩ none (baseTypeName ("A.B" ++ "")) ⟨4, 5⟩
    (.variableType ⟨1⟩)
  have isEarly : early.IsWrittenAs "A.B" := ⟨"[]", start .usual, f, none, by simp, rfl⟩
  have isLate : late.IsWrittenAs "A.B" := ⟨"", start .usual, f, none, by simp, rfl⟩
  have waits : .deferred early ∈ (ofUnits [usesMember] .usual).history.toList := by decide +kernel
  have found : .linked late ⟨27⟩ ∈ (ofUnits [usesMember] .usual).history.toList := by decide +kernel
  exact ⟨⟨27⟩, isClass, early, late, waits, found, isEarly, isLate,
    linked _ waits early rfl rfl isEarly, linked _ found late rfl rfl isLate⟩

end LevelCheck
