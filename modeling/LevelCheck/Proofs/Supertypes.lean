import LevelCheck.Proofs.SupertypeRecords
import LevelCheck.Proofs.VisitInduction
set_option autoImplicit false

/-! # Unfit supertypes are recorded

At the end of a run, the records that a class extends an interface and that a class is implemented are
as many as there are such supertypes in the table, and each stands where the supertype is written. So
it makes no difference when a supertype has been linked. Anonymous classes have no part in this. -/

namespace LevelCheck

/-! ## What a declaration writes -/

theorem Symbol.writing_eq {s : Symbol} {kind : Bool} {superclass : Option String}
    {names : List String} (so : s.writing = ⟨kind, superclass, names⟩) : s.isInterface = kind
      ∧ s.superclass.map (·.name) = superclass ∧ s.interfaces.map (·.name) = names := by
  simpa [Symbol.writing] using so

/-- A class that a node declares has its kind, and no supertypes yet. -/
theorem Context.Tally.begun_writing {a b : Context} {id : SymbolId} {declared : List ClassSite}
    {written : SymbolId → Writing} (tally : a.Tally [] declared written)
    {qualified : String} {outer : Option ScopeRef} {decl : Walk.TypeDecl} (opens : Opens a id b)
    (begun : a.beginClass? qualified outer decl.head = some (id, b)) :
    (b.table.symbol id).writing = ⟨decl.isInterface, none, []⟩ := by
  obtain ⟨same, -, s, kind⟩ := Context.beginClass_supertypes begun decl.head_isHead
  have noSuperclass : (b.table.symbol id).superclass = none :=
    (same (.superclass id)).trans (tally.blank opens rfl)
  have noInterfaces : (b.table.symbol id).interfaces = [] :=
    List.ext_getElem? fun index => (same (.interface id index)).trans (tally.blank opens rfl)
  rw [Symbol.writing, kind, noSuperclass, noInterfaces]
  rfl

section

variable {cx : Context} {declared : List ClassSite} {written : SymbolId → Writing}
  (ledger : cx.Ledger []) (tally : cx.Tally [] declared written) {id : SymbolId} {file : FileId}
  {node : Node} (isDeclared : ⟨id, file, node⟩ ∈ declared)
include ledger tally isDeclared

/-- A supertype of a class is written where the class is declared, and linked, or begins to wait. -/
theorem Context.Tally.writeAndLink {f : Symbol → Symbol} {name : String} {link : Link}
    {writing : Writing} (step : TableStep cx.table (cx.table.modifySymbol id f))
    (isPlace : link.subclass? = some id) (blank : cx.table.supertype? link = none)
    (kind : ∀ s, (f s).isInterface = s.isInterface)
    (places : ∀ other, (cx.table.modifySymbol id f).supertype? other
      = if other = link then some (.unresolved name) else cx.table.supertype? other)
    (so : (f (cx.table.symbol id)).writing = writing) :
    ((cx.modifyTable fun t => t.modifySymbol id f).linkType file (some (.symbol id)) name node.pos
      link).Tally [] declared (Function.update written id writing) := by
  have isOpen : cx.table.IsOpen (.symbol id) := tally.isOpen _ isDeclared
  have suits : cx.table.Suits link (.unresolved name) := by
    intro target linked
    cases linked
  have stands := tally.write isOpen step.grows isPlace blank suits kind places
  rw [SymbolTable.symbol_modifySymbol, if_pos ⟨rfl, isOpen.1⟩, so] at stands
  have entered := ledger.act (.enter step)
  refine stands.linkType entered file _ name node.pos ⟨fun other isOther => ?_, ?_⟩
    (tally.alone blank)
  · obtain rfl := Option.some.inj (isPlace.symm.trans isOther)
    exact ⟨⟨_, (places link).trans (if_pos rfl), rfl⟩, _, isDeclared, rfl, rfl, rfl⟩
  · rintro other rfl
    cases isPlace

end

namespace Walk

variable (w : Walk) {cx : Context} {declared : List ClassSite}
  {written : SymbolId → Writing} {id : SymbolId} {node : Node}
  {kind : Bool}

theorem linkInterfaces_tally {superclass : Option String} {names : List String}
    (ledger : cx.Ledger []) (tally : cx.Tally [] declared written)
    (isDeclared : ⟨id, w.file, node⟩ ∈ declared)
    (so : written id = ⟨kind, superclass, names⟩) (interfaces : List String) :
    (w.linkInterfaces id node.pos names.length interfaces cx).Tally [] declared
      (Function.update written id ⟨kind, superclass, names ++ interfaces⟩) := by
  induction interfaces generalizing cx written names with
  | nil =>
    rw [List.append_nil, ← so, Function.update_eq_self]
    exact tally
  | cons name rest ih =>
    have isOpen : cx.table.IsOpen (.symbol id) := tally.isOpen _ isDeclared
    obtain ⟨rfl, rfl, rfl⟩ := Symbol.writing_eq ((tally.writing _ isDeclared).trans so)
    have blank : cx.table.supertype? (.interface id (cx.table.symbol id).interfaces.length) = none :=
      List.getElem?_eq_none le_rfl
    have linked := tally.writeAndLink ledger isDeclared (.interface isOpen name) rfl blank
      (fun _ => rfl) (SymbolTable.supertype?_interface isOpen.1 _) rfl
    have run := w.linkInterfaces_run isOpen node.pos (cx.table.symbol id).interfaces.length [name]
    have later := ih (ledger.run run) linked (Function.update_self ..)
    rw [Function.update_idem] at later
    simpa [linkInterfaces, TypeRef.unresolved] using later

theorem linkSuperclass_tally (ledger : cx.Ledger []) (tally : cx.Tally [] declared written)
    (isDeclared : ⟨id, w.file, node⟩ ∈ declared) (so : written id = ⟨kind, none, []⟩)
    (qualified : String) (decl : TypeDecl) :
    ∃ superclass, (∀ name ∈ decl.superclass, superclass = some name)
      ∧ (w.linkSuperclass id node.pos qualified decl cx).Tally [] declared
        (Function.update written id ⟨kind, superclass, []⟩) := by
  have isOpen : cx.table.IsOpen (.symbol id) := tally.isOpen _ isDeclared
  obtain ⟨isKind, noSuperclass, noInterfaces⟩ :=
    Symbol.writing_eq ((tally.writing _ isDeclared).trans so)
  have blank : cx.table.supertype? (.superclass id) = none := Option.map_eq_none_iff.1 noSuperclass
  have writing (type : TypeRef) : Symbol.writing { cx.table.symbol id with superclass := some type }
      = ⟨kind, some type.name, []⟩ := by
    rw [Symbol.writing, isKind, noInterfaces]
    rfl
  rw [linkSuperclass]
  split
  · next name is =>
    rw [is]
    refine ⟨some name, fun _ same => same, ?_⟩
    exact tally.writeAndLink ledger isDeclared (.superclass isOpen (.inl rfl)) rfl blank
      (fun _ => rfl) (SymbolTable.supertype?_superclass isOpen.1 _) (writing _)
  · next noName =>
    rw [noName]
    split
    · refine ⟨none, by rintro _ ⟨⟩, ?_⟩
      rw [← so, Function.update_eq_self]
      exact tally
    · -- the root class is no interface, so it suits
      have suits : cx.table.Suits (.superclass id) cx.table.objectRef := by
        intro target linked
        obtain ⟨targetOpen, isClass⟩ :=
          tally.root.objectRef ledger.owned.forest.classes.names target linked
        exact ⟨targetOpen, by simp [SymbolTable.linkProblem?, isClass]⟩
      have isRoot : cx.table.objectRef.resolved = none ∨ cx.table.objectRef = cx.table.objectRef :=
        .inr rfl
      have step := TableStep.superclass isOpen isRoot
      have stands := tally.write isOpen step.grows rfl blank suits (fun _ => rfl)
        (SymbolTable.supertype?_superclass isOpen.1 _)
      rw [SymbolTable.symbol_modifySymbol, if_pos ⟨rfl, isOpen.1⟩, writing] at stands
      exact ⟨_, by rintro _ ⟨⟩, stands⟩

/-- The supertypes that a declaration says are written and linked. -/
theorem linkParents_tally (ledger : cx.Ledger []) (tally : cx.Tally [] declared written)
    (isDeclared : ⟨id, w.file, node⟩ ∈ declared) (so : written id = ⟨kind, none, []⟩)
    (qualified : String) (decl : TypeDecl) :
    ∃ superclass, (∀ name ∈ decl.superclass, superclass = some name)
      ∧ (w.linkParents id node.pos qualified decl cx).Tally [] declared
        (Function.update written id ⟨kind, superclass, decl.interfaces⟩) := by
  have isOpen : cx.table.IsOpen (.symbol id) := tally.isOpen _ isDeclared
  have run := w.linkSuperclass_run isOpen node.pos qualified decl
  obtain ⟨superclass, is, linked⟩ := w.linkSuperclass_tally ledger tally isDeclared so qualified decl
  have later := w.linkInterfaces_tally (ledger.run run) linked isDeclared (Function.update_self ..)
    decl.interfaces
  rw [Function.update_idem, List.nil_append] at later
  exact ⟨superclass, is, later⟩

end Walk

/-! ## Classes and declarations -/

/-- The class is the one that a declaration writes, under its name and with the supertypes that are
written there. -/
structure SymbolTable.IsDeclaredBy (t : SymbolTable) (id : SymbolId) (qualified : String)
    (decl : Walk.TypeDecl) : Prop where
  name : (t.symbol id).name = qualified
  kind : (t.symbol id).isInterface = decl.isInterface
  superclass : ∀ name ∈ decl.superclass, (t.symbol id).superclass.map (·.name) = some name
  interfaces : (t.symbol id).interfaces.map (·.name) = decl.interfaces

theorem SymbolTable.IsDeclaredBy.congr {t u : SymbolTable} {id : SymbolId} {qualified : String}
    {decl : Walk.TypeDecl} (declared : t.IsDeclaredBy id qualified decl)
    (name : (u.symbol id).name = (t.symbol id).name)
    (writing : (u.symbol id).writing = (t.symbol id).writing) : u.IsDeclaredBy id qualified decl := by
  obtain ⟨kind, superclass, interfaces⟩ := Symbol.writing_eq writing
  obtain ⟨named, isKind, isSuper, areNames⟩ := declared
  exact ⟨by rwa [name], by rwa [kind], by rwa [superclass], by rwa [interfaces]⟩

/-- A class whose declaration begins has its name. -/
theorem Context.beginClass_name {cx next : Context} {id : SymbolId} {qualified : String}
    {outer : Option ScopeRef} {head : Symbol → Symbol}
    (begun : cx.beginClass? qualified outer head = some (id, next)) (isHead : Symbol.IsHead head) :
    (next.table.symbol id).name = qualified := by
  obtain ⟨t, started, rfl⟩ := Context.beginClass_some begun
  obtain ⟨known, named, -⟩ := SymbolTable.beginDefinition_named started
  exact ((SymbolTable.Grows.enterClass t id outer isHead).name id known).trans named

namespace Context

/-- The class has been begun at a visit of its node, which declares it. It has the name that the visit
gives it: in a class or in a body, its own after that of the class around it, and otherwise its own in the
package of the file. -/
inductive DeclaredAt (visited : Walk → Visit → Prop) (d : ClassSite) (cx : Context) : Prop where
  | intro {w : Walk} {v : Visit} {admission : Walk.Admission} {decl : Walk.TypeDecl} {a b : Context}
      (isVisited : visited w v) (inFile : w.file = d.file) (admits : w.Admits v d.node admission a)
      (is : d.node.data.typeDecl? = some decl)
      (begun : (w.qualifiedName v.scope decl.name a).2.beginClass?
        (w.qualifiedName v.scope decl.name a).1 v.scope.ref? decl.head = some (d.id, b))
      (declares : cx.table.IsDeclaredBy d.id (w.qualifiedName v.scope decl.name a).1 decl) :
      DeclaredAt visited d cx

/-- The class has been begun at a visit of its node, which is that of an anonymous class. -/
inductive AnonymousAt (visited : Walk → Visit → Prop) (d : ClassSite) : Prop where
  | intro {w : Walk} {v : Visit} {ref : ScopeRef} {type : String} {members : List NodeIndex}
      {a b : Context} (isVisited : visited w v) (inFile : w.file = d.file)
      (builds : w.Builds v d.node ref type members a)
      (begun : (Walk.numbered ref a).beginClass? (Walk.anonymousName ref a) (some ref) (fun s => s)
        = some (d.id, b)) : AnonymousAt visited d

/-- The classes of a run are the builtin ones and those that nodes declare, each declared once: those
in the first list by the nodes of classes and interfaces that were offered to the policy, and those in
the second list by anonymous classes. -/
structure Origins (visited : Walk → Visit → Prop) (cx : Context)
    (declared anonymous : List ClassSite) : Prop where
  once : (SymbolTable.seeded.classIds ++ (declared ++ anonymous).map (·.id)).Nodup
  all : ∀ id, cx.table.IsOpen (.symbol id)
    ↔ id ∈ SymbolTable.seeded.classIds ++ (declared ++ anonymous).map (·.id)
  files : ∀ d ∈ declared, d.file.val < cx.files.size
  sites : (declared.map ClassSite.site).Sublist cx.sites
  declares : ∀ d ∈ declared, DeclaredAt visited d cx
  isAnonymous : ∀ d ∈ anonymous, d.site ∈ cx.sites ∧ AnonymousAt visited d

/-- Every class of the run has its origin, and the records of unfit supertypes are in order. -/
def Reckoned (visited : Walk → Visit → Prop) (cx : Context) : Prop :=
  ∃ declared anonymous written, cx.Origins visited declared anonymous
    ∧ cx.Tally [] declared written

namespace Origins

variable {visited : Walk → Visit → Prop} {a b : Context} {declared anonymous : List ClassSite}
  {written : SymbolId → Writing} (origins : a.Origins visited declared anonymous)
include origins

/-- The classes are declared as before, as long as what is written of their supertypes stays. -/
theorem still (tally : a.Tally [] declared written) (precedes : a.Precedes b)
    (writing : ∀ d ∈ declared, (b.table.symbol d.id).writing = written d.id) :
    ∀ d ∈ declared, DeclaredAt visited d b := by
  intro d isIn
  obtain ⟨isVisited, inFile, admits, is, begun, declares⟩ := origins.declares d isIn
  have named := precedes.table.name d.id (tally.isOpen d isIn).1
  refine ⟨isVisited, inFile, admits, is, begun, declares.congr named ?_⟩
  rw [writing d isIn, tally.writing d isIn]

theorem stillAnonymous (sites : a.sites <+: b.sites) :
    ∀ d ∈ anonymous, d.site ∈ b.sites ∧ AnonymousAt visited d :=
  fun d isIn => ⟨sites.subset (origins.isAnonymous d isIn).1, (origins.isAnonymous d isIn).2⟩

/-- No class is declared. -/
theorem keep (tally : a.Tally [] declared written) (after : b.Tally [] declared written)
    (precedes : a.Precedes b)
    (isOpen : ∀ id, b.table.IsOpen (.symbol id) ↔ a.table.IsOpen (.symbol id))
    (sites : a.sites <+: b.sites) : b.Origins visited declared anonymous where
  once := origins.once
  all id := (isOpen id).trans (origins.all id)
  files := precedes.files_size.symm ▸ origins.files
  sites := origins.sites.trans sites.sublist
  declares := origins.still tally precedes after.writing
  isAnonymous := origins.stillAnonymous sites

/-- One more class is declared. -/
theorem opens {id : SymbolId} (opens : Opens a id b) {ids : List SymbolId}
    (same : ids.Perm (id :: (SymbolTable.seeded.classIds ++ (declared ++ anonymous).map (·.id)))) :
    ids.Nodup ∧ ∀ other, b.table.IsOpen (.symbol other) ↔ other ∈ ids := by
  obtain ⟨-, visiting, others⟩ := opens.state
  have isNew : id ∉ SymbolTable.seeded.classIds ++ (declared ++ anonymous).map (·.id) :=
    fun isIn => opens.isNew ((origins.all id).2 isIn) rfl
  refine ⟨same.nodup_iff.2 (List.nodup_cons.2 ⟨isNew, origins.once⟩), fun other => ?_⟩
  rw [same.mem_iff, List.mem_cons, ← origins.all]
  by_cases is : other = id
  · simp [is, opens.isOpen]
  · rw [SymbolTable.isOpen_symbol, SymbolTable.isOpen_symbol, Symbol.isDeclared, Symbol.isDeclared,
      others other is]
    simp [is]

/-- One more class is declared by a node, and its supertypes are written. -/
theorem declare {last : Context} {d : ClassSite}
    {writing : Writing} (tally : a.Tally [] declared written)
    (opens : Opens a d.id b) (precedes : b.Precedes last)
    (isOpen : ∀ id, last.table.IsOpen (.symbol id) ↔ b.table.IsOpen (.symbol id))
    (after : last.Tally [] (declared ++ [d]) (Function.update written d.id writing))
    (inRun : d.file.val < a.files.size)
    (offered : (declared.map ClassSite.site ++ [d.site]).Sublist a.sites)
    (sites : a.sites <+: last.sites) (declares : DeclaredAt visited d last) :
    last.Origins visited (declared ++ [d]) anonymous := by
  have whole := opens.precedes.trans precedes
  have same : (SymbolTable.seeded.classIds ++ ((declared ++ [d]) ++ anonymous).map (·.id)).Perm
      (d.id :: (SymbolTable.seeded.classIds ++ (declared ++ anonymous).map (·.id))) := by
    simp only [List.map_append, List.map_cons, List.append_assoc, List.cons_append, List.nil_append]
    exact (List.perm_middle.append_left _).trans List.perm_middle
  obtain ⟨once, all⟩ := origins.opens opens same
  refine
    { once
      all := fun id => (isOpen id).trans (all id)
      files := fun d' isIn => ?_
      sites := ?_
      declares := fun d' isIn => ?_
      isAnonymous := origins.stillAnonymous sites }
  · rw [whole.files_size]
    rcases List.mem_append.1 isIn with before | new
    · exact origins.files d' before
    · rwa [List.mem_singleton.1 new]
  · rw [List.map_append]
    exact offered.trans sites.sublist
  · rcases List.mem_append.1 isIn with before | new
    · refine origins.still tally whole (fun d' before => ?_) d' before
      have apart := opens.isNew (tally.isOpen d' before)
      rw [after.writing d' (List.mem_append_left _ before), Function.update_of_ne apart]
    · rw [List.mem_singleton.1 new]
      exact declares

/-- One more anonymous class is declared. -/
theorem declareAnonymous {last : Context} {d : ClassSite} (tally : a.Tally [] declared written)
    (opens : Opens a d.id b) (precedes : b.Precedes last)
    (isOpen : ∀ id, last.table.IsOpen (.symbol id) ↔ b.table.IsOpen (.symbol id))
    (after : last.Tally [] declared written) (offered : d.site ∈ a.sites)
    (sites : a.sites <+: last.sites) (isAnonymous : AnonymousAt visited d) :
    last.Origins visited declared (anonymous ++ [d]) := by
  have whole := opens.precedes.trans precedes
  have same : (SymbolTable.seeded.classIds ++ (declared ++ (anonymous ++ [d])).map (·.id)).Perm
      (d.id :: (SymbolTable.seeded.classIds ++ (declared ++ anonymous).map (·.id))) := by
    rw [← List.append_assoc, List.map_append, ← List.append_assoc]
    exact List.perm_append_singleton _ _
  obtain ⟨once, all⟩ := origins.opens opens same
  refine
    { once
      all := fun id => (isOpen id).trans (all id)
      files := whole.files_size.symm ▸ origins.files
      sites := origins.sites.trans sites.sublist
      declares := origins.still tally whole after.writing
      isAnonymous := fun d' isIn => ?_ }
  rcases List.mem_append.1 isIn with before | new
  · exact origins.stillAnonymous sites d' before
  · rw [List.mem_singleton.1 new]
    exact ⟨sites.subset offered, isAnonymous⟩

end Origins

namespace Reckoned

variable {visited : Walk → Visit → Prop} {a b : Context}

/-- No class is declared. -/
theorem keep (reckoned : a.Reckoned visited) (precedes : a.Precedes b)
    (isOpen : ∀ id, b.table.IsOpen (.symbol id) ↔ a.table.IsOpen (.symbol id))
    (sites : a.sites <+: b.sites)
    (keeps : ∀ declared written, a.Tally [] declared written → b.Tally [] declared written) :
    b.Reckoned visited := by
  obtain ⟨declared, anonymous, written, origins, tally⟩ := reckoned
  have after := keeps declared written tally
  exact ⟨declared, anonymous, written, origins.keep tally after precedes isOpen sites, after⟩

theorem bystands (reckoned : a.Reckoned visited) (precedes : a.Precedes b)
    (bystands : a.Bystands b) : b.Reckoned visited :=
  reckoned.keep precedes bystands.lineage.isOpen_iff bystands.sites
    fun _ _ tally => tally.bystands precedes bystands

/-- The name of a class has been declared before. -/
theorem refuse (reckoned : a.Reckoned visited) (file : FileId) (idx : NodeIndex) (pos : Position)
    (name : String) : (a.reportPruning file idx pos (.duplicateClass name)).Reckoned visited :=
  reckoned.bystands (.logged _ rfl) (.reportPruning _ file idx pos rfl)

end Reckoned

end Context

/-! ## What a walk keeps -/

namespace Walk

variable {w : Walk} {v : Visit} {visited : Walk → Visit → Prop} {a b : Context} {id : SymbolId}
  {node : Node} (isOpen : v.scope.IsOpenIn v.before.table) (ledger : v.before.Ledger [])
  (isVisited : visited w v)
include isOpen ledger isVisited

/-- A node declares a class: it is begun, and its supertypes are written and linked. -/
theorem declares_reckoned {admission : Admission} {decl : TypeDecl}
    (inRun : w.file.val < v.before.files.size) (admits : w.Admits v node admission a)
    (is : node.data.typeDecl? = some decl)
    (begun : (w.qualifiedName v.scope decl.name a).2.beginClass?
      (w.qualifiedName v.scope decl.name a).1 v.scope.ref? decl.head = some (id, b))
    (reckoned : v.before.Reckoned visited) :
    (w.linkParents id node.pos (w.qualifiedName v.scope decl.name a).1 decl b).Reckoned visited := by
  obtain ⟨declared, anonymous, written, origins, tally⟩ := reckoned
  have isOpen' := admits.run.precedes.isOpenIn isOpen
  have opens := opens_declared isOpen' begun
  -- before the declaration begins, nothing is done about supertypes
  have before := w.inspect_bystands v.remaining v.scope v.node node v.before
  have steps := w.inspect_steps v.before v.remaining v.scope v.node node
  rw [admits.2.2] at before steps
  replace before := before.trans (w.qualifiedName_bystands v.scope decl.name a)
  replace steps := steps.trans (w.qualifiedName_run isOpen' decl.name).steps
  have near := tally.bystands steps.precedes before
  have nearOrigins := origins.keep tally near steps.precedes before.lineage.isOpen_iff before.sites
  have began := near.declares opens w.file node
  rw [near.begun_writing opens begun] at began
  -- then its supertypes are linked
  have isIn : ⟨id, w.file, node⟩ ∈ declared ++ [(⟨id, w.file, node⟩ : ClassSite)] :=
    List.mem_append_right _ List.mem_cons_self
  have run := w.linkParents_run opens.isOpen node.pos (w.qualifiedName v.scope decl.name a).1 decl
  obtain ⟨superclass, isSuperclass, linked⟩ := w.linkParents_tally (ledger.steps (steps.opens opens))
    began isIn (Function.update_self ..) (w.qualifiedName v.scope decl.name a).1 decl
  rw [Function.update_idem] at linked
  have touches :=
    (w.linkParents_silent id node.pos (w.qualifiedName v.scope decl.name a).1 decl b).table
  refine ⟨declared ++ [⟨id, w.file, node⟩], anonymous, _, nearOrigins.declare near opens run.precedes
    (fun other => ?_) linked ?_ ?_ ?_ (.intro isVisited rfl admits is begun ?_), linked⟩
  · exact ⟨touches.isOpen _ nofun, touches.grows.isOpen⟩
  · rwa [steps.precedes.files_size]
  · -- the node has been offered after those of the classes before
    have offered := origins.sites.append (List.Sublist.refl [(w.file, node)])
    rw [← w.admits_sites admits.2.2] at offered
    exact offered.trans (w.qualifiedName_bystands v.scope decl.name a).sites.sublist
  · exact ((Course.opens (.rest _) opens).trans (.of_run run)).sites
  · obtain ⟨kind, superclass', interfaces⟩ :=
      Symbol.writing_eq ((linked.writing _ isIn).trans (Function.update_self ..))
    have named := Context.beginClass_name begun decl.head_isHead
    exact ⟨(run.precedes.table.name id opens.isOpen.1).trans named, kind,
      fun name isName => superclass'.trans (isSuperclass name isName), interfaces⟩

/-- An anonymous class is begun, and its base is linked. -/
theorem declaresAnonymous_reckoned {ref : ScopeRef} {type : String} {members : List NodeIndex}
    (builds : w.Builds v node ref type members a)
    (begun : (numbered ref a).beginClass? (anonymousName ref a) (some ref) (fun s => s)
      = some (id, b)) (reckoned : a.Reckoned visited) :
    (b.linkType w.file (some ref) type node.pos (.anonymousBase id)).Reckoned visited := by
  obtain ⟨declared, anonymous, written, origins, tally⟩ := reckoned
  obtain ⟨built, around⟩ := builds.run isOpen
  have opens := anonymous_opens around begun
  have before := numbered_bystands ref a
  have steps : Steps a (numbered ref a) := .single (.enter (.number around))
  have near := tally.bystands steps.precedes before
  have nearOrigins := origins.keep tally near steps.precedes before.lineage.isOpen_iff before.sites
  have stillAround := (steps.precedes.trans opens.precedes).table.isOpen around
  have run := w.linkType_run stillAround type node.pos (.anonymousBase id) opens.isOpen
  have touches :=
    (Context.Silent.linkType b w.file (some ref) type node.pos (.anonymousBase id)).table
  have allows : b.table.Allows declared (.anonymousBase id) w.file node.pos := by
    refine ⟨fun _ isPlace => (by cases isPlace), fun other isBase => ?_⟩
    obtain rfl := Link.anonymousBase.inj isBase
    refine ⟨opens.isOpen, fun isIn => ?_⟩
    obtain ⟨d, isDeclared, is⟩ := List.mem_map.1 isIn
    exact opens.isNew (near.isOpen d isDeclared) is
  have linked := (near.begins opens).linkType (ledger.steps (built.steps.trans (steps.opens opens)))
    w.file (some ref) type node.pos allows fun _ isPlace => by cases isPlace
  refine ⟨declared, anonymous ++ [⟨id, w.file, node⟩], written,
    nearOrigins.declareAnonymous (d := ⟨id, w.file, node⟩) near opens run.precedes (fun other => ?_)
      linked (before.sites.subset (builds.offered isOpen)) ?_ (.intro isVisited rfl builds begun),
    linked⟩
  · exact ⟨touches.isOpen _ nofun, touches.grows.isOpen⟩
  · exact ((Course.opens (.rest _) opens).trans (.of_run run)).sites

omit isOpen ledger isVisited

/-- Whatever a walk does, every class has its origin, and the records of unfit supertypes stay in
order. -/
theorem reckoned_relates (w : Walk) : w.Relates fun v a b =>
    v.scope.IsOpenIn v.before.table → v.before.Ledger [] → w.file.val < v.before.files.size →
      ∀ visited : Walk → Visit → Prop, (∀ u, w.Comes v u → visited w u) →
        a.Reckoned visited → b.Reckoned visited where
  rest _ _ _ _ _ _ _ reckoned := reckoned
  trans first second isOpen ledger inRun visited comes reckoned :=
    second isOpen ledger inRun visited comes (first isOpen ledger inRun visited comes reckoned)
  leads {v u a b} leads further isOpen ledger inRun visited comes := by
    obtain ⟨course, isOpen'⟩ := leads.course isOpen
    exact further isOpen' (ledger.steps course.steps) (course.precedes.files_size ▸ inRun) visited
      fun u' comes' => comes u' (Relation.ReflTransGen.head leads comes')
  refuses {v node} _ _ _ _ _ _ _ reckoned :=
    reckoned.bystands (w.refuseDepth_steps v.before v.node node).precedes
      (w.refuseDepth_bystands v.node node v.before)
  inspects {v node} _ _ _ _ _ _ _ reckoned :=
    reckoned.bystands (w.inspect_steps v.before v.remaining v.scope v.node node).precedes
      (w.inspect_bystands v.remaining v.scope v.node node v.before)
  calls isOpen admits calls _ _ _ _ _ reckoned :=
    reckoned.bystands (calls.run (admits.run.precedes.isOpenIn isOpen)).1.precedes calls.bystands
  refusesName {v node admission decl a} isOpen admits _ _ _ _ _ _ _ reckoned := by
    have run := w.qualifiedName_run (admits.run.precedes.isOpenIn isOpen) decl.name
    have named := w.qualifiedName_bystands v.scope decl.name a
    exact (reckoned.bystands run.precedes named).refuse w.file v.node node.pos _
  declares isOpen admits is begun _ _ ledger inRun _ comes reckoned :=
    declares_reckoned isOpen ledger (comes _ .refl) inRun admits is begun reckoned
  refusesNumber {v node ref type members a} isOpen builds _ _ _ _ _ _ reckoned := by
    have counted : Steps a (numbered ref a) := .single (.enter (.number (builds.run isOpen).2))
    exact (reckoned.bystands counted.precedes (numbered_bystands ref a)).refuse w.file v.node node.pos _
  declaresAnonymous isOpen builds begun _ ledger _ _ comes reckoned :=
    declaresAnonymous_reckoned isOpen ledger (comes _ .refl) builds begun reckoned
  completes {v id a} course isOpen _ ledger _ _ _ reckoned := by
    have touches := (Context.Silent.defineComplete isOpen).table
    have sites := (Course.completes (.rest a) isOpen).sites
    have here := ledger.steps course.steps
    refine reckoned.keep (Context.Precedes.defineComplete a id) (fun other => ?_) sites
      fun _ _ tally => tally.defineComplete here.keyed here.owned.forest.classes.names isOpen
    exact ⟨touches.isOpen _ nofun, touches.grows.isOpen⟩

end Walk

/-! ## Batches -/

namespace SymbolTable

theorem seeded_isOpen {id : SymbolId} (known : id.val < seeded.size) :
    seeded.IsOpen (.symbol id) := by
  have declared : ∀ i < seeded.size, (seeded.symbol ⟨i⟩).isDeclared := by decide +kernel
  exact ⟨known, declared id.val known⟩

theorem seeded_rootIsClass : seeded.RootIsClass := by
  refine ⟨⟨Builtin.primitives.length⟩, ⟨?_, ?_⟩, ?_, ?_⟩ <;> decide +kernel

/-- The supertypes of the builtin types: there is none but the root class. -/
theorem seeded_supertype {link : Link} {type : TypeRef}
    (stands : seeded.supertype? link = some type) :
    ∃ id, link = .superclass id ∧ seeded.IsOpen (.symbol id)
      ∧ type.resolved = seeded.objectRef.resolved := by
  have builtin : ∀ s ∈ seeded.symbols.toList, s.isDeclared ∧ s.interfaces = []
      ∧ ∀ type ∈ s.superclass, type.resolved = seeded.objectRef.resolved := by decide +kernel
  cases link with
  | superclass id =>
    refine ⟨id, rfl, ?_⟩
    rw [isOpen_symbol]
    rcases seeded_symbol id with isIn | blank
    · obtain ⟨declared, -, root⟩ := builtin _ isIn
      exact ⟨declared, root type stands⟩
    · rw [supertype?, blank] at stands
      cases stands
  | interface id index =>
    have none : (seeded.symbol id).interfaces = [] := by
      rcases seeded_symbol id with isIn | blank
      · exact (builtin _ isIn).2.1
      · rw [blank]
        rfl
    rw [supertype?, none] at stands
    cases stands
  | _ => cases stands

end SymbolTable

namespace Context

variable {visited : Walk → Visit → Prop}

theorem reckoned_start (options : Options) : (start options).Reckoned visited := by
  have root := SymbolTable.seeded_rootIsClass
  have isRoot := root.objectRef (ledger_start options).owned.forest.classes.names
  have mem (id : SymbolId) : id ∈ SymbolTable.seeded.classIds ↔ id.val < SymbolTable.seeded.size := by
    simp [SymbolTable.classIds, SymbolId.ext_iff]
  have fine (link : Link) : SymbolTable.seeded.misfit? link = none := by
    cases stands : SymbolTable.seeded.supertype? link with
    | none => exact SymbolTable.misfit?_of_none stands
    | some type =>
      obtain ⟨id, rfl, -, isObject⟩ := SymbolTable.seeded_supertype stands
      rw [SymbolTable.misfit?, stands, Option.bind_some, isObject]
      cases linked : SymbolTable.seeded.objectRef.resolved with
      | none => rfl
      | some target => simp [SymbolTable.linkProblem?, (isRoot target linked).2]
  refine ⟨[], [], fun id => (SymbolTable.seeded.symbol id).writing, ?_, ?_⟩
  · refine
      { once := ?_, all := fun id => ?_, files := List.forall_mem_nil _, sites := List.nil_sublist _
        declares := List.forall_mem_nil _, isAnonymous := List.forall_mem_nil _ }
    · simp only [List.append_nil, List.map_nil]
      exact List.nodup_range.map fun _ _ same => (SymbolId.mk.inj same)
    · simp only [List.append_nil, List.map_nil, mem]
      exact ⟨fun isOpen => isOpen.1, SymbolTable.seeded_isOpen⟩
  · exact
      { supertypes := fun link type stands => by
          obtain ⟨id, rfl, isOpen, isObject⟩ := SymbolTable.seeded_supertype stands
          refine ⟨fun other isPlace => Option.some.inj isPlace ▸ isOpen, fun target linked => ?_⟩
          exact (isRoot target (isObject ▸ linked)).1
        root
        nodup := List.nodup_nil
        isOpen := List.forall_mem_nil _
        writing := List.forall_mem_nil _
        records := .refl _
        others := fun id _ => SymbolTable.misfits_eq_nil_iff.2 fun link _ => fine link
        waits := List.forall_mem_nil _
        once := List.nodup_nil }

theorem Reckoned.addFile {cx : Context} (reckoned : cx.Reckoned visited) (name : String)
    (level : Level) : (cx.addFile name level).2.Reckoned visited := by
  obtain ⟨declared, anonymous, written, origins, tally⟩ := reckoned
  have still : ∀ d ∈ declared, DeclaredAt visited d (cx.addFile name level).2 := fun d isIn => by
    obtain ⟨isVisited, inFile, admits, is, begun, declares⟩ := origins.declares d isIn
    exact ⟨isVisited, inFile, admits, is, begun, declares.congr rfl rfl⟩
  refine ⟨declared, anonymous, written,
    { origins with files := fun d isIn => ?_, declares := still }, { tally with records := ?_ }⟩
  · show d.file.val < (cx.files.push _).size
    rw [Array.size_push]
    exact (origins.files d isIn).trans (Nat.lt_succ_self _)
  · refine tally.records.trans (.flatMap_left _ fun d isIn => .of_eq ?_)
    have found : (cx.addFile name level).2.file? d.file = cx.file? d.file := by
      simp [Context.addFile, file?, Array.getElem?_push, (origins.files d isIn).ne]
    have same : (cx.addFile name level).2.fileName d.file = cx.fileName d.file := by
      rw [fileName, fileName, found]
    rw [ClassSite.records, ClassSite.records, same]
    rfl

theorem Reckoned.analyzeFiles {cx : Context} (ledger : cx.Ledger []) (reckoned : cx.Reckoned visited)
    (units : List SourceUnit)
    (comes : ∀ w v, cx.ComesTo (units.map .analyze) w v → visited w v) :
    (cx.analyzeFiles units).Reckoned visited := by
  induction units generalizing cx with
  | nil => exact reckoned
  | cons unit rest ih =>
    have owned := ledger.owned.addFile unit.tree.fileName unit.level
    have added := ledger.quiet owned (.refl _) rfl rfl rfl ledger.log
    have inRun : cx.files.size < (cx.addFile unit.tree.fileName unit.level).2.files.size := by
      simp [Context.addFile]
    have isOpen := WalkScope.isOpenIn_file (cx.rootVisit unit).before.table
    have walked := (cx.walkOf unit).reckoned_relates.visit (cx.rootVisit unit) isOpen isOpen added
      inRun visited (fun v reached => comes _ v (.here reached))
      (reckoned.addFile unit.tree.fileName unit.level)
    exact ih (ledger.analyzeFile unit) walked fun w v further => comes w v (.later further)

theorem Reckoned.settle {cx : Context} (ledger : cx.Ledger []) (reckoned : cx.Reckoned visited) :
    cx.settle.Reckoned visited := by
  have settles := cx.settle_settles
  refine reckoned.keep settles.precedes (fun id => ?_) ?_ fun _ _ tally =>
    tally.settle ledger.owned.forest.classes.names
  · rw [SymbolTable.isOpen_symbol, SymbolTable.isOpen_symbol, Symbol.isDeclared, Symbol.isDeclared,
      SymbolTable.state_of_roll settles.roll]
  · have same : cx.settle.sites = cx.sites :=
      congrArg (fun trail => trail.toList.filterMap Encounter.site?) cx.settle_trail
    exact same ▸ List.prefix_rfl

/-- The records of unfit supertypes of one kind are as many as there are such supertypes. -/
theorem Tally.count {cx : Context} {declared : List ClassSite}
    {written : SymbolId → Writing} (tally : cx.Tally [] declared written)
    {code : UInt32} (isMisfit : isMisfitCode code) :
    (cx.log.diagnostics.toList.filter (·.code == code)).length
      = (cx.table.classIds.flatMap cx.table.misfits).countP (·.code == code) := by
  have classes : cx.table.classIds.Nodup :=
    List.nodup_range.map fun _ _ same => SymbolId.mk.inj same
  have known : declared.map (·.id) ⊆ cx.table.classIds := by
    intro id isIn
    obtain ⟨d, isDeclared, rfl⟩ := List.mem_map.1 isIn
    exact List.mem_map.2 ⟨d.id.val, List.mem_range.2 (tally.isOpen d isDeclared).1, rfl⟩
  have whole := flatMap_perm_of_subset classes tally.nodup known fun id _ => tally.others id
  calc (cx.log.diagnostics.toList.filter (·.code == code)).length
      = cx.log.misfits.countP (·.code == code) := by
        rw [ErrorLog.misfits, List.countP_filter, List.countP_eq_length_filter]
        refine congrArg List.length (List.filter_congr fun d _ => ?_)
        by_cases is : d.code = code <;> simp [is, isMisfit]
    _ = (declared.flatMap fun d => d.records cx).countP (·.code == code) := tally.records.countP_eq _
    _ = ((declared.map (·.id)).flatMap cx.table.misfits).countP (·.code == code) := by
        rw [List.flatMap_map, List.countP_flatMap, List.countP_flatMap]
        refine congrArg List.sum (List.map_congr_left fun d _ => ?_)
        exact List.countP_map
    _ = (cx.table.classIds.flatMap cx.table.misfits).countP (·.code == code) :=
        (whole.countP_eq _).symm

/-- In the end, the records that a class extends an interface (code 1017) are as many as the classes
of the table whose superclass is linked to an interface, and the records that a class is implemented
(1018) as many as the interfaces of classes that are linked to a class. These records are those of
what is wrong with the classes that nodes declare, in the file and at the position of the node, which
is where the supertypes are written; each class is the one that a visit of its node has begun. No other
class has a part in them, so none that is anonymous. -/
theorem ofUnits_supertypes (units : List SourceUnit) (options : Options) :
    ((ofUnits units options).log.diagnostics.toList.filter (·.code == 1017)).length
        = ((ofUnits units options).table.classIds.filter
            (ofUnits units options).table.extendsInterface).length
      ∧ ((ofUnits units options).log.diagnostics.toList.filter (·.code == 1018)).length
        = (ofUnits units options).table.implementedClasses.length
      ∧ ∃ declared anonymous,
        (ofUnits units options).Origins ((start options).ComesTo (units.map .analyze)) declared anonymous
        ∧ (ofUnits units options).log.misfits.Perm
          (declared.flatMap fun d => d.records (ofUnits units options))
        ∧ ∀ id, id ∉ declared.map (·.id) → (ofUnits units options).table.extendsInterface id = false
          ∧ ∀ type ∈ ((ofUnits units options).table.symbol id).interfaces,
            (ofUnits units options).table.isKnownClass type = false := by
  have ledger := (ledger_start options).analyzeFiles units
  have reckoned := (Reckoned.analyzeFiles (ledger_start options) (reckoned_start options) units
    fun _ _ comes => comes).settle ledger
  obtain ⟨declared, anonymous, written, origins, tally⟩ := reckoned
  exact ⟨(tally.count rfl).trans (SymbolTable.countP_extends _ _),
    (tally.count rfl).trans (SymbolTable.countP_implements _ _), declared, anonymous, origins,
    tally.records, fun id isOther => SymbolTable.fits_of_misfits (tally.others id isOther)⟩

end Context

end LevelCheck
