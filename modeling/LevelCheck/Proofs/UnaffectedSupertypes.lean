import LevelCheck.Proofs.Lifecycle
import LevelCheck.Proofs.Misfits
import LevelCheck.Proofs.Records
import LevelCheck.Proofs.SilentLinking
import LevelCheck.Proofs.VisitParts
set_option autoImplicit false

/-! # What leaves supertypes alone

Declaring a class and completing one are all that a walk does about supertypes. Whatever else a node
calls for leaves alone how far classes have been seen, what they are and what they extend and implement;
it records nothing about supertypes, and lets no reference to one wait. -/

namespace LevelCheck

/-- How far the declaration of a class has been seen, what kind of class it is, and its supertypes. -/
def Symbol.lineage (s : Symbol) : SymbolState × Bool × Option TypeRef × List TypeRef :=
  (s.state, s.isInterface, s.superclass, s.interfaces)

namespace SymbolTable

/-- Every class has been seen as far as before, and is of the kind and has the supertypes it had. -/
def SameLineage (t u : SymbolTable) : Prop := ∀ id, (u.symbol id).lineage = (t.symbol id).lineage

namespace SameLineage

variable {t u v : SymbolTable}

theorem refl (t : SymbolTable) : t.SameLineage t := fun _ => rfl

theorem trans (first : t.SameLineage u) (second : u.SameLineage v) : t.SameLineage v :=
  fun id => (second id).trans (first id)

theorem of_symbols (same : u.symbols = t.symbols) : t.SameLineage u := by
  intro id
  rw [symbol, symbol, same]

section

variable (same : t.SameLineage u)
include same

theorem state (id : SymbolId) : (u.symbol id).state = (t.symbol id).state :=
  congrArg Prod.fst (same id)

theorem isInterface (id : SymbolId) : (u.symbol id).isInterface = (t.symbol id).isInterface :=
  congrArg (·.2.1) (same id)

theorem superclass (id : SymbolId) : (u.symbol id).superclass = (t.symbol id).superclass :=
  congrArg (·.2.2.1) (same id)

theorem interfaces (id : SymbolId) : (u.symbol id).interfaces = (t.symbol id).interfaces :=
  congrArg (·.2.2.2) (same id)

theorem supertype? (link : Link) : u.supertype? link = t.supertype? link := by
  cases link with
  | superclass id => exact same.superclass id
  | interface id index => rw [SymbolTable.supertype?, SymbolTable.supertype?, same.interfaces]
  | _ => rfl

theorem isOpen_iff (id : SymbolId) : u.IsOpen (.symbol id) ↔ t.IsOpen (.symbol id) := by
  rw [isOpen_symbol, isOpen_symbol, Symbol.isDeclared, Symbol.isDeclared, same.state]

theorem keepsKinds (grows : t.Grows u) : t.KeepsKinds u := ⟨grows, fun id _ => same.isInterface id⟩

end

/-! ### Changes of the table -/

theorem modifySymbol (t : SymbolTable) (id : SymbolId) {f : Symbol → Symbol}
    (keeps : ∀ s, (f s).lineage = s.lineage) : t.SameLineage (t.modifySymbol id f) :=
  fun other => view_modifySymbol t id other Symbol.lineage keeps

theorem getOrAddPlaceholder (t : SymbolTable) (name : String) :
    t.SameLineage (t.getOrAddPlaceholder name).2 := by
  cases found : t.lookup? name with
  | some id =>
    rw [getOrAddPlaceholder_of_some found]
    exact refl t
  | none =>
    rw [getOrAddPlaceholder_of_none found]
    exact fun id => view_addSymbol t id Symbol.lineage rfl

theorem numberLocalClass (t : SymbolTable) (id : SymbolId) :
    t.SameLineage (t.numberLocalClass id).2 := modifySymbol t id fun _ => rfl

theorem addMethod (t : SymbolTable) (m : Method) : t.SameLineage (t.addMethod m).2 :=
  modifySymbol { t with methods := t.methods.push m } m.owner fun _ => rfl

theorem addParams (t : SymbolTable) (id : MethodId) (vs : List Variable) :
    t.SameLineage (t.addParams id vs).2 := by
  rw [addParams_table]
  exact of_symbols rfl

theorem addFields (t : SymbolTable) (id : SymbolId) (vs : List Variable) :
    t.SameLineage (t.addFields id vs).2 := by
  rw [addFields_table]
  exact modifySymbol (t.appendVars vs) id fun _ => rfl

theorem addVars (t : SymbolTable) (body : BodyId) (vs : List Variable) (policy : DuplicateScope) :
    t.SameLineage (t.addVars body vs policy).2 := by
  rw [addVars_table]
  cases body <;> exact of_symbols rfl

theorem addBlock (t : SymbolTable) (outer : ScopeRef) : t.SameLineage (t.addBlock outer).2 := by
  cases outer with
  | symbol id => exact modifySymbol { t with blocks := _ } id fun _ => rfl
  | method id | block id => exact of_symbols rfl

end SameLineage

end SymbolTable

/-- The place belongs to no class: it holds no supertype. -/
def Link.IsAside : Link → Prop
  | .superclass _ | .interface .. | .anonymousBase _ => False
  | _ => True

theorem SymbolTable.SameLineage.fill (t : SymbolTable) {link : Link} (aside : link.IsAside)
    (target : SymbolId) : t.SameLineage (t.fill link target) := by
  cases link with
  | superclass | interface | anonymousBase => exact aside.elim
  | _ => exact of_symbols rfl

/-- More references wait than before, but no more for supertypes. -/
def WaitsAside (before after : List PendingReference) : Prop :=
  ∃ more, after.Perm (more ++ before) ∧ ∀ r ∈ more, r.link.IsAside

namespace WaitsAside

variable {before after last : List PendingReference}

theorem refl (waiting : List PendingReference) : WaitsAside waiting waiting := ⟨[], .refl _, nofun⟩

theorem trans (first : WaitsAside before after) (second : WaitsAside after last) :
    WaitsAside before last := by
  obtain ⟨more, waits, aside⟩ := first
  obtain ⟨more', waits', aside'⟩ := second
  refine ⟨more' ++ more, ?_, fun r isIn => (List.mem_append.1 isIn).elim (aside' r) (aside r)⟩
  rw [List.append_assoc]
  exact waits'.trans (waits.append_left more')

theorem append_left (inHand : List PendingReference) (waits : WaitsAside before after) :
    WaitsAside (inHand ++ before) (inHand ++ after) := by
  obtain ⟨more, waits, aside⟩ := waits
  exact ⟨more, (waits.append_left inHand).trans (List.perm_append_comm_assoc _ _ _), aside⟩

end WaitsAside

/-! ## Records -/

/-- The code of a record that tells of an unfit supertype. -/
def isMisfitCode (code : UInt32) : Bool := code == 1017 || code == 1018

/-- The records that tell of unfit supertypes. -/
def ErrorLog.misfits (log : ErrorLog) : List Diagnostic :=
  log.diagnostics.toList.filter fun d => isMisfitCode d.code

namespace Context

/-- Nothing has been done about supertypes. -/
structure Bystands (a b : Context) : Prop where
  lineage : a.table.SameLineage b.table
  misfits : b.log.misfits = a.log.misfits
  waits : WaitsAside a.pending.all b.pending.all
  sites : a.sites <+: b.sites

namespace Bystands

variable {a b c : Context}

theorem refl (cx : Context) : cx.Bystands cx :=
  ⟨.refl _, rfl, .refl _, List.prefix_rfl⟩

theorem trans (first : a.Bystands b) (second : b.Bystands c) : a.Bystands c :=
  ⟨first.lineage.trans second.lineage, second.misfits.trans first.misfits,
    first.waits.trans second.waits, first.sites.trans second.sites⟩

/-- The table changes, but not in what it says about supertypes. -/
theorem enter (cx : Context) {t : SymbolTable} (same : cx.table.SameLineage t) :
    cx.Bystands { cx with table := t } :=
  ⟨same, rfl, .refl _, List.prefix_rfl⟩

/-- Records of other problems are made, and nodes are come to. -/
theorem logged {kind : Problem → Prop} (table : b.table = a.table) (pending : b.pending = a.pending)
    (grows : a.log.Extends kind b.log) (others : ∀ p, kind p → isMisfitCode p.code = false)
    (trail : a.trail.toList <+: b.trail.toList) : a.Bystands b where
  lineage := by
    rw [table]
    exact .refl _
  misfits := grows.coded isMisfitCode others
  waits := by
    rw [pending]
    exact .refl _
  sites := trail.filterMap _

theorem report (cx : Context) (file : FileId) (pos : Position) {p : Problem}
    (other : isMisfitCode p.code = false) : cx.Bystands (cx.report file pos p) := by
  have others (q : Problem) : p = q → isMisfitCode q.code = false := by
    rintro rfl
    exact other
  exact .logged rfl rfl (.add .rest rfl _ _) others List.prefix_rfl

theorem reportPruning (cx : Context) (file : FileId) (node : NodeIndex) (pos : Position) {p : Problem}
    (other : isMisfitCode p.code = false) : cx.Bystands (cx.reportPruning file node pos p) := by
  have others (q : Problem) : p = q → isMisfitCode q.code = false := by
    rintro rfl
    exact other
  exact .logged rfl rfl (.addPruning .rest rfl _ _ _ _) others List.prefix_rfl

theorem happened (cx : Context) (e : Event) : cx.Bystands (cx.happened e) :=
  ⟨.refl _, rfl, .refl _, List.prefix_rfl⟩

theorem foldl {α : Type} {step : Context → α → Context}
    (bystands : ∀ (cx : Context) x, cx.Bystands (step cx x)) (xs : List α) (cx : Context) :
    cx.Bystands (xs.foldl step cx) := by
  induction xs generalizing cx with
  | nil => exact refl cx
  | cons x rest ih => exact (bystands cx x).trans (ih _)

theorem apply (cx : Context) (file : FileId) (pos : Position) {link : Link} (aside : link.IsAside)
    (target : SymbolId) : cx.Bystands (cx.apply file pos link target) := by
  have filled : cx.Bystands (cx.modifyTable fun t => t.fill link target) := .enter cx (.fill _ aside _)
  have fits (t : SymbolTable) : t.linkProblem? link target = none := by
    cases link with
    | superclass | interface | anonymousBase => exact aside.elim
    | _ => rfl
  rw [Context.apply]
  simp only [fits]
  exact filled

/-- A reference to a class that is no supertype is linked, or begins to wait. -/
theorem linkType (cx : Context) (file : FileId) (scope : Option ScopeRef) (written : String)
    (pos : Position) {link : Link} (aside : link.IsAside) :
    cx.Bystands (cx.linkType file scope written pos link) := by
  cases cx.linkType_linking file scope written pos link with
  | none is =>
    rw [is]
    exact refl cx
  | now inRun found is =>
    rw [is]
    exact (happened cx _).trans (apply _ file pos aside _)
  | @later f r inRun met waits undeclared is =>
    rw [is]
    refine ⟨.getOrAddPlaceholder cx.table r.key, rfl, ⟨[r.waiting], cx.pending.request_perm r.waiting,
      fun r' isIn => ?_⟩, List.prefix_rfl⟩
    rw [List.mem_singleton.1 isIn, met]
    exact aside

end Bystands

end Context

/-! ## What a walk does besides declaring classes -/

namespace Walk

variable (w : Walk)

theorem refuseDepth_bystands (idx : NodeIndex) (node : Node) (cx : Context) :
    cx.Bystands (w.refuseDepth idx node cx) := by
  have others (p : Problem) :
      Problem.nestingTooDeep cx.options.maxDepth = p → isMisfitCode p.code = false := by
    rintro rfl
    rfl
  have trail := Course.trail (.deed (.rest _) (.refuse cx w idx node))
  rw [refuseDepth_eq] at trail ⊢
  refine .logged rfl rfl ?_ others trail
  simp only
  split
  · exact .rest
  · exact .addPruning .rest rfl _ _ _ _

theorem inspect_bystands (remaining : Nat) (scope : WalkScope) (idx : NodeIndex) (node : Node)
    (cx : Context) : cx.Bystands (w.inspect remaining scope idx node cx).2 := by
  have others (p : Problem) (isRuled : p.IsRuled) : isMisfitCode p.code = false := by
    cases p with
    | extendsInterface | implementsClass => exact isRuled.elim
    | _ => rfl
  have trail := Course.trail (.deed (.rest _) (.inspect cx w remaining scope idx node))
  obtain ⟨log, is⟩ := w.inspect_changes cx remaining scope idx node
  refine .logged ?_ ?_ (w.inspect_extends cx remaining scope idx node) others trail
  · rw [is]
  · rw [is]

theorem qualifiedName_bystands (scope : WalkScope) (simple : String) (cx : Context) :
    cx.Bystands (w.qualifiedName scope simple cx).2 := by
  cases scope with
  | file =>
    rw [qualifiedName]
    split <;> exact .refl cx
  | classBody id => exact .refl cx
  | body id => exact .enter cx (.numberLocalClass _ _)

theorem numbered_bystands (ref : ScopeRef) (cx : Context) : cx.Bystands (numbered ref cx) :=
  .enter cx (.numberLocalClass _ _)

theorem linkVariables_bystands (scope : ScopeRef) (declarators : List Declarator)
    (ids : List VariableId) (cx : Context) :
    cx.Bystands (w.linkVariables scope declarators ids cx) := by
  have each (cx : Context) (entry : Declarator × VariableId) : cx.Bystands
      (cx.linkType w.file (some scope) entry.1.type entry.1.pos (.variableType entry.2)) :=
    .linkType cx _ _ _ _ trivial
  exact .foldl each _ cx

theorem reportDuplicates_bystands (declarators : List Declarator) (pos : Position)
    {problem : String → Problem} (others : ∀ name, isMisfitCode (problem name).code = false)
    (duplicates : List String) (cx : Context) :
    cx.Bystands (w.reportDuplicates declarators pos problem duplicates cx) :=
  .foldl (fun _ name => .report _ _ _ (others name)) duplicates cx

theorem declareVariables_bystands (scope : ScopeRef) (written : List Declarator) (pos : Position)
    {problem : String → Problem} (others : ∀ name, isMisfitCode (problem name).code = false)
    (entry : Declared × SymbolTable) {cx : Context} (same : cx.table.SameLineage entry.2) :
    cx.Bystands (w.declareVariables scope written pos problem entry cx) :=
  ((Context.Bystands.enter cx same).trans (w.reportDuplicates_bystands written pos others _ _)).trans
    (w.linkVariables_bystands scope written _ _)

theorem declareFields_bystands (id : SymbolId) (written : List Declarator) (force : Bool)
    (cx : Context) : cx.Bystands (w.declareFields id written force cx) :=
  w.declareVariables_bystands _ written .nowhere (fun _ => rfl) _ (.addFields _ _ _)

theorem declareLocals_bystands (body : BodyId) (written : List Declarator) (pos : Position)
    (force : Bool) (cx : Context) : cx.Bystands (w.declareLocals body written pos force cx) :=
  w.declareVariables_bystands _ written pos (fun _ => rfl) _ (.addVars _ _ _ _)

theorem linkThrown_bystands (id : MethodId) (pos : Position) (index : Nat) (throws : List String)
    (cx : Context) : cx.Bystands (w.linkThrown id pos index throws cx) := by
  induction throws generalizing index cx with
  | nil => exact .refl cx
  | cons written rest ih =>
    exact (Context.Bystands.linkType _ _ _ _ _ (show (Link.thrownType _ _).IsAside from trivial)).trans
      (ih _ _)

theorem linkSignature_bystands (id : MethodId) (pos : Position) (decl : MethodDecl)
    (params : List Declarator) (ids : List VariableId) (cx : Context) :
    cx.Bystands (w.linkSignature id pos decl params ids cx) := by
  rw [linkSignature]
  refine .trans (.trans ?_ (w.linkThrown_bystands _ _ _ _ _)) (w.linkVariables_bystands _ _ _ _)
  split
  · exact .linkType _ _ _ _ _ trivial
  · exact .refl cx

theorem declareParams_bystands (id : MethodId) (pos : Position) (decl : MethodDecl)
    (params : List Declarator) (cx : Context) :
    cx.Bystands (w.declareParams id pos decl params cx) := by
  have entered : cx.Bystands
      { cx with table := (cx.table.addParams id (params.map (·.variable (.method id)))).2 } :=
    .enter cx (.addParams _ _ _)
  exact (entered.trans (w.reportDuplicates_bystands params pos (fun _ => rfl) _ _)).trans
    (w.linkSignature_bystands id pos decl params _ _)

theorem enterMethod_bystands (owner : SymbolId) (pos : Position) (decl : MethodDecl) (cx : Context) :
    cx.Bystands (w.enterMethod owner pos decl cx).2 := by
  let added := cx.table.addMethod (decl.record owner)
  have entered : cx.Bystands { cx with table := added.2 } := .enter cx (.addMethod _ _)
  have reported (problems : List Problem) (others : ∀ p ∈ problems, isMisfitCode p.code = false)
      (cx : Context) : cx.Bystands (w.reportAll pos problems cx) := by
    have grows := w.reportAll_extends cx pos (fun p isIn => (show p ∈ problems from isIn))
    refine .logged ?_ ?_ grows others ?_ <;> rw [reportAll_eq]
  have named := reported (constructorProblem? (added.2.symbol owner) decl).toList (fun p isIn => by
    rw [constructorProblem?] at isIn
    split at isIn
    · obtain rfl := List.mem_singleton.1 isIn
      rfl
    · cases isIn) { cx with table := added.2 }
  rw [enterMethod_eq]
  exact (entered.trans named).trans (w.declareParams_bystands _ pos decl _ _)

theorem enterException_bystands (id : BlockId) (exception : NodeIndex) (cx : Context) :
    cx.Bystands (w.enterException id exception cx).2 := by
  rw [enterException_eq]
  split
  · exact .refl cx
  · exact w.declareLocals_bystands _ _ _ _ cx

theorem inBlock_bystands (ref : ScopeRef) (cx : Context) : cx.Bystands (inBlock ref cx) :=
  .enter cx (.addBlock _ _)

variable {w}

/-- What a node calls for has nothing to do with supertypes. -/
theorem Calls.bystands {mode : BlockMode} {scope inner : WalkScope} {node : Node} {force : Bool}
    {nodes : List (BlockMode × NodeIndex)} {a b : Context}
    (calls : w.Calls mode scope node force a inner nodes b) : a.Bystands b := by
  cases calls with
  | header is => exact ⟨.refl _, rfl, .refl _, List.prefix_rfl⟩
  | method is inClass => exact w.enterMethod_bystands _ _ _ a
  | fields is inClass => exact w.declareFields_bystands _ _ force a
  | locals is inBody => exact w.declareLocals_bystands _ _ _ force a
  | block | initializer | loop => exact inBlock_bystands _ a
  | handler is inBody => exact (inBlock_bystands _ a).trans (w.enterException_bystands _ _ _)
  | mention is => exact .linkType a _ _ _ _ trivial
  | statements | innerInitializer | fileLoop | anonymousAtFile | children | stray => exact .refl a

end Walk

end LevelCheck
