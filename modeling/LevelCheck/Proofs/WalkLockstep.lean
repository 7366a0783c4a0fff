import LevelCheck.Proofs.References
import LevelCheck.Proofs.Lockstep
import LevelCheck.Proofs.TwoWalks
set_option autoImplicit false

/-! # Two walks side by side

What two walks with different policies do on their own, they do alike to states that are alike. So
they are a comparison that is kept as soon as inspecting a node keeps the runs together, and then they
stay together through all files of a batch. -/

namespace LevelCheck

namespace Walk

open Lockstep

variable (w : Walk) {k : Lockstep} {a b : Context}

/-! ## The walk of a file at another level -/

/-- The walk of the same file by the policy of another level. -/
def atLevel (policy : Level) : Walk := { w with policy }

theorem linkInterfaces_atLevel (policy : Level) :
    (w.atLevel policy).linkInterfaces = w.linkInterfaces := by
  funext id pos index interfaces cx
  induction interfaces generalizing index cx with
  | nil => rfl
  | cons written rest ih => exact ih _ _

theorem linkThrown_atLevel (policy : Level) : (w.atLevel policy).linkThrown = w.linkThrown := by
  funext id pos index throws cx
  induction throws generalizing index cx with
  | nil => rfl
  | cons written rest ih => exact ih _ _

theorem enterMethod_atLevel (policy : Level) : (w.atLevel policy).enterMethod = w.enterMethod := by
  funext owner pos decl cx
  rw [enterMethod, enterMethod, linkThrown_atLevel]
  rfl

/-! ## Records and links -/

section

variable (alike : k.Alike a b)
include alike

theorem reportAll_alike (pos : Position) (problems : List Problem) :
    k.Alike (w.reportAll pos problems a) (w.reportAll pos problems b) :=
  List.foldl_rel alike fun p _ _ _ before => before.report w.file pos p

theorem reportDuplicates_alike (declarators : List Declarator) (pos : Position)
    (problem : String → Problem) (duplicates : List String) :
    k.Alike (w.reportDuplicates declarators pos problem duplicates a)
      (w.reportDuplicates declarators pos problem duplicates b) :=
  List.foldl_rel alike fun name _ _ _ before => before.report w.file _ (problem name)

theorem linkVariables_alike (scope : ScopeRef) (declarators : List Declarator)
    (ids : List VariableId) :
    k.Alike (w.linkVariables scope declarators ids a) (w.linkVariables scope declarators ids b) :=
  List.foldl_rel alike fun entry _ _ _ before => before.linkType w.file _ entry.1.type _ _

theorem linkInterfaces_alike (id : SymbolId) (pos : Position) (index : Nat)
    (interfaces : List String) :
    k.Alike (w.linkInterfaces id pos index interfaces a)
      (w.linkInterfaces id pos index interfaces b) := by
  induction interfaces generalizing index a b with
  | nil => exact alike
  | cons written rest ih =>
    have entered := alike.modifyTable (fun t => t.modifySymbol id fun s =>
      { s with interfaces := s.interfaces ++ [.unresolved written] }) fun _ => rfl
    exact ih (entered.linkType w.file _ written pos _) _

theorem linkThrown_alike (id : MethodId) (pos : Position) (index : Nat) (throws : List String) :
    k.Alike (w.linkThrown id pos index throws a) (w.linkThrown id pos index throws b) := by
  induction throws generalizing index a b with
  | nil => exact alike
  | cons written rest ih => exact ih (alike.linkType w.file _ written pos _) _

theorem linkSuperclass_alike (id : SymbolId) (pos : Position) (qualified : String)
    (decl : TypeDecl) :
    k.Alike (w.linkSuperclass id pos qualified decl a)
      (w.linkSuperclass id pos qualified decl b) := by
  rw [linkSuperclass, linkSuperclass]
  split
  · next written _ =>
    have entered := alike.modifyTable (fun t => t.modifySymbol id fun s =>
      { s with superclass := some (.unresolved written) }) fun _ => rfl
    exact entered.linkType w.file _ written pos _
  · split
    · exact alike
    · refine alike.modifyTable (fun t => t.modifySymbol id fun s =>
        { s with superclass := some t.objectRef }) fun t => ?_
      rw [SymbolTable.objectRef_mapFinal]
      rfl

theorem enterFile_alike (package : Option String) (imports : List ImportDecl)
    (types : List NodeIndex) :
    k.Alike (w.enterFile package imports types a) (w.enterFile package imports types b) :=
  alike.modifyFile w.file fun f => f.header_mapLevel k.level package imports _

theorem linkSignature_alike (id : MethodId) (pos : Position) (decl : MethodDecl)
    (params : List Declarator) (ids : List VariableId) :
    k.Alike (w.linkSignature id pos decl params ids a) (w.linkSignature id pos decl params ids b) := by
  refine w.linkVariables_alike (w.linkThrown_alike ?_ id pos 0 decl.throws) _ params ids
  split
  · exact alike.linkType w.file _ _ pos _
  · exact alike

/-- The types that a declaration extends are linked. -/
theorem linkParents_alike (policy : Level) (id : SymbolId) (pos : Position) (qualified : String)
    (decl : TypeDecl) :
    k.Alike (w.linkParents id pos qualified decl a)
      ((w.atLevel policy).linkParents id pos qualified decl b) := by
  rw [linkParents, linkParents, linkInterfaces_atLevel]
  exact w.linkInterfaces_alike (w.linkSuperclass_alike alike id pos qualified decl) id pos 0 _

/-! ## Classes -/

/-- A class has the same name in both runs. -/
theorem qualifiedName_alike (scope : WalkScope) (simple : String) :
    (w.qualifiedName scope simple a).1 = (w.qualifiedName scope simple b).1
      ∧ k.Alike (w.qualifiedName scope simple a).2 (w.qualifiedName scope simple b).2 := by
  cases scope with
  | file =>
    rw [qualifiedName, qualifiedName]
    rcases alike.file_cases w.file with ⟨here, there⟩ | ⟨f, f', here, there, same⟩
    · rw [here, there]
      exact ⟨rfl, alike⟩
    · rw [here, there]
      have named := congrArg (·.qualify simple) same
      exact ⟨named, alike⟩
  | classBody id => exact ⟨by rw [qualifiedName, qualifiedName, alike.symbol], alike⟩
  | body id =>
    have owner := congrFun alike.enclosingSymbol id.scope
    simp only [qualifiedName]
    rw [owner]
    generalize b.table.enclosingSymbol id.scope = owner
    obtain ⟨count, numbered⟩ := alike.numberLocalClass owner
    have named := numbered.symbol owner
    simp only at named
    exact ⟨by rw [count, named], numbered⟩

end

/-! ## Variables -/

/-- Whether local variables are made final shows in no more than their finality. -/
theorem writtenVars_mapFinal (written : List Declarator) (scope : ScopeRef)
    {forceFinal forceFinal' : Bool}
    (forces : ∀ final, k.final (final || forceFinal) = k.final (final || forceFinal')) :
    (writtenVars written scope forceFinal).map (Variable.mapFinal k.final)
      = (writtenVars written scope forceFinal').map (Variable.mapFinal k.final) := by
  rw [writtenVars, writtenVars, List.map_map, List.map_map]
  refine List.map_congr_left fun d _ => ?_
  -- a declarator may ask for finality itself, and the policy may force it
  have forced (force : Bool) : (if force then (d.variable scope).setFinal else d.variable scope)
      = { d.variable scope with isFinal := (d.variable scope).isFinal || force } := by
    cases force <;> simp [Variable.setFinal]
  simp only [Function.comp_apply, forced, Variable.mapFinal, forces]

/-- Local variables that collide are recorded as such in the log. -/
theorem reportDuplicates_locals (declarators : List Declarator) (pos : Position)
    (duplicates : List String) (cx : Context) :
    w.reportDuplicates declarators pos (fun _ => .duplicateVariable) duplicates cx
      = { cx with
          log := cx.log.addCollisions (cx.fileName w.file)
            (fun name => (lastPosition? declarators name).getD pos) duplicates } := by
  induction duplicates generalizing cx with
  | nil => rfl
  | cons name rest ih => exact ih _

theorem addVars_duplicates (t : SymbolTable) (body : BodyId) (vars : List Variable)
    (policy : DuplicateScope) :
    (t.addVars body vars policy).1.duplicates = t.collidingIn body (vars.map (·.name)) policy := by
  cases body <;> rfl

/-- Local variables are entered, reported and linked in both runs. -/
theorem declareLocals_alike (alike : k.Alike a b) (body : BodyId) (written : List Declarator)
    (pos : Position) {force force' : Bool}
    (forces : ∀ final, k.final (final || force) = k.final (final || force')) :
    k.Alike (w.declareLocals body written pos force a) (w.declareLocals body written pos force' b) := by
  have same := writtenVars_mapFinal written body.scope forces
  obtain ⟨ids, entered⟩ := alike.addVars same body a.options.duplicateScope b.options.duplicateScope
  have names := (alike.appendVars same).2.2
  -- which names a body holds already is the same in both runs, by any policy
  have seen (policy : DuplicateScope) :
      a.table.collidingIn body ((writtenVars written body.scope force).map (·.name)) policy
        = b.table.collidingIn body ((writtenVars written body.scope force').map (·.name)) policy := by
    rw [SymbolTable.collidingIn, SymbolTable.collidingIn, names,
      alike.read (·.namesInBody body policy) fun t => t.namesInBody_mapFinal _ _ _]
  rw [declareLocals, declareLocals, declareVariables, declareVariables, ids]
  refine w.linkVariables_alike ?_ _ _ _
  rw [reportDuplicates_locals, reportDuplicates_locals, addVars_duplicates, addVars_duplicates, seen]
  refine { entered with log := ?_ }
  rw [entered.fileName]
  exact k.collide _ _ _ _ _ alike.options alike.log

/-- Fields are entered, reported and linked in both runs. -/
theorem declareFields_alike (alike : k.Alike a b) (id : SymbolId) (written : List Declarator)
    {force force' : Bool}
    (forces : ∀ final, k.final (final || force) = k.final (final || force')) :
    k.Alike (w.declareFields id written force a) (w.declareFields id written force' b) := by
  obtain ⟨declared, entered⟩ := alike.addFields (writtenVars_mapFinal written _ forces) id
  rw [declareFields, declareFields, declareVariables, declareVariables, declared]
  exact w.linkVariables_alike (w.reportDuplicates_alike entered _ _ _ _) _ _ _

/-! ## Methods -/

theorem declareParams_alike (alike : k.Alike a b) (id : MethodId) (pos : Position) (decl : MethodDecl)
    (params : List Declarator) :
    k.Alike (w.declareParams id pos decl params a) (w.declareParams id pos decl params b) := by
  obtain ⟨declared, placed⟩ := alike.addParams
    (rfl : (params.map (·.variable (.method id))).map (Variable.mapFinal k.final) = _) id
  simp only [declareParams, declared]
  exact w.linkSignature_alike (w.reportDuplicates_alike placed _ _ _ _) id pos decl params _

/-- A method is entered alike, with its parameters and the types it mentions. -/
theorem enterMethod_alike (alike : k.Alike a b) (owner : SymbolId) (pos : Position)
    (decl : MethodDecl) :
    (w.enterMethod owner pos decl a).1 = (w.enterMethod owner pos decl b).1
      ∧ k.Alike (w.enterMethod owner pos decl a).2 (w.enterMethod owner pos decl b).2 := by
  obtain ⟨id, entered⟩ := alike.addMethod (decl.record owner)
  have around := entered.symbol owner
  rw [enterMethod_eq, enterMethod_eq]
  generalize a.table.addMethod _ = added at *
  generalize b.table.addMethod _ = added' at *
  obtain ⟨id, t⟩ := added
  obtain ⟨_, t'⟩ := added'
  simp only at id entered around ⊢
  subst id
  rw [around]
  -- what the constructor is named after is the same class in both runs
  have named := w.reportAll_alike entered pos (constructorProblem? (t'.symbol owner) decl).toList
  exact ⟨rfl, w.declareParams_alike named id pos decl _⟩

/-! ## Visits -/

/-- Noting a node does not show in what two runs are compared by. -/
theorem note_alike (alike : k.Alike a b) (w' : Walk) (idx : NodeIndex) (remaining remaining' : Nat)
    (offer offer' : Option Offer) :
    k.Alike (w.note idx remaining offer a) (w'.note idx remaining' offer' b) :=
  { alike with }

/-- Inspecting a node leaves the states together, and skips the node in both or admits it in both. -/
def Agrees (k : Lockstep) (entry entry' : Option Admission × Context) : Prop :=
  k.ends entry.2.log.diagnostics.toList
    ∨ k.Alike entry.2 entry'.2
      ∧ Option.Rel (fun x y => ∀ final, k.final (final || x.forceFinal)
          = k.final (final || y.forceFinal)) entry.1 entry'.1

/-- Where the comparison leaves nothing out, a node is offered alike to the policy in both runs, and
the same comes of it, however many levels of nesting remain in either. -/
theorem inspect_agrees (exact : k.IsExact) (alike : k.Alike a b) (remaining remaining' : Nat)
    (scope : WalkScope) (idx : NodeIndex) (node : Node) :
    Agrees k (w.inspect remaining scope idx node a) (w.inspect remaining' scope idx node b) := by
  have inConstructor : inConstructor scope b = inConstructor scope a := by
    cases scope <;> simp [Walk.inConstructor, exact.table_eq alike]
  have offered : w.offer scope node b = w.offer scope node a := by
    simp only [offer, level, Context.file?, exact.files_eq alike, inConstructor]
  have noted (offer : Option Offer) := w.note_alike alike w idx remaining remaining' offer offer
  unfold inspect
  rw [exact.isPruned_eq alike, offered]
  split
  · exact .inr ⟨noted none, .none⟩
  · simp only
    split
    · split
      · exact .inr ⟨noted _, .none⟩
      · have pruned := (noted (some (w.offer scope node a))).reportPruning w.file idx node.pos
        exact .inr ⟨w.reportAll_alike (pruned _) node.pos _, .none⟩
    · exact .inr ⟨w.reportAll_alike (noted _) node.pos _, .some fun _ => rfl⟩

end Walk

namespace Lockstep

variable {k : Lockstep}

/-- A walk and the same walk with another policy. The scopes of two states that are alike stand for
themselves. -/
def comparison (k : Lockstep) (w : Walk) (policy : Level) : Comparison where
  walk := w
  walk' := w.atLevel policy
  rel := k.Alike
  twin a b s s' := s = s' ∧ s.IsOpenIn a.table ∧ s'.IsOpenIn b.table
  forces force force' := ∀ final, k.final (final || force) = k.final (final || force')
  ends := k.ends

/-- A scope is open in both of two states that are alike. -/
theorem Alike.isOpenIn {a b : Context} (alike : k.Alike a b) {scope : WalkScope}
    (isOpen : scope.IsOpenIn a.table) : scope.IsOpenIn b.table := by
  have same := alike.read (fun t => (t.size, t.methods.size, t.blocks.size)) fun t => by
    simp [SymbolTable.mapFinal, SymbolTable.size]
  obtain ⟨size, sizes⟩ := Prod.mk.inj same
  obtain ⟨methods, blocks⟩ := Prod.mk.inj sizes
  intro ref inScope
  have here := isOpen ref inScope
  cases ref with
  | symbol id =>
    refine ⟨size ▸ here.1, ?_⟩
    rw [← alike.symbol]
    exact here.2
  | method id =>
    rw [SymbolTable.IsOpen, ← methods]
    exact here
  | block id =>
    rw [SymbolTable.IsOpen, ← blocks]
    exact here

theorem comparison_isKept (k : Lockstep) (w : Walk) (policy : Level)
    (refuses : ∀ idx node {a b : Context}, k.Alike a b →
      k.Together (w.refuseDepth idx node a) ((w.atLevel policy).refuseDepth idx node b))
    (inspects : ∀ remaining scope idx node {a b : Context}, k.Alike a b →
      Walk.Agrees k (w.inspect remaining scope idx node a)
        ((w.atLevel policy).inspect remaining scope idx node b)) :
    (k.comparison w policy).IsKept where
  arena := rfl
  ends_mono := k.ends_mono
  unforced _ := rfl
  isOpen twins := twins.2
  kind twins := congrArg WalkScope.kind twins.1
  later twins precedes precedes' :=
    ⟨twins.1, precedes.isOpenIn twins.2.1, precedes'.isOpenIn twins.2.2⟩
  refuses := refuses
  inspects remaining idx node a b s s' twins alike := by
    obtain ⟨rfl, -⟩ := twins
    exact inspects remaining s idx node alike
  header package imports types a b alike := w.enterFile_alike alike package imports types
  mention type pos a b s s' twins alike := by
    obtain ⟨rfl, -⟩ := twins
    exact alike.linkType w.file _ type pos _
  named simple a b s s' twins alike := by
    obtain ⟨rfl, -⟩ := twins
    exact w.qualifiedName_alike alike s simple
  numbered {a b s s' ref ref'} twins here there alike := by
    obtain ⟨rfl, -⟩ := twins
    obtain rfl : ref = ref' := Option.some.inj (here.symm.trans there)
    rw [Walk.anonymousName, Walk.anonymousName, Walk.numbered, Walk.numbered,
      alike.enclosingSymbol]
    obtain ⟨count, numbered⟩ := alike.numberLocalClass (b.table.enclosingSymbol ref)
    have named := numbered.symbol (b.table.enclosingSymbol ref)
    simp only at named
    simp only [count, named]
    exact ⟨trivial, numbered⟩
  begins idx pos qualified head isHead a b s s' _ twins alike := by
    obtain ⟨rfl, isOpen, isOpen'⟩ := twins
    rcases alike.beginClass qualified s.ref? head with ⟨here, there⟩ | ⟨id, a', b', here, there, begun⟩
    · rw [here, there]
      exact .refused (alike.reportPruning w.file idx pos _)
    · have inside := Context.beginClass_isOpen here isHead
      have inside' := Context.beginClass_isOpen there isHead
      rw [here, there]
      exact .begun begun ⟨rfl, WalkScope.isOpenIn_classBody inside, WalkScope.isOpenIn_classBody inside'⟩
  parents pos qualified decl a b id id' twins alike := by
    obtain ⟨is, -⟩ := twins
    cases is
    exact w.linkParents_alike alike policy id pos qualified decl
  base type pos a b s s' id id' twins classes alike := by
    obtain ⟨rfl, -⟩ := twins
    obtain ⟨is, -⟩ := classes
    cases is
    exact alike.linkType w.file _ type pos _
  completes {a b id id'} twins alike := by
    obtain ⟨is, -⟩ := twins
    cases is
    exact alike.defineComplete id
  methods pos decl a b id id' twins alike := by
    obtain ⟨is, isOpen, isOpen'⟩ := twins
    cases is
    obtain ⟨same, entered⟩ := w.enterMethod_alike alike id pos decl
    obtain ⟨-, inside⟩ := w.enterMethod_run (isOpen _ rfl) pos decl
    obtain ⟨-, inside'⟩ := w.enterMethod_run (isOpen' _ rfl) pos decl
    simp only [comparison, Walk.enterMethod_atLevel]
    exact ⟨entered, congrArg (fun id => WalkScope.body (.method id)) same,
      WalkScope.isOpenIn_body inside, WalkScope.isOpenIn_body inside'⟩
  fields written force force' a b id id' twins forces alike := by
    obtain ⟨is, -⟩ := twins
    cases is
    exact w.declareFields_alike alike id written forces
  locals written pos force force' a b body body' twins forces alike := by
    obtain ⟨is, -⟩ := twins
    cases is
    exact w.declareLocals_alike alike body written pos forces
  block {a b s s' ref ref'} twins here there alike := by
    obtain ⟨rfl, -⟩ := twins
    obtain rfl : ref = ref' := Option.some.inj (here.symm.trans there)
    obtain ⟨same, opened⟩ := alike.addBlock ref
    exact ⟨opened, congrArg (fun id => WalkScope.body (.block id)) same,
      WalkScope.isOpenIn_body (Walk.addBlock_isOpen a.table ref),
      WalkScope.isOpenIn_body (Walk.addBlock_isOpen b.table ref)⟩

/-- Two walks that differ in their policies stay together, if inspecting a node keeps them so and
admitted nodes call for the same in both. -/
theorem visit_together (w : Walk) (policy : Level)
    (refuses : ∀ idx node {a b : Context}, k.Alike a b →
      k.Together (w.refuseDepth idx node a) ((w.atLevel policy).refuseDepth idx node b))
    (inspects : ∀ remaining scope idx node {a b : Context}, k.Alike a b →
      Walk.Agrees k (w.inspect remaining scope idx node a)
        ((w.atLevel policy).inspect remaining scope idx node b))
    (remaining : Nat) (mode : BlockMode) {scope : WalkScope} (idx : NodeIndex) {a b : Context}
    (isOpen : scope.IsOpenIn a.table) (alike : k.Alike a b) :
    k.Together (w.visit remaining mode scope idx a).2
      ((w.atLevel policy).visit remaining mode scope idx b).2 :=
  ((comparison_isKept k w policy refuses inspects).visit remaining).together mode idx
    ⟨rfl, isOpen, alike.isOpenIn isOpen⟩ alike

end Lockstep

/-! ## Files -/

namespace Context

open Lockstep

variable {k : Lockstep} {a b : Context}

/-- Two runs stay together file by file. -/
theorem analyzeFiles_together {R : SourceUnit → SourceUnit → Prop}
    (file : ∀ {unit unit' : SourceUnit} {a b : Context}, R unit unit' → k.Alike a b →
      k.Together (a.analyzeFile unit).2 (b.analyzeFile unit').2)
    {units units' : List SourceUnit} (related : List.Forall₂ R units units')
    (alike : k.Alike a b) : k.Together (a.analyzeFiles units) (b.analyzeFiles units') := by
  induction related generalizing a b with
  | nil => exact .inr alike
  | @cons unit unit' units units' first _ ih =>
    exact (file first alike).andThen (analyzeFiles_log _ units) ih

/-- Runs that are together can be settled. -/
theorem settle_together (together : k.Together a b) : k.Together a.settle b.settle :=
  together.andThen a.settle_settles.precedes.log fun alike => .inr alike.settle

end Context

end LevelCheck
