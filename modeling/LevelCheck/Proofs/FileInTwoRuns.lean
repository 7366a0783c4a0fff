import LevelCheck.Proofs.Counterparts
import LevelCheck.Proofs.SilentLinking
set_option autoImplicit false

/-! # A file in two runs

Two runs that walk the same tree agree in everything that shows of its file, though the first run may
have walked others before: `Pairing.Alongside` says in what. Whatever a walk does on its own keeps the
runs alongside each other. What they make of a node is recorded in both, a scope is entered in scopes
that stand for each other, and what a reference is linked to does not show. Only a class that the first
run refuses because another file has declared it parts them. -/

namespace LevelCheck

open SymbolTable

/-! ## Recording -/

namespace Context

/-- Between the states nothing has happened but that records have been made, and that a node of a file
has been pruned, if one is given. -/
structure Records (a b : Context) (file : FileId) (records : List Diagnostic)
    (node : Option NodeIndex) : Prop where
  table : b.table = a.table
  files : b.files = a.files
  options : b.options = a.options
  log : b.log.diagnostics.toList = a.log.diagnostics.toList ++ records
  pruned : ∀ e, e ∈ b.log.pruned ↔ e ∈ a.log.pruned ∨ ∃ n ∈ node, e = (file, n)

namespace Records

variable {a b : Context} {file : FileId} {records : List Diagnostic} {node : Option NodeIndex}

theorem refl (cx : Context) (file : FileId) : cx.Records cx file [] none :=
  ⟨rfl, rfl, rfl, (List.append_nil _).symm, fun e => by simp⟩

theorem report (made : a.Records b file records node) (pos : Position) (p : Problem) :
    a.Records (b.report file pos p) file (records ++ [.ofProblem (b.fileName file) pos p]) node := by
  refine ⟨made.table, made.files, made.options, ?_, made.pruned⟩
  rw [← List.append_assoc, ← made.log]
  exact Array.toList_push

theorem reportPruning (made : a.Records b file records none) (node : NodeIndex) (pos : Position)
    (p : Problem) : a.Records (b.reportPruning file node pos p) file
      (records ++ [(Diagnostic.ofProblem (b.fileName file) pos p).pruning]) (some node) := by
  refine ⟨made.table, made.files, made.options, ?_, fun e => ?_⟩
  · rw [← List.append_assoc, ← made.log]
    exact Array.toList_push
  · simp [Context.reportPruning, ErrorLog.addPruning, made.pruned, or_comm]

end Records

end Context

namespace Walk

variable (w : Walk) (cx : Context)

theorem note_records (idx : NodeIndex) (remaining : Nat) (offer : Option Offer) :
    cx.Records (w.note idx remaining offer cx) w.file [] none :=
  { Context.Records.refl cx w.file with }

theorem reportAll_records (pos : Position) (problems : List Problem) {before : Context}
    {records : List Diagnostic} {node : Option NodeIndex}
    (made : before.Records cx w.file records node) :
    before.Records (w.reportAll pos problems cx) w.file
      (records ++ problems.map (.ofProblem (cx.fileName w.file) pos)) node := by
  rw [reportAll_eq]
  refine ⟨made.table, made.files, made.options, ?_, made.pruned⟩
  simp [made.log]

/-- The problems of a node that the policy has admitted are recorded. -/
theorem admitted_records (remaining : Nat) (scope : WalkScope) (idx : NodeIndex) (node : Node)
    (problems : List Problem) {name : String} (named : cx.fileName w.file = name) :
    cx.Records (w.reportAll node.pos problems (w.offered remaining scope idx node cx)) w.file
      (problems.map (.ofProblem name node.pos)) none := by
  subst named
  exact w.reportAll_records _ node.pos problems (w.note_records cx idx remaining _)

/-- The first problem of a node that the policy has refused prunes the node. -/
theorem refused_records (remaining : Nat) (scope : WalkScope) (idx : NodeIndex) (node : Node)
    (first : Problem) (rest : List Problem) {name : String} (named : cx.fileName w.file = name) :
    cx.Records
      (w.reportAll node.pos rest
        ((w.offered remaining scope idx node cx).reportPruning w.file idx node.pos first)) w.file
      ((Diagnostic.ofProblem name node.pos first).pruning :: rest.map (.ofProblem name node.pos))
      (some idx) := by
  subst named
  have noted := w.note_records cx idx remaining (some (w.offer scope node cx))
  exact w.reportAll_records _ node.pos rest (noted.reportPruning idx node.pos first)

theorem refuseDepth_records (idx : NodeIndex) (node : Node) :
    cx.Records (w.refuseDepth idx node cx) w.file
      (if cx.log.isPruned w.file idx then [] else
        [(Diagnostic.ofProblem (cx.fileName w.file) node.pos
          (.nestingTooDeep cx.options.maxDepth)).pruning])
      (if cx.log.isPruned w.file idx then none else some idx) := by
  have noted := w.note_records cx idx 0 none
  rw [refuseDepth]
  split
  · next pruned =>
    have before : cx.log.isPruned w.file idx = true := pruned
    rw [if_pos before, if_pos before]
    exact noted
  · next fresh =>
    have before : ¬ cx.log.isPruned w.file idx = true := fresh
    rw [if_neg before, if_neg before]
    exact noted.reportPruning idx node.pos (.nestingTooDeep cx.options.maxDepth)

end Walk

/-! ## Runs beside each other -/

/-- A tree that is walked in two runs, as a file of each. -/
structure Pairing where
  arena : Arena
  policy : Level
  offsets : Offsets
  file : FileId
  file' : FileId
  /-- The name of the file, in both runs. -/
  name : String
  /-- What has been found in the first run before it comes to the file. -/
  before : List Diagnostic

/-- The walk in the first run. -/
def Pairing.walk (p : Pairing) : Walk := { arena := p.arena, policy := p.policy, file := p.file }

/-- The walk in the second run. -/
def Pairing.walk' (p : Pairing) : Walk := { arena := p.arena, policy := p.policy, file := p.file' }

/-- The states agree in everything that shows of the file: the tables stand beside each other, the same
nodes have been pruned, and the same has been found since the first run has come to the file. -/
structure Pairing.Alongside (p : Pairing) (a b : Context) : Prop where
  lifecycle : a.Lifecycle
  lifecycle' : b.Lifecycle
  tables : Beside p.offsets a.table b.table
  options : b.options = a.options
  files : ∃ f f', a.file? p.file = some f ∧ b.file? p.file' = some f' ∧ f.name = p.name
    ∧ f'.name = p.name ∧ f.level = f'.level ∧ f.package = f'.package
  pruned : ∀ node, (p.file, node) ∈ a.log.pruned ↔ (p.file', node) ∈ b.log.pruned
  /-- No node of a later file has been pruned. -/
  earlier : ∀ e ∈ a.log.pruned, e.1.val ≤ p.file.val
  findings : a.log.findings = p.before ++ b.log.findings
  named : ∀ d ∈ b.log.findings, d.file = some p.name

namespace Pairing.Alongside

variable {p : Pairing} {a b a' b' : Context} (alongside : p.Alongside a b)
include alongside

theorem fileName : a.fileName p.file = p.name ∧ b.fileName p.file' = p.name := by
  obtain ⟨f, f', here, there, name, name', -⟩ := alongside.files
  rw [Context.fileName, Context.fileName, here, there]
  exact ⟨name, name'⟩

theorem isPruned (node : NodeIndex) : a.log.isPruned p.file node = b.log.isPruned p.file' node := by
  rw [Bool.eq_iff_iff, ErrorLog.isPruned, ErrorLog.isPruned, List.contains_iff_mem,
    List.contains_iff_mem]
  exact alongside.pruned node

/-- What does not show keeps the states alongside each other. -/
theorem quiet (lifecycle : a'.Lifecycle) (lifecycle' : b'.Lifecycle) (silent : a.Silent a')
    (silent' : b.Silent b') : p.Alongside a' b' where
  lifecycle
  lifecycle'
  tables := alongside.tables.quiet silent.table silent'.table
  options := by rw [silent.options, silent'.options, alongside.options]
  files := by
    rw [Context.file?, Context.file?, silent.files, silent'.files]
    exact alongside.files
  pruned node := by rw [silent.pruned, silent'.pruned, alongside.pruned]
  earlier := by rw [silent.pruned]; exact alongside.earlier
  findings := by rw [silent.findings, silent'.findings, alongside.findings]
  named := by rw [silent'.findings]; exact alongside.named

section

variable (run : Run a a') (run' : Run b b')
include run run'

theorem silent (silent : a.Silent a') (silent' : b.Silent b') : p.Alongside a' b' :=
  alongside.quiet (alongside.lifecycle.run run) (alongside.lifecycle'.run run') silent silent'

/-- The same records are made in both runs. -/
theorem records {records : List Diagnostic} {node : Option NodeIndex}
    (made : a.Records a' p.file records node) (made' : b.Records b' p.file' records node)
    (named : ∀ d ∈ records, d.file = some p.name) : p.Alongside a' b' where
  lifecycle := alongside.lifecycle.run run
  lifecycle' := alongside.lifecycle'.run run'
  tables := by rw [made.table, made'.table]; exact alongside.tables
  options := by rw [made.options, made'.options, alongside.options]
  files := by
    rw [Context.file?, Context.file?, made.files, made'.files]
    exact alongside.files
  pruned n := by
    rw [made.pruned, made'.pruned, alongside.pruned]
    simp
  earlier e isIn := by
    rcases (made.pruned e).1 isIn with before | ⟨n, -, rfl⟩
    · exact alongside.earlier e before
    · exact le_rfl
  findings := by
    have before := alongside.findings
    rw [ErrorLog.findings, ErrorLog.findings] at before ⊢
    rw [made.log, made'.log, findings_append, findings_append, before, List.append_assoc]
  named d isIn := by
    rw [ErrorLog.findings, made'.log, findings_append] at isIn
    rcases List.mem_append.1 isIn with before | isNew
    · exact alongside.named d before
    · exact named d (List.mem_filter.1 isNew).1

end

/-- The tables are changed in a way that keeps them beside each other. -/
theorem enter {t t' : SymbolTable} (step : TableStep a.table t) (step' : TableStep b.table t')
    (tables : Beside p.offsets t t') :
    p.Alongside { a with table := t } { b with table := t' } :=
  { alongside with
    lifecycle := alongside.lifecycle.deed (.enter step)
    lifecycle' := alongside.lifecycle'.deed (.enter step')
    tables }

theorem report (pos : Position) {problem : Problem} (isOwn : problem.IsOwn) :
    p.Alongside (a.report p.file pos problem) (b.report p.file' pos problem) := by
  obtain ⟨here, there⟩ := alongside.fileName
  have made := (Context.Records.refl a p.file).report pos problem
  have made' := (Context.Records.refl b p.file').report pos problem
  rw [here] at made
  rw [there] at made'
  refine alongside.records (.deed (.report a _ pos isOwn)) (.deed (.report b _ pos isOwn)) made made'
    fun d isIn => ?_
  rw [List.mem_singleton.1 isIn]
  rfl

theorem reportEach {α : Type} (pos : α → Position) {problem : α → Problem} (xs : List α)
    (areOwn : ∀ x ∈ xs, (problem x).IsOwn) :
    p.Alongside (xs.foldl (fun cx x => cx.report p.file (pos x) (problem x)) a)
      (xs.foldl (fun cx x => cx.report p.file' (pos x) (problem x)) b) :=
  List.foldl_rel alongside fun x isIn _ _ before => before.report (pos x) (areOwn x isIn)

/-- The scopes of a walk stand for each other. -/
theorem enclosing {s s' : ScopeRef} (twins : Twins p.offsets a.table b.table s s') :
    Twins p.offsets a.table b.table (.symbol (a.table.enclosingSymbol s))
      (.symbol (b.table.enclosingSymbol s')) :=
  alongside.tables.enclosingSymbol alongside.lifecycle.owned.forest.scopes
    alongside.lifecycle'.owned.forest.scopes twins

/-- Tables are changed at open scopes that stand for each other. -/
theorem change {t t' : SymbolTable} (step : TableStep a.table t) (step' : TableStep b.table t')
    {r r' : ScopeRef} (twins : Twins p.offsets a.table b.table r r')
    (touches : a.table.Touches t (some r)) (touches' : b.table.Touches t' (some r'))
    (facts : t.facts r = t'.facts r') :
    p.Alongside { a with table := t } { b with table := t' } :=
  alongside.enter step step' (alongside.tables.change twins touches touches'
    alongside.lifecycle.owned.forest.classes.names alongside.lifecycle'.owned.forest.classes.names
    facts)

/-- A class is numbered in classes that stand for each other, and gets the same number of the same
class. -/
theorem number {s s' : ScopeRef} (twins : Twins p.offsets a.table b.table s s') :
    (a.table.numberLocalClass (a.table.enclosingSymbol s)).1
        = (b.table.numberLocalClass (b.table.enclosingSymbol s')).1
      ∧ ((Walk.numbered s a).table.symbol (a.table.enclosingSymbol s)).name
        = ((Walk.numbered s' b).table.symbol (b.table.enclosingSymbol s')).name
      ∧ p.Alongside (Walk.numbered s a) (Walk.numbered s' b) := by
  have owners := alongside.enclosing twins
  have facts := alongside.tables.facts _ _ owners
  have count := congrArg ScopeFacts.localClasses facts
  have touches (t : SymbolTable) (id : SymbolId) :
      t.Touches (t.numberLocalClass id).2 (some (.symbol id)) :=
    .modifySymbol _ _ (fun _ => rfl) fun _ h => h
  refine ⟨congrArg (· + 1) count, ?_, ?_⟩
  · cases (owners.grow (touches _ _).grows (touches _ _).grows).pairs with
    | symbol name => exact name
  · refine alongside.change (.number twins.isOpen) (.number twins.isOpen') owners (touches _ _)
      (touches _ _) ?_
    rw [facts_numberLocalClass owners.isOpen, facts_numberLocalClass owners.isOpen', facts]

/-! ### Variables -/

/-- Variables have been entered in both tables; the names that collide are reported. -/
theorem reportDuplicates (written : List Walk.Declarator) (pos : Position) {problem : String → Problem}
    (areOwn : ∀ name, (problem name).IsOwn) (duplicates : List String) :
    p.Alongside (p.walk.reportDuplicates written pos problem duplicates a)
      (p.walk'.reportDuplicates written pos problem duplicates b) :=
  alongside.reportEach _ duplicates fun name _ => areOwn name

omit alongside in
/-- Variables have been entered in both tables; they are reported and linked. -/
theorem declareVariables {scope scope' : ScopeRef}
    (twins : Twins p.offsets a.table b.table scope scope') {entry entry' : Declared × SymbolTable}
    (enters : a.table.Enters entry) (enters' : b.table.Enters entry')
    (entered : p.Alongside { a with table := entry.2 } { b with table := entry'.2 })
    (duplicates : entry'.1.duplicates = entry.1.duplicates) (written : List Walk.Declarator)
    (pos : Position) {problem : String → Problem} (areOwn : ∀ name, (problem name).IsOwn) :
    p.Alongside (p.walk.declareVariables scope written pos problem entry a)
      (p.walk'.declareVariables scope' written pos problem entry' b) := by
  obtain ⟨run, known⟩ := p.walk.enterVariables_run enters written pos areOwn
  obtain ⟨run', known'⟩ := p.walk'.enterVariables_run enters' written pos areOwn
  have isOpen := run.precedes.table.isOpen twins.isOpen
  have isOpen' := run'.precedes.table.isOpen twins.isOpen'
  have reported := entered.reportDuplicates written pos areOwn entry.1.duplicates
  rw [Walk.declareVariables, Walk.declareVariables]
  rw [duplicates] at known' isOpen' ⊢
  exact reported.silent (p.walk.linkVariables_run isOpen written known)
    (p.walk'.linkVariables_run isOpen' written known') (p.walk.linkVariables_silent _ _ _ _)
    (p.walk'.linkVariables_silent _ _ _ _)

omit alongside in
/-- The names that a declaration gives do not depend on where it stands. -/
theorem writtenVars_names (written : List Walk.Declarator) (scope : ScopeRef) (force : Bool) :
    (Walk.writtenVars written scope force).map (·.name) = written.map (·.name) := by
  rw [Walk.writtenVars, List.map_map]
  refine List.map_congr_left fun d _ => ?_
  simp only [Function.comp_apply]
  split <;> rfl

theorem declareFields {id id' : SymbolId}
    (twins : Twins p.offsets a.table b.table (.symbol id) (.symbol id'))
    (written : List Walk.Declarator) (force : Bool) :
    p.Alongside (p.walk.declareFields id written force a)
      (p.walk'.declareFields id' written force b) := by
  have lists := alongside.lifecycle.owned.forest.vars
  have lists' := alongside.lifecycle'.owned.forest.vars
  have facts := alongside.tables.facts _ _ twins
  have enters := addFields_enters twins.isOpen (Walk.writtenVars_areNew written _ force)
  have enters' := addFields_enters twins.isOpen' (Walk.writtenVars_areNew written _ force)
  have entered := alongside.change enters.step enters'.step twins (.addFields lists id _)
    (.addFields lists' id' _) (by rw [lists.facts_addFields _ twins.isOpen,
      lists'.facts_addFields _ twins.isOpen', facts, writtenVars_names, writtenVars_names])
  have duplicates (t : SymbolTable) (id : SymbolId) (vs : List Variable) :
      (t.addFields id vs).1.duplicates
        = collisions (t.facts (.symbol id)).names [] (vs.map (·.name)) := rfl
  refine declareVariables twins enters enters' entered ?_ written .nowhere fun name =>
    show (Problem.duplicateField name).IsOwn from trivial
  rw [duplicates, duplicates, facts, writtenVars_names, writtenVars_names]

theorem declareLocals {body body' : BodyId}
    (twins : Twins p.offsets a.table b.table body.scope body'.scope)
    (written : List Walk.Declarator) (pos : Position) (force : Bool) :
    p.Alongside (p.walk.declareLocals body written pos force a)
      (p.walk'.declareLocals body' written pos force b) := by
  have lists := alongside.lifecycle.owned.forest.vars
  have lists' := alongside.lifecycle'.owned.forest.vars
  have facts := alongside.tables.facts _ _ twins
  have seen := alongside.tables.namesInBody alongside.lifecycle.owned.forest.scopes
    alongside.lifecycle'.owned.forest.scopes twins a.options.duplicateScope
  have enters := addVars_enters twins.isOpen (Walk.writtenVars_areNew written _ force)
    a.options.duplicateScope
  have enters' := addVars_enters twins.isOpen' (Walk.writtenVars_areNew written _ force)
    b.options.duplicateScope
  have entered := alongside.change enters.step enters'.step twins (.addVars lists body _ _)
    (.addVars lists' body' _ _) (by rw [lists.facts_addVars _ twins.isOpen,
      lists'.facts_addVars _ twins.isOpen', facts, writtenVars_names, writtenVars_names])
  have duplicates (t : SymbolTable) (body : BodyId) (vs : List Variable) (policy : DuplicateScope) :
      (t.addVars body vs policy).1.duplicates
        = collisions (t.namesInBody body policy) [] (vs.map (·.name)) := by
    cases body <;> rfl
  refine declareVariables twins enters enters' entered ?_ written pos fun _ =>
    show Problem.duplicateVariable.IsOwn from trivial
  rw [duplicates, duplicates, alongside.options, seen, writtenVars_names, writtenVars_names]

/-! ### Methods and blocks -/

theorem addBlock {s s' : ScopeRef} (twins : Twins p.offsets a.table b.table s s') :
    p.Alongside (Walk.inBlock s a) (Walk.inBlock s' b)
      ∧ Twins p.offsets (Walk.inBlock s a).table (Walk.inBlock s' b).table
          (.block (a.table.addBlock s).1) (.block (b.table.addBlock s').1) := by
  have touches := Touches.addBlock a.table s
  have touches' := Touches.addBlock b.table s'
  have forest := alongside.lifecycle.owned.forest.addBlock twins.isOpen
  have forest' := alongside.lifecycle'.owned.forest.addBlock twins.isOpen'
  obtain ⟨-, methods, -⟩ := a.table.addBlock_sizes s
  obtain ⟨-, methods', -⟩ := b.table.addBlock_sizes s'
  have blocks (t : SymbolTable) (s : ScopeRef) : (t.addBlock s).2.blocks.size = t.blocks.size + 1 := by
    cases s <;> simp [SymbolTable.addBlock, modifySymbol, modifyMethod, modifyBlock]
  have twins' : Twins p.offsets (a.table.addBlock s).2 (b.table.addBlock s').2
      (.block (a.table.addBlock s).1) (.block (b.table.addBlock s').1) := by
    refine ⟨Walk.addBlock_isOpen _ _, Walk.addBlock_isOpen _ _, .block ?_⟩
    rw [addBlock_fst, addBlock_fst]
    exact alongside.tables.blocks
  refine ⟨alongside.enter (.block twins.isOpen) (.block twins.isOpen') ?_, twins'⟩
  refine alongside.tables.enter twins' touches touches' forest.classes.names forest'.classes.names ?_ ?_
    (fun name => ?_) ?_ ?_
  · rw [methods, methods', alongside.tables.methods]
  · rw [blocks, blocks, alongside.tables.blocks, Nat.add_assoc]
  · rw [touches.declares (by rintro _ ⟨⟩), touches'.declares (by rintro _ ⟨⟩)]
    exact alongside.tables.declares name
  · rw [facts_addBlock, facts_addBlock]
  · rw [around?, around?, (a.table.addBlock_isNew s).2, (b.table.addBlock_isNew s').2]
    exact .some (twins.grow touches.grows touches'.grows)

theorem addMethod {owner owner' : SymbolId}
    (twins : Twins p.offsets a.table b.table (.symbol owner) (.symbol owner'))
    (decl : Walk.MethodDecl) :
    p.Alongside { a with table := (a.table.addMethod (decl.record owner)).2 }
        { b with table := (b.table.addMethod (decl.record owner')).2 }
      ∧ Twins p.offsets (a.table.addMethod (decl.record owner)).2
          (b.table.addMethod (decl.record owner')).2
          (.method (a.table.addMethod (decl.record owner)).1)
          (.method (b.table.addMethod (decl.record owner')).1) := by
  have touches := Touches.addMethod a.table (decl.record owner)
  have touches' := Touches.addMethod b.table (decl.record owner')
  have forest := alongside.lifecycle.owned.forest.addMethod (m := decl.record owner) twins.isOpen
    rfl rfl rfl
  have forest' := alongside.lifecycle'.owned.forest.addMethod (m := decl.record owner') twins.isOpen'
    rfl rfl rfl
  have methods (t : SymbolTable) (m : Method) :
      (t.addMethod m).2.methods.size = t.methods.size + 1 := by
    simp [SymbolTable.addMethod]
  have twins' : Twins p.offsets (a.table.addMethod (decl.record owner)).2
      (b.table.addMethod (decl.record owner')).2 (.method (a.table.addMethod (decl.record owner)).1)
      (.method (b.table.addMethod (decl.record owner')).1) :=
    ⟨(Walk.addMethod_isNew _ _).1, (Walk.addMethod_isNew _ _).1, .method alongside.tables.methods⟩
  refine ⟨alongside.enter (.method twins.isOpen ..) (.method twins.isOpen' ..) ?_, twins'⟩
  refine alongside.tables.enter twins' touches touches' forest.classes.names forest'.classes.names ?_ ?_
    (fun name => ?_) ?_ ?_
  · rw [methods, methods, alongside.tables.methods, Nat.add_assoc]
  · exact alongside.tables.blocks
  · rw [touches.declares (by rintro _ ⟨⟩), touches'.declares (by rintro _ ⟨⟩)]
    exact alongside.tables.declares name
  · rw [facts_addMethod _ rfl, facts_addMethod _ rfl]
    rfl
  · rw [around?, around?, (Walk.addMethod_isNew _ _).2, (Walk.addMethod_isNew _ _).2]
    exact .some (twins.grow touches.grows touches'.grows)

/-- The parameters of a method are entered, reported and linked, with the other types that it
mentions. -/
theorem declareParams {id id' : MethodId}
    (twins : Twins p.offsets a.table b.table (.method id) (.method id'))
    (only : (a.table.method id).vars = (a.table.method id).params)
    (only' : (b.table.method id').vars = (b.table.method id').params) (pos : Position)
    (decl : Walk.MethodDecl) (params : List Walk.Declarator) :
    p.Alongside (p.walk.declareParams id pos decl params a)
      (p.walk'.declareParams id' pos decl params b) := by
  have lists := alongside.lifecycle.owned.forest.vars
  have lists' := alongside.lifecycle'.owned.forest.vars
  have facts := alongside.tables.facts _ _ twins
  have names (id : MethodId) :
      (params.map (·.variable (.method id))).map Variable.name = params.map (·.name) := by
    rw [List.map_map]
    rfl
  have enters := addParams_enters twins.isOpen only (Walk.params_areNew params id)
  have enters' := addParams_enters twins.isOpen' only' (Walk.params_areNew params id')
  have entered := alongside.change enters.step enters'.step twins (.addParams lists id _)
    (.addParams lists' id' _) (by rw [lists.facts_addParams _ twins.isOpen,
      lists'.facts_addParams _ twins.isOpen', facts, names, names])
  -- the parameters of a method can only collide among themselves
  have collide (t : SymbolTable) (id : MethodId) :
      (t.addParams id (params.map (·.variable (.method id)))).1.duplicates
        = collisions [] [] (params.map (·.name)) := by
    rw [← names id]
    rfl
  have isOwn (_ : String) : Problem.duplicateParameter.IsOwn := trivial
  obtain ⟨run, known⟩ := p.walk.enterVariables_run enters params pos isOwn
  obtain ⟨run', known'⟩ := p.walk'.enterVariables_run enters' params pos isOwn
  have isOpen := run.precedes.table.isOpen twins.isOpen
  have isOpen' := run'.precedes.table.isOpen twins.isOpen'
  have reported := entered.reportDuplicates params pos isOwn (collisions [] [] (params.map (·.name)))
  simp only [Walk.declareParams, collide] at known known' isOpen isOpen' ⊢
  exact reported.silent (p.walk.linkSignature_run isOpen pos decl params known)
    (p.walk'.linkSignature_run isOpen' pos decl params known')
    (p.walk.linkSignature_silent id pos decl params _ _)
    (p.walk'.linkSignature_silent id' pos decl params _ _)

/-- The name of a constructor is checked against that of its class. -/
theorem checkConstructor {owner owner' : SymbolId}
    (twins : Twins p.offsets a.table b.table (.symbol owner) (.symbol owner')) (pos : Position)
    (decl : Walk.MethodDecl) :
    p.Alongside
      (p.walk.reportAll pos (Walk.constructorProblem? (a.table.symbol owner) decl).toList a)
      (p.walk'.reportAll pos (Walk.constructorProblem? (b.table.symbol owner') decl).toList b) := by
  have same : (a.table.symbol owner).constructorName = (b.table.symbol owner').constructorName := by
    cases twins.pairs with
    | symbol name => rw [Symbol.constructorName, Symbol.simpleName, name]; rfl
  have problem : Walk.constructorProblem? (b.table.symbol owner') decl
      = Walk.constructorProblem? (a.table.symbol owner) decl := by
    rw [Walk.constructorProblem?, Walk.constructorProblem?, same]
  rw [problem]
  exact alongside.reportEach (fun _ => pos) _ (Walk.constructorProblem_isOwn _ decl)

theorem enterMethod {owner owner' : SymbolId}
    (twins : Twins p.offsets a.table b.table (.symbol owner) (.symbol owner')) (pos : Position)
    (decl : Walk.MethodDecl) :
    p.Alongside (p.walk.enterMethod owner pos decl a).2 (p.walk'.enterMethod owner' pos decl b).2
      ∧ Twins p.offsets (p.walk.enterMethod owner pos decl a).2.table
          (p.walk'.enterMethod owner' pos decl b).2.table
          (.method (p.walk.enterMethod owner pos decl a).1)
          (.method (p.walk'.enterMethod owner' pos decl b).1) := by
  obtain ⟨-, isOpen⟩ := p.walk.enterMethod_run twins.isOpen pos decl
  obtain ⟨-, isOpen'⟩ := p.walk'.enterMethod_run twins.isOpen' pos decl
  refine ⟨?_, isOpen, isOpen', .method alongside.tables.methods⟩
  clear isOpen isOpen'
  -- the methods are added without parameters
  have only (t : SymbolTable) (owner : SymbolId) :
      ((t.addMethod (decl.record owner)).2.method (t.addMethod (decl.record owner)).1).vars
        = ((t.addMethod (decl.record owner)).2.method (t.addMethod (decl.record owner)).1).params := by
    rw [(Walk.addMethod_isNew t (decl.record owner)).2]
    rfl
  have bare := only a.table owner
  have bare' := only b.table owner'
  obtain ⟨entered, inside⟩ := alongside.addMethod twins decl
  have owners := twins.grow (Grows.addMethod a.table (decl.record owner))
    (Grows.addMethod b.table (decl.record owner'))
  rw [Walk.enterMethod_eq, Walk.enterMethod_eq]
  generalize a.table.addMethod (decl.record owner) = added at *
  generalize b.table.addMethod (decl.record owner') = added' at *
  have checked := entered.checkConstructor owners pos decl
  refine checked.declareParams ?_ ?_ ?_ pos decl _ <;> simp only [Walk.reportAll_table]
  · exact inside
  · exact bare
  · exact bare'

/-! ### Classes -/

section

variable {qualified : String} {outer outer' : Option ScopeRef} {head : Symbol → Symbol}
  (isHead : Symbol.IsHead head) (around : Option.Rel (Twins p.offsets a.table b.table) outer outer')
  (named : ∀ ref ∈ outer, ∃ own, qualified
    = Resolution.memberName (a.table.symbol (a.table.enclosingSymbol ref)).name own)
include isHead around named

/-- A class that begins in both runs is opened in both. -/
theorem opens {id id' : SymbolId} {c d : Context}
    (begun : a.beginClass? qualified outer head = some (id, c))
    (begun' : b.beginClass? qualified outer' head = some (id', d)) : Opens a id c ∧ Opens b id' d := by
  cases around with
  | none => exact ⟨⟨begun, isHead, nofun, nofun⟩, begun', isHead, nofun, nofun⟩
  | some twins =>
    refine ⟨⟨begun, isHead, ?_, named⟩, begun', isHead, ?_, ?_⟩
    · rintro s ⟨⟩
      exact twins.isOpen
    · rintro s ⟨⟩
      exact twins.isOpen'
    · -- the class around the scope has the same name in both runs
      rintro s ⟨⟩
      obtain ⟨own, is⟩ := named _ rfl
      cases (alongside.enclosing twins).pairs with
      | symbol name => exact ⟨own, by rw [is, name]⟩

/-- Classes that begin in both runs stand for each other. -/
theorem begun {id id' : SymbolId} {c d : Context}
    (begun : a.beginClass? qualified outer head = some (id, c))
    (begun' : b.beginClass? qualified outer' head = some (id', d)) :
    p.Alongside c d ∧ Twins p.offsets c.table d.table (.symbol id) (.symbol id') := by
  have began := Context.beginClass_began alongside.lifecycle.owned.forest begun isHead
  have began' := Context.beginClass_began alongside.lifecycle'.owned.forest begun' isHead
  obtain ⟨opens, opens'⟩ := alongside.opens isHead around named begun begun'
  have isOpen := opens.isOpen
  have isOpen' := opens'.isOpen
  have lifecycle := alongside.lifecycle.opens opens
  have lifecycle' := alongside.lifecycle'.opens opens'
  obtain ⟨t, started, rfl⟩ := Context.beginClass_some begun
  obtain ⟨t', started', rfl⟩ := Context.beginClass_some begun'
  have name {t u : SymbolTable} {id : SymbolId} (started : t.beginDefinition qualified = .ok (id, u))
      (outer : Option ScopeRef) : ((u.enterClass id outer head).symbol id).name = qualified := by
    obtain ⟨known, named, -⟩ := beginDefinition_named started
    rw [(Grows.enterClass u id outer isHead).name id known, named]
  have touches := (Touches.beginDefinition started).trans (.enterClass t id outer isHead)
  have touches' := (Touches.beginDefinition started').trans (.enterClass t' id' outer' isHead)
  have twins : Twins p.offsets (t.enterClass id outer head) (t'.enterClass id' outer' head)
      (.symbol id) (.symbol id') := by
    refine ⟨isOpen, isOpen', .symbol ?_ fun builtin => began.isNew ?_⟩
    · rw [name started, name started']
    · rw [name started] at builtin
      exact (alongside.lifecycle.declares qualified).2 (List.mem_append_left _ builtin)
  refine ⟨{ alongside with lifecycle, lifecycle', tables := ?_ }, twins⟩
  refine alongside.tables.enter twins touches touches' lifecycle.owned.forest.classes.names
    lifecycle'.owned.forest.classes.names ?_ ?_ (fun n => ?_) ?_ .none
  · rw [touches.methods_size nofun, touches'.methods_size nofun, alongside.tables.methods]
  · rw [touches.blocks_size nofun, touches'.blocks_size nofun, alongside.tables.blocks]
  · rw [began.declares, began'.declares]
    exact Or.imp_left (alongside.tables.declares n)
  · rw [facts_enterClass t id outer isHead, facts_enterClass t' id' outer' isHead,
      alongside.lifecycle.untouched.blank.facts_begun started,
      alongside.lifecycle'.untouched.blank.facts_begun started']

/-- A class whose name is taken in the second run is refused in the first as well. -/
theorem beginClass :
    a.beginClass? qualified outer head = none
      ∨ ∃ id id' c d, a.beginClass? qualified outer head = some (id, c)
        ∧ b.beginClass? qualified outer' head = some (id', d) ∧ p.Alongside c d
        ∧ Twins p.offsets c.table d.table (.symbol id) (.symbol id') := by
  cases begun : a.beginClass? qualified outer head with
  | none => exact .inl rfl
  | some entry =>
    obtain ⟨id, c⟩ := entry
    -- what is not declared in the first table is not declared in the second
    have isNew := (Context.beginClass_began alongside.lifecycle.owned.forest begun isHead).isNew
    have free : ¬ b.table.Declares qualified :=
      fun declared => isNew (alongside.tables.declares _ declared)
    obtain ⟨⟨id', t⟩, accepted⟩ :=
      (beginDefinition_iff alongside.lifecycle'.owned.forest.classes.names qualified).2 free
    obtain ⟨d, begun'⟩ : ∃ d, b.beginClass? qualified outer' head = some (id', d) :=
      ⟨_, by rw [Context.beginClass?, accepted]⟩
    exact .inr ⟨id, id', c, d, rfl, begun', alongside.begun isHead around named begun begun'⟩

end

end Pairing.Alongside

end LevelCheck
