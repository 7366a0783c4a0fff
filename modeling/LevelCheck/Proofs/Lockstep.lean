import LevelCheck.Proofs.FinalityAndLevels
import LevelCheck.Proofs.Settling
import LevelCheck.Proofs.WalkRun
set_option autoImplicit false

/-! # Two runs side by side

Two runs over the same trees that differ in a level or in an option go through states that are alike:
what one looks up the other finds too, and what one changes the other changes in the same way. How
far their logs and options may differ depends on what is compared, and so does what ends the
comparison: from then on, nothing more is claimed about the two runs. Whatever a walk does to both
states, apart from offering nodes to a policy and stopping at the depth limit, keeps them alike. -/

namespace LevelCheck

/-- The names that collide when variables of these names are declared in a body. -/
def SymbolTable.collidingIn (t : SymbolTable) (body : BodyId) (names : List String)
    (policy : DuplicateScope) : List String :=
  collisions (t.namesInBody body policy) [] names

/-- Record that local variables of these names have been declared twice. -/
def ErrorLog.addCollisions (log : ErrorLog) (file : String) (pos : String → Position)
    (names : List String) : ErrorLog :=
  names.foldl (fun log name => log.add (.ofProblem file (pos name) .duplicateVariable)) log

/-- How two runs are compared. -/
structure Lockstep where
  /-- What is compared of the finality of a variable. -/
  final : Bool → Bool
  /-- What is compared of the level of a file. -/
  level : Level → Level
  options : Options → Options → Prop
  logs : ErrorLog → ErrorLog → Prop
  /-- The records of the first run that end the comparison. -/
  ends : List Diagnostic → Prop
  ends_mono {records more : List Diagnostic} : records <+: more → ends records → ends more
  add {log log' : ErrorLog} (d : Diagnostic) : logs log log' → logs (log.add d) (log'.add d)
  addPruning {log log' : ErrorLog} (file : FileId) (node : NodeIndex) (d : Diagnostic) :
    logs log log' → logs (log.addPruning file node d) (log'.addPruning file node d)
  /-- Local variables may collide by the options of one run and not by those of the other. -/
  collide {o o' : Options} {log log' : ErrorLog} (t : SymbolTable) (body : BodyId)
    (names : List String) (file : String) (pos : String → Position) :
    options o o' → logs log log' →
    logs (log.addCollisions file pos (t.collidingIn body names o.duplicateScope))
      (log'.addCollisions file pos (t.collidingIn body names o'.duplicateScope))

namespace Lockstep

variable {k : Lockstep}

/-- The states do not differ beyond what the comparison allows. -/
structure Alike (k : Lockstep) (a b : Context) : Prop where
  table : a.table.mapFinal k.final = b.table.mapFinal k.final
  files : a.files.map (FileScope.mapLevel k.level) = b.files.map (FileScope.mapLevel k.level)
  pending : a.pending = b.pending
  history : a.history = b.history
  options : k.options a.options b.options
  log : k.logs a.log b.log

/-- The states are alike, unless the comparison has ended. -/
def Together (k : Lockstep) (a b : Context) : Prop :=
  k.ends a.log.diagnostics.toList ∨ k.Alike a b

/-- What is done to states that are alike is done to states that are together. -/
theorem Together.andThen {a b a' b' : Context} (together : k.Together a b)
    (log : a.log.diagnostics.toList <+: a'.log.diagnostics.toList)
    (alike : k.Alike a b → k.Together a' b') : k.Together a' b' := by
  rcases together with ended | same
  · exact .inl (k.ends_mono log ended)
  · exact alike same

namespace Alike

variable {a b : Context} (alike : k.Alike a b)
include alike

/-! ## Reading states that are alike -/

theorem read {α : Type} (read : SymbolTable → α)
    (blind : ∀ t, read (t.mapFinal k.final) = read t) : read a.table = read b.table := by
  rw [← blind, alike.table, blind]

theorem symbol (id : SymbolId) : a.table.symbol id = b.table.symbol id :=
  alike.read (·.symbol id) fun t => t.symbol_mapFinal _ id

theorem enclosingSymbol : a.table.enclosingSymbol = b.table.enclosingSymbol :=
  alike.read (·.enclosingSymbol) fun t => funext (t.enclosingSymbol_mapFinal _)

theorem file (id : FileId) :
    (a.file? id).map (FileScope.mapLevel k.level) = (b.file? id).map (FileScope.mapLevel k.level) := by
  rw [Context.file?, Context.file?, ← Array.getElem?_map, ← Array.getElem?_map, alike.files]

theorem fileName (id : FileId) : a.fileName id = b.fileName id := by
  have same := congrArg (Option.map FileScope.name) (alike.file id)
  simp only [Option.map_map] at same
  rw [Context.fileName, Context.fileName]
  cases here : a.file? id <;> cases there : b.file? id <;> simp_all [FileScope.mapLevel]

/-- A file of one run is a file of the other, with the same names. -/
theorem file_cases (id : FileId) : a.file? id = none ∧ b.file? id = none
    ∨ ∃ f f', a.file? id = some f ∧ b.file? id = some f'
        ∧ f.mapLevel k.level = f'.mapLevel k.level := by
  have same := alike.file id
  cases here : a.file? id with
  | none =>
    rw [here] at same
    exact .inl ⟨rfl, Option.map_eq_none_iff.1 same.symm⟩
  | some f =>
    rw [here] at same
    obtain ⟨f', there, eq⟩ := Option.map_eq_some_iff.1 same.symm
    exact .inr ⟨f, f', rfl, there, eq.symm⟩

/-! ## Changing states that are alike -/

theorem withTables {t t' : SymbolTable} (same : t.mapFinal k.final = t'.mapFinal k.final) :
    k.Alike { a with table := t } { b with table := t' } := { alike with table := same }

theorem modifyTable (change : SymbolTable → SymbolTable)
    (commutes : ∀ t, change (t.mapFinal k.final) = (change t).mapFinal k.final) :
    k.Alike (a.modifyTable change) (b.modifyTable change) :=
  alike.withTables (by rw [← commutes, alike.table, commutes])

theorem happened (e : Event) : k.Alike (a.happened e) (b.happened e) :=
  { alike with history := congrArg (·.push e) alike.history }

theorem report (file : FileId) (pos : Position) (p : Problem) :
    k.Alike (a.report file pos p) (b.report file pos p) := by
  refine { alike with log := ?_ }
  rw [Context.report, Context.report, alike.fileName]
  exact k.add _ alike.log

theorem reportPruning (file : FileId) (node : NodeIndex) (pos : Position) (p : Problem) :
    k.Alike (a.reportPruning file node pos p) (b.reportPruning file node pos p) := by
  refine { alike with log := ?_ }
  rw [Context.reportPruning, Context.reportPruning, alike.fileName]
  exact k.addPruning _ _ _ alike.log

theorem apply (file : FileId) (pos : Position) (link : Link) (target : SymbolId) :
    k.Alike (a.apply file pos link target) (b.apply file pos link target) := by
  have filled := alike.modifyTable (·.fill link target) fun t => t.fill_mapFinal _ link target
  have problem := filled.read (·.linkProblem? link target) fun t => t.linkProblem_mapFinal _ link target
  simp only [Context.apply]
  rw [problem]
  split
  · exact filled.report file pos _
  · exact filled

theorem resume (r : PendingReference) (target : SymbolId) :
    k.Alike (Context.resume r target a) (Context.resume r target b) :=
  (alike.happened (.resumed r target)).apply r.file r.position r.link target

theorem reference {f f' : FileScope} (same : f.mapLevel k.level = f'.mapLevel k.level)
    (file : FileId) (scope : Option ScopeRef) (name : String) (pos : Position) (link : Link) :
    a.reference f file scope name pos link = b.reference f' file scope name pos link := by
  -- neither the level of a file nor the finality of a variable has a part in naming a class
  have names : Resolution.names a.table f (scope.map a.table.enclosingSymbol) name
      = Resolution.names b.table f' (scope.map b.table.enclosingSymbol) name := by
    rw [← Resolution.names_mapLevel _ k.final f k.level, same, alike.table,
      Resolution.names_mapLevel, alike.enclosingSymbol]
  have key : Resolution.waitingName f name = Resolution.waitingName f' name := by
    have eq := congrArg (Resolution.waitingName · name) same
    exact eq
  rw [Context.reference, Context.reference, names, key]

theorem linkType (file : FileId) (scope : Option ScopeRef) (written : String) (pos : Position)
    (link : Link) :
    k.Alike (a.linkType file scope written pos link) (b.linkType file scope written pos link) := by
  have noClass : a.namesNoClass scope (baseTypeName written)
      = b.namesNoClass scope (baseTypeName written) := by
    cases scope with
    | none => rfl
    | some s =>
      have param := alike.read (·.isTypeParam s (baseTypeName written)) fun t =>
        t.isTypeParam_mapFinal _ _ _
      simp only [Context.namesNoClass, param]
  simp only [Context.linkType]
  rw [noClass]
  split
  · -- the name denotes no class
    exact alike
  · rcases alike.file_cases file with ⟨here, there⟩ | ⟨f, f', here, there, same⟩
    · rw [here, there]
      exact alike
    · have resolved : Resolution.ofName a.table f (scope.map a.table.enclosingSymbol)
            (baseTypeName written)
          = Resolution.ofName b.table f' (scope.map b.table.enclosingSymbol)
            (baseTypeName written) := by
        rw [← Resolution.ofName_mapLevel _ k.final f k.level, same, alike.table,
          Resolution.ofName_mapLevel, alike.enclosingSymbol]
      have reference := alike.reference same file scope (baseTypeName written) pos link
      simp only [here, there, resolved, reference]
      generalize b.reference f' file scope (baseTypeName written) pos link = r
      split
      · exact (alike.happened (.linked r _)).apply file pos link _
      · next waited alternatives _ =>
        -- the class is only referred to, and the reference waits for it
        have named := (alike.happened (.deferred r)).modifyTable
          (fun t => (t.getOrAddPlaceholder waited).2)
          fun t => congrArg Prod.snd (t.getOrAddPlaceholder_mapFinal _ waited)
        have requested := congrArg (·.request
          { name := waited, alternatives, position := pos, file, link }) alike.pending
        exact { named with pending := requested }

section

/-! ### Declaring variables

The variables need not be final in both runs where that is not compared. -/

variable {vars vars' : List Variable}
  (same : vars.map (Variable.mapFinal k.final) = vars'.map (Variable.mapFinal k.final))
include same

theorem appendVars :
    (a.table.appendVars vars).mapFinal k.final = (b.table.appendVars vars').mapFinal k.final
      ∧ a.table.nextVariables vars.length = b.table.nextVariables vars'.length
      ∧ vars.map (·.name) = vars'.map (·.name) := by
  have names := congrArg (List.map Variable.name) same
  have length := congrArg List.length same
  simp only [List.map_map, List.length_map] at names length
  refine ⟨?_, ?_, names⟩
  · rw [← SymbolTable.appendVars_mapFinal, alike.table, same, SymbolTable.appendVars_mapFinal]
  · rw [alike.read (·.nextVariables vars.length) fun t => t.nextVariables_mapFinal _ _, length]

theorem addFields (id : SymbolId) :
    (a.table.addFields id vars).1 = (b.table.addFields id vars').1
      ∧ k.Alike { a with table := (a.table.addFields id vars).2 }
          { b with table := (b.table.addFields id vars').2 } := by
  obtain ⟨appended, next, names⟩ := alike.appendVars same
  have seen := alike.read (fun t => t.varNames (t.symbol id).fields) fun t => t.varNames_mapFinal _ _
  refine ⟨?_, alike.withTables ?_⟩
  · simp only [SymbolTable.addFields, SymbolTable.declare_fst, seen, next, names]
  · rw [SymbolTable.addFields_table, SymbolTable.addFields_table,
      ← SymbolTable.modifySymbol_mapFinal, appended, next, SymbolTable.modifySymbol_mapFinal]

theorem addParams (id : MethodId) :
    (a.table.addParams id vars).1 = (b.table.addParams id vars').1
      ∧ k.Alike { a with table := (a.table.addParams id vars).2 }
          { b with table := (b.table.addParams id vars').2 } := by
  obtain ⟨appended, next, names⟩ := alike.appendVars same
  refine ⟨?_, alike.withTables ?_⟩
  · simp only [SymbolTable.addParams, SymbolTable.declare_fst, next, names]
  · rw [SymbolTable.addParams_table, SymbolTable.addParams_table,
      ← SymbolTable.modifyMethod_mapFinal, appended, next, SymbolTable.modifyMethod_mapFinal]

/-- Which local variables collide may depend on the options. -/
theorem addVars (body : BodyId) (policy policy' : DuplicateScope) :
    (a.table.addVars body vars policy).1.ids = (b.table.addVars body vars' policy').1.ids
      ∧ k.Alike { a with table := (a.table.addVars body vars policy).2 }
          { b with table := (b.table.addVars body vars' policy').2 } := by
  obtain ⟨appended, next, names⟩ := alike.appendVars same
  refine ⟨?_, alike.withTables ?_⟩
  · rw [SymbolTable.addVars_ids, SymbolTable.addVars_ids, next]
  · rw [SymbolTable.addVars_table, SymbolTable.addVars_table, ← SymbolTable.listVars_mapFinal,
      appended, next, SymbolTable.listVars_mapFinal]

end

theorem addMethod (m : Method) :
    (a.table.addMethod m).1 = (b.table.addMethod m).1
      ∧ k.Alike { a with table := (a.table.addMethod m).2 }
          { b with table := (b.table.addMethod m).2 } := by
  refine ⟨alike.read (fun t => (t.addMethod m).1) fun t => ?_,
    alike.modifyTable (fun t => (t.addMethod m).2) fun t => ?_⟩
  · rw [SymbolTable.addMethod_mapFinal]
  · rw [SymbolTable.addMethod_mapFinal]

theorem addBlock (outer : ScopeRef) :
    (a.table.addBlock outer).1 = (b.table.addBlock outer).1
      ∧ k.Alike { a with table := (a.table.addBlock outer).2 }
          { b with table := (b.table.addBlock outer).2 } := by
  refine ⟨alike.read (fun t => (t.addBlock outer).1) fun t => ?_,
    alike.modifyTable (fun t => (t.addBlock outer).2) fun t => ?_⟩
  · rw [SymbolTable.addBlock_mapFinal]
  · rw [SymbolTable.addBlock_mapFinal]

theorem numberLocalClass (owner : SymbolId) :
    (a.table.numberLocalClass owner).1 = (b.table.numberLocalClass owner).1
      ∧ k.Alike { a with table := (a.table.numberLocalClass owner).2 }
          { b with table := (b.table.numberLocalClass owner).2 } := by
  refine ⟨?_, alike.modifyTable (fun t => (t.numberLocalClass owner).2) fun _ => rfl⟩
  rw [SymbolTable.numberLocalClass, SymbolTable.numberLocalClass, alike.symbol]

/-- A class can be begun in both states or in neither, and under the same id. -/
theorem beginClass (qualified : String) (outer : Option ScopeRef) (head : Symbol → Symbol) :
    a.beginClass? qualified outer head = none ∧ b.beginClass? qualified outer head = none
      ∨ ∃ id a' b', a.beginClass? qualified outer head = some (id, a')
          ∧ b.beginClass? qualified outer head = some (id, b') ∧ k.Alike a' b' := by
  have begun : (a.table.beginDefinition qualified).map
        (fun begun => (begun.1, begun.2.mapFinal k.final))
      = (b.table.beginDefinition qualified).map fun begun => (begun.1, begun.2.mapFinal k.final) := by
    rw [← SymbolTable.beginDefinition_mapFinal, alike.table, SymbolTable.beginDefinition_mapFinal]
  simp only [Context.beginClass?]
  cases here : a.table.beginDefinition qualified <;> cases there : b.table.beginDefinition qualified
    <;> rw [here, there] at begun
  case error.error => exact .inl ⟨rfl, rfl⟩
  case ok.ok one other =>
    obtain ⟨id, same⟩ := Prod.mk.inj (Except.ok.inj begun)
    refine .inr ⟨_, _, _, rfl, by rw [id], (alike.happened _).withTables ?_⟩
    rw [← SymbolTable.enterClass_mapFinal, same, SymbolTable.enterClass_mapFinal, id]
  all_goals cases begun

theorem resumeAll (released : List PendingReference) (target : SymbolId) :
    k.Alike (released.foldl (fun cx r => Context.resume r target cx) a)
      (released.foldl (fun cx r => Context.resume r target cx) b) := by
  induction released generalizing a b with
  | nil => exact alike
  | cons r rest ih => exact ih (alike.resume r target)

theorem defineComplete (id : SymbolId) : k.Alike (a.defineComplete id) (b.defineComplete id) := by
  have finished := alike.modifyTable (·.finishDefinition id) fun _ => rfl
  -- the completed class has the same name in both runs, so the same references wait for it
  have waiting : a.waitingFor id = b.waitingFor id := by
    have named := finished.symbol id
    simp only [Context.modifyTable] at named
    rw [Context.waitingFor, Context.waitingFor, named, alike.pending]
  have released : k.Alike
      { a with table := a.table.finishDefinition id, pending := (b.waitingFor id).2 }
      { b with table := b.table.finishDefinition id, pending := (b.waitingFor id).2 } :=
    { finished with pending := rfl }
  rw [Context.defineComplete_eq, Context.defineComplete_eq, waiting]
  exact released.resumeAll _ id

/-- Settling keeps states alike: what waits is the same in both, and denotes the same. -/
theorem settle : k.Alike a.settle b.settle := by
  have roll : b.table.roll = a.table.roll := (alike.read (·.roll) fun _ => rfl).symm
  have denoted (r : PendingReference) : r.target? b.table = r.target? a.table :=
    SymbolTable.target_of_roll roll r
  have ready : b.pending.ready b.table = a.pending.ready a.table := by
    simp only [Pending.ready, denoted, alike.pending]
  have stuck : b.pending.stuck b.table = a.pending.stuck a.table := by
    simp only [Pending.stuck, denoted, alike.pending]
  rw [Context.settle_eq, Context.settle_eq, ready, stuck]
  have emptied : k.Alike { a with pending := .empty } { b with pending := .empty } :=
    { alike with pending := rfl }
  have linked : k.Alike
      ((a.pending.ready a.table).foldl (fun cx e => Context.resume e.1 e.2 cx)
        { a with pending := .empty })
      ((a.pending.ready a.table).foldl (fun cx e => Context.resume e.1 e.2 cx)
        { b with pending := .empty }) :=
    List.foldl_rel emptied fun e _ _ _ before => before.resume e.1 e.2
  refine List.foldl_rel linked fun r _ c d before => ?_
  have noted := before.happened (.abandoned r)
  refine { noted with log := ?_ }
  rw [Context.abandon, Context.abandon, before.fileName]
  exact k.add _ before.log

/-! ## Files -/

theorem modifyFile (file : FileId) {change : FileScope → FileScope}
    (commutes : ∀ f, change (f.mapLevel k.level) = (change f).mapLevel k.level) :
    k.Alike (a.modifyFile file change) (b.modifyFile file change) := by
  have modified (files : Array FileScope) :=
    map_modify_comm files file.val change change fun f => (commutes f).symm
  refine { alike with files := ?_ }
  rw [Context.modifyFile, Context.modifyFile, modified, modified, alike.files]

theorem addFile (name : String) (l l' : Level) (levels : k.level l = k.level l') :
    (a.addFile name l).1 = (b.addFile name l').1
      ∧ k.Alike (a.addFile name l).2 (b.addFile name l').2 := by
  have size : a.files.size = b.files.size := by
    have same := congrArg Array.size alike.files
    simpa using same
  refine ⟨congrArg FileId.mk size, { alike with files := ?_ }⟩
  simp only [Context.addFile, Array.map_push, alike.files, size, FileScope.start, FileScope.mapLevel,
    levels]

end Alike

/-! ## Comparisons that leave nothing out -/

/-- Tables and files are compared in full, and the same nodes have been pruned in both runs. -/
structure IsExact (k : Lockstep) : Prop where
  final : k.final = id
  level : k.level = id
  pruned {log log' : ErrorLog} : k.logs log log' → log'.pruned = log.pruned

namespace IsExact

variable {a b : Context} (exact : k.IsExact) (alike : k.Alike a b)
include exact alike

theorem table_eq : b.table = a.table := by
  have blind (t : SymbolTable) : t.mapFinal id = t := by
    unfold SymbolTable.mapFinal
    rw [show Variable.mapFinal id = id from rfl, Array.map_id]
  have same := alike.table
  rw [exact.final, blind, blind] at same
  exact same.symm

theorem files_eq : b.files = a.files := by
  have blind (files : Array FileScope) : files.map (FileScope.mapLevel id) = files := by
    rw [show FileScope.mapLevel id = id from rfl, Array.map_id]
  have same := alike.files
  rw [exact.level, blind, blind] at same
  exact same.symm

theorem isPruned_eq (file : FileId) (node : NodeIndex) :
    b.log.isPruned file node = a.log.isPruned file node := by
  rw [ErrorLog.isPruned, ErrorLog.isPruned, exact.pruned alike.log]

end IsExact

end Lockstep

end LevelCheck
