import LevelCheck.Proofs.FileInTwoRuns
set_option autoImplicit false

/-! # Files do not interfere

The walk of a file that comes after others in a run and the walk of the same file alone are a
comparison that is kept, up to a class that the first refuses as a duplicate. The scopes of the second
run stand for those that the first has entered since it came to the file, by their names and places in
the table. So what is found in a file does not depend on the other files of its batch, if no class is
refused, the records of references to classes apart: those tell of what the other files declare. -/

namespace LevelCheck

open SymbolTable

/-! ## Walks beside each other -/

/-- The scopes of two walks stand for each other. -/
inductive WalkTwins (k : Offsets) (t t' : SymbolTable) : WalkScope → WalkScope → Prop where
  | file : WalkTwins k t t' .file .file
  | classBody {id id' : SymbolId} (twins : Twins k t t' (.symbol id) (.symbol id')) :
      WalkTwins k t t' (.classBody id) (.classBody id')
  | body {id id' : BodyId} (twins : Twins k t t' id.scope id'.scope) :
      WalkTwins k t t' (.body id) (.body id')

namespace WalkTwins

variable {k : Offsets} {t t' u u' : SymbolTable} {s s' : WalkScope}

theorem refs (twins : WalkTwins k t t' s s') : Option.Rel (Twins k t t') s.ref? s'.ref? := by
  cases twins with
  | file => exact .none
  | classBody twins => exact .some twins
  | body twins => exact .some twins

theorem isOpen (twins : WalkTwins k t t' s s') : s.IsOpenIn t ∧ s'.IsOpenIn t' := by
  cases twins with
  | file => exact ⟨WalkScope.isOpenIn_file t, WalkScope.isOpenIn_file t'⟩
  | classBody twins =>
    exact ⟨WalkScope.isOpenIn_classBody twins.isOpen, WalkScope.isOpenIn_classBody twins.isOpen'⟩
  | body twins =>
    exact ⟨WalkScope.isOpenIn_body twins.isOpen, WalkScope.isOpenIn_body twins.isOpen'⟩

theorem ref (twins : WalkTwins k t t' s s') {ref ref' : ScopeRef} (here : s.ref? = some ref)
    (there : s'.ref? = some ref') : Twins k t t' ref ref' := by
  have refs := twins.refs
  rw [here, there] at refs
  cases refs with
  | some twins => exact twins

theorem grow (twins : WalkTwins k t t' s s') (grows : t.Grows u) (grows' : t'.Grows u') :
    WalkTwins k u u' s s' := by
  cases twins with
  | file => exact .file
  | classBody twins => exact .classBody (twins.grow grows grows')
  | body twins => exact .body (twins.grow grows grows')

end WalkTwins

namespace Pairing

variable (p : Pairing)

/-- The comparison ends when the first run refuses a class as a duplicate. -/
def comparison : Comparison where
  walk := p.walk
  walk' := p.walk'
  rel := p.Alongside
  twin a b := WalkTwins p.offsets a.table b.table
  forces := Eq
  ends records := ∃ d ∈ records, d.code = 1013

variable {p} {a b : Context}

theorem Alongside.refuseDepth (alongside : p.Alongside a b) (idx : NodeIndex) (node : Node) :
    p.Alongside (p.walk.refuseDepth idx node a) (p.walk'.refuseDepth idx node b) := by
  obtain ⟨here, there⟩ := alongside.fileName
  have made := p.walk.refuseDepth_records a idx node
  have made' := p.walk'.refuseDepth_records b idx node
  have pruned : a.log.isPruned p.walk.file idx = b.log.isPruned p.walk'.file idx :=
    alongside.isPruned idx
  rw [show a.fileName p.walk.file = p.name from here] at made
  rw [show b.fileName p.walk'.file = p.name from there, alongside.options, ← pruned] at made'
  refine alongside.records (.deed (.refuse a p.walk idx node)) (.deed (.refuse b p.walk' idx node))
    made made' fun d isIn => ?_
  split at isIn
  · cases isIn
  · rw [List.mem_singleton.1 isIn]
    rfl

/-- A node is offered to the policy as the same in both runs. -/
theorem Alongside.offer (alongside : p.Alongside a b) {s s' : WalkScope}
    (twins : WalkTwins p.offsets a.table b.table s s') (node : Node) :
    p.walk.offer s node a = p.walk'.offer s' node b := by
  have level : p.walk.level a = p.walk'.level b := by
    obtain ⟨f, f', here, there, -, -, same, -⟩ := alongside.files
    have here : a.file? p.walk.file = some f := here
    have there : b.file? p.walk'.file = some f' := there
    rw [Walk.level, Walk.level, here, there]
    exact same
  have kind : s.kind = s'.kind := by cases twins <;> rfl
  have inside : Walk.inConstructor s a = Walk.inConstructor s' b := by
    cases twins with
    | file | classBody => rfl
    | body twins =>
      exact alongside.tables.isConstructor alongside.lifecycle.owned.forest.scopes
        alongside.lifecycle'.owned.forest.scopes twins
  rw [Walk.offer, Walk.offer, level, kind, inside]

theorem Alongside.inspect (alongside : p.Alongside a b) (remaining : Nat) {s s' : WalkScope}
    (twins : WalkTwins p.offsets a.table b.table s s') (idx : NodeIndex) (node : Node) :
    p.Alongside (p.walk.inspect remaining s idx node a).2 (p.walk'.inspect remaining s' idx node b).2
      ∧ Option.Rel (fun x y => x.forceFinal = y.forceFinal)
          (p.walk.inspect remaining s idx node a).1 (p.walk'.inspect remaining s' idx node b).1 := by
  have run := Run.deed (.inspect a p.walk remaining s idx node)
  have run' := Run.deed (.inspect b p.walk' remaining s' idx node)
  have pruned : a.log.isPruned p.walk.file idx = b.log.isPruned p.walk'.file idx :=
    alongside.isPruned idx
  have ruling : p.walk'.rulingOn s' node b = p.walk.rulingOn s node a := by
    rw [Walk.rulingOn, Walk.rulingOn, alongside.offer twins]
    rfl
  obtain ⟨here, there⟩ := alongside.fileName
  have named (problems : List Problem) :
      ∀ d ∈ problems.map (Diagnostic.ofProblem p.name node.pos), d.file = some p.name := by
    intro d isIn
    obtain ⟨problem, -, rfl⟩ := List.mem_map.1 isIn
    rfl
  cases p.walk.inspect_inspection a remaining s idx node with
  | skipped skips is =>
    cases p.walk'.inspect_inspection b remaining s' idx node with
    | skipped skips' is' =>
      rw [is] at run ⊢
      rw [is'] at run' ⊢
      exact ⟨alongside.records run run' (p.walk.note_records a idx remaining none)
        (p.walk'.note_records b idx remaining none) nofun, .none⟩
    | refused fresh' | admitted fresh' => rw [← pruned, skips] at fresh'; cases fresh'
  | @refused first rest fresh prunes raised is =>
    cases p.walk'.inspect_inspection b remaining s' idx node with
    | skipped skips' => rw [← pruned, fresh] at skips'; cases skips'
    | admitted fresh' passes' => exact absurd (ruling ▸ prunes) passes'
    | refused fresh' prunes' raised' is' =>
      rw [ruling, raised] at raised'
      cases raised'
      rw [is] at run ⊢
      rw [is'] at run' ⊢
      have made := p.walk.refused_records a remaining s idx node first rest here
      have made' := p.walk'.refused_records b remaining s' idx node first rest there
      refine ⟨alongside.records run run' made made' fun d isIn => ?_, .none⟩
      rcases List.mem_cons.1 isIn with rfl | isIn
      · rfl
      · exact named rest d isIn
  | admitted fresh passes is =>
    cases p.walk'.inspect_inspection b remaining s' idx node with
    | skipped skips' => rw [← pruned, fresh] at skips'; cases skips'
    | refused fresh' prunes' => exact absurd (ruling ▸ prunes') passes
    | admitted fresh' passes' is' =>
      rw [is] at run ⊢
      rw [is', ruling] at run' ⊢
      have made := p.walk.admitted_records a remaining s idx node
        (p.walk.rulingOn s node a).raised here
      have made' := p.walk'.admitted_records b remaining s' idx node
        (p.walk.rulingOn s node a).raised there
      exact ⟨alongside.records run run' made made' (named _), .some rfl⟩

/-- The header of a file is read alike in both runs. -/
theorem Alongside.enterFile (alongside : p.Alongside a b) (package : Option String)
    (imports : List ImportDecl) (types : List NodeIndex) :
    p.Alongside (p.walk.enterFile package imports types a)
      (p.walk'.enterFile package imports types b) := by
  obtain ⟨f, f', here, there, name, name', level, -⟩ := alongside.files
  have modified (cx : Context) (id : FileId) (g : FileScope → FileScope) {f : FileScope}
      (found : cx.file? id = some f) : (cx.modifyFile id g).file? id = some (g f) := by
    rw [Context.file?] at found
    simp [Context.file?, Context.modifyFile, Array.getElem?_modify, found]
  obtain ⟨keepsName, -, keepsLevel⟩ := FileScope.KeepsIdentity.header
    (types.filterMap p.walk.typeName?) package imports f
  obtain ⟨keepsName', -, keepsLevel'⟩ := FileScope.KeepsIdentity.header
    (types.filterMap p.walk.typeName?) package imports f'
  refine { alongside with
    lifecycle := alongside.lifecycle.run (p.walk.enterFile_run package imports types a)
    lifecycle' := alongside.lifecycle'.run (p.walk'.enterFile_run package imports types b)
    files := ⟨_, _, modified a p.file _ here, modified b p.file' _ there, ?_, ?_, ?_, ?_⟩ }
  · exact keepsName.trans name
  · exact keepsName'.trans name'
  · exact (keepsLevel.trans level).trans keepsLevel'.symm
  · exact (f.header_package _ package imports).trans (f'.header_package _ package imports).symm

/-- A class has the same name in both runs. -/
theorem Alongside.qualifiedName (alongside : p.Alongside a b) {s s' : WalkScope}
    (twins : WalkTwins p.offsets a.table b.table s s') (simple : String) :
    (p.walk.qualifiedName s simple a).1 = (p.walk'.qualifiedName s' simple b).1
      ∧ p.Alongside (p.walk.qualifiedName s simple a).2 (p.walk'.qualifiedName s' simple b).2 := by
  cases twins with
  | file =>
    obtain ⟨f, f', here, there, -, -, -, package⟩ := alongside.files
    have here : a.file? p.walk.file = some f := here
    have there : b.file? p.walk'.file = some f' := there
    simp only [Walk.qualifiedName, here, there, FileScope.qualify, package]
    exact ⟨trivial, alongside⟩
  | classBody twins =>
    refine ⟨?_, alongside⟩
    cases twins.pairs with
    | symbol name => rw [Walk.qualifiedName, Walk.qualifiedName, name]
  | body twins =>
    obtain ⟨count, name, numbered⟩ := alongside.number twins
    refine ⟨?_, numbered⟩
    simp only [Walk.qualifiedName, count]
    exact congrArg (Resolution.memberName · _) name

/-- The class that a walk refuses is recorded. -/
theorem comparison_refused (cx : Context) (file : FileId) (idx : NodeIndex) (pos : Position)
    (qualified : String) :
    p.comparison.ends
      (cx.reportPruning file idx pos (.duplicateClass qualified)).log.diagnostics.toList := by
  have made := (Context.Records.refl cx file).reportPruning idx pos (.duplicateClass qualified)
  rw [made.log]
  exact ⟨_, List.mem_append_right _ List.mem_cons_self, rfl⟩

/-- Whatever a walk does on its own keeps the runs alongside each other, unless it refuses a class. -/
theorem comparison_isKept (p : Pairing) : p.comparison.IsKept where
  arena := rfl
  ends_mono := by
    rintro records more le ⟨d, isIn, code⟩
    exact ⟨d, le.subset isIn, code⟩
  unforced := rfl
  isOpen twins := twins.isOpen
  kind twins := by cases twins <;> rfl
  later twins precedes precedes' := twins.grow precedes.table precedes'.table
  refuses idx node a b alongside := .inr (alongside.refuseDepth idx node)
  inspects remaining idx node a b s s' twins alongside :=
    .inr (alongside.inspect remaining twins idx node)
  header package imports types a b alongside := alongside.enterFile package imports types
  mention type pos a b s s' twins alongside := by
    obtain ⟨isOpen, isOpen'⟩ := twins.isOpen
    exact alongside.silent (.deed (.link _ isOpen type pos trivial))
      (.deed (.link _ isOpen' type pos trivial)) (.linkType ..) (.linkType ..)
  named simple a b s s' twins alongside := alongside.qualifiedName twins simple
  numbered {a b s s' ref ref'} twins here there alongside := by
    obtain ⟨count, name, numbered⟩ := alongside.number (twins.ref here there)
    refine ⟨?_, numbered⟩
    rw [Walk.anonymousName, Walk.anonymousName, count, name]
  begins idx pos qualified head isHead a b s s' named twins alongside := by
    rcases alongside.beginClass isHead twins.refs named with
      refused | ⟨id, id', c, d, begun, begun', alongside, twins⟩
    · rw [refused]
      exact .ended (comparison_refused ..)
    · rw [begun, begun']
      exact .begun alongside (.classBody twins)
  parents pos qualified decl a b id id' twins alongside := by
    obtain ⟨isOpen, isOpen'⟩ := twins.isOpen
    exact alongside.silent (p.walk.linkParents_run (isOpen _ rfl) pos qualified decl)
      (p.walk'.linkParents_run (isOpen' _ rfl) pos qualified decl) (p.walk.linkParents_silent ..)
      (p.walk'.linkParents_silent ..)
  base type pos a b s s' id id' twins classes alongside := by
    obtain ⟨isOpen, isOpen'⟩ := twins.isOpen
    obtain ⟨place, place'⟩ := classes.isOpen
    exact alongside.silent (.deed (.link _ isOpen type pos (place _ rfl)))
      (.deed (.link _ isOpen' type pos (place' _ rfl))) (.linkType ..) (.linkType ..)
  completes {a b id id'} twins alongside := by
    obtain ⟨isOpen, isOpen'⟩ := twins.isOpen
    have isOpen : a.table.IsOpen (.symbol id) := isOpen _ rfl
    have isOpen' : b.table.IsOpen (.symbol id') := isOpen' _ rfl
    exact alongside.quiet (alongside.lifecycle.defineComplete isOpen)
      (alongside.lifecycle'.defineComplete isOpen') (.defineComplete isOpen) (.defineComplete isOpen')
  methods pos decl a b id id' twins alongside := by
    cases twins with
    | classBody twins =>
      obtain ⟨entered, inside⟩ := alongside.enterMethod twins pos decl
      exact ⟨entered, .body inside⟩
  fields written force force' a b id id' twins forces alongside := by
    obtain rfl : force = force' := forces
    cases twins with
    | classBody twins => exact alongside.declareFields twins written force
  locals written pos force force' a b body body' twins forces alongside := by
    obtain rfl : force = force' := forces
    cases twins with
    | body twins => exact alongside.declareLocals twins written pos force
  block {a b s s' ref ref'} twins here there alongside := by
    obtain ⟨opened, inside⟩ := alongside.addBlock (twins.ref here there)
    exact ⟨opened, .body inside⟩

end Pairing

/-! ## Files -/

/-- What is known of a run with the given options between two of its files. -/
structure Context.Between (options : Options) (cx : Context) : Prop where
  lifecycle : cx.Lifecycle
  options : cx.options = options
  pruned : ∀ e ∈ cx.log.pruned, e.1.val < cx.files.size

theorem Context.between_start (options : Options) : (start options).Between options :=
  ⟨lifecycle_start options, rfl, nofun⟩

namespace Context

/-- A file as the next one of a run, and as the first one of another. -/
def pairing (cx : Context) (unit : SourceUnit) : Pairing where
  arena := unit.tree.arena
  policy := unit.level
  offsets := ⟨cx.table.methods.size, cx.table.blocks.size⟩
  file := ⟨cx.files.size⟩
  file' := ⟨0⟩
  name := unit.tree.fileName
  before := cx.log.findings

/-- No scope of the first table of a run stands for another: its classes are builtin. -/
theorem not_twins_seeded {k : Offsets} {t : SymbolTable} {s s' : ScopeRef} :
    ¬ Twins k t .seeded s s' := by
  rintro ⟨-, isOpen', pairs⟩
  cases pairs with
  | @symbol id id' name own =>
    have declared : SymbolTable.seeded.Declares (SymbolTable.seeded.symbol id').name :=
      ⟨id', isOpen'.1, rfl, isOpen'.2⟩
    exact own (name ▸ (seeded_isSeen rfl _).1 declared)
  | method => exact absurd isOpen' (Nat.not_lt_zero _)
  | block => exact absurd isOpen' (Nat.not_lt_zero _)

variable {options : Options} {cx : Context} (between : cx.Between options)
include between

theorem Between.alongside (unit : SourceUnit) :
    (cx.pairing unit).Alongside (cx.addFile unit.tree.fileName unit.level).2
      ((start options).addFile unit.tree.fileName unit.level).2 where
  lifecycle := between.lifecycle.addFile _ _
  lifecycle' := (lifecycle_start options).addFile _ _
  tables :=
    { methods := rfl
      blocks := rfl
      declares := fun name declared => (between.lifecycle.declares name).2
        (List.mem_append_left _ ((seeded_isSeen rfl name).1 declared))
      facts := fun s s' twins => (not_twins_seeded twins).elim
      around := fun s s' twins => (not_twins_seeded twins).elim }
  options := between.options.symm
  files := ⟨.start ⟨cx.files.size⟩ unit.tree.fileName unit.level,
    .start ⟨0⟩ unit.tree.fileName unit.level, by simp [addFile, file?, pairing],
    by simp [addFile, file?, pairing, start, withTable], rfl, rfl, rfl, rfl⟩
  pruned node := by
    refine iff_of_false (fun isIn => ?_) List.not_mem_nil
    exact absurd (between.pruned _ isIn) (lt_irrefl _)
  earlier e isIn := (between.pruned e isIn).le
  findings := (List.append_nil _).symm
  named := nofun

/-- A file finds after other files what it finds alone, unless one of its classes has been declared
before. -/
theorem Between.analyzeFile (unit : SourceUnit)
    (accepted : ∀ d ∈ (cx.analyzeFile unit).2.log.diagnostics.toList, d.code ≠ 1013) :
    let alone := ((start options).analyzeFile unit).2
    (cx.analyzeFile unit).2.Between options
      ∧ (cx.analyzeFile unit).2.log.findings = cx.log.findings ++ alone.log.findings
      ∧ ∀ d ∈ alone.log.findings, d.file = some unit.tree.fileName := by
  intro alone
  have run := cx.analyzeFile_run unit
  have visited := ((Pairing.comparison_isKept (cx.pairing unit)).visit options.maxDepth).together
    .nested unit.tree.root .file (between.alongside unit)
  have after : ((cx.pairing unit).walk.visit options.maxDepth .nested .file unit.tree.root
      (cx.addFile unit.tree.fileName unit.level).2).2 = (cx.analyzeFile unit).2 := by
    rw [← between.options]
    rfl
  rw [Pairing.comparison, after] at visited
  rcases visited with ⟨d, isIn, code⟩ | alongside
  · exact absurd code (accepted d isIn)
  · have alongside : (cx.pairing unit).Alongside (cx.analyzeFile unit).2 alone := alongside
    refine ⟨⟨alongside.lifecycle, ?_, ?_⟩, alongside.findings, alongside.named⟩
    · exact run.precedes.options.trans between.options
    · have files := congrArg Array.size run.precedes.files
      rw [Array.size_map, Array.size_map] at files
      intro e isIn
      rw [files]
      exact (Nat.lt_succ_of_le (alongside.earlier e isIn)).trans_eq (Array.size_push _).symm

/-- A batch finds in its files what each of them finds alone. -/
theorem Between.analyzeFiles (units : List SourceUnit)
    (accepted : ∀ d ∈ (cx.analyzeFiles units).log.diagnostics.toList, d.code ≠ 1013) :
    let found unit := ((start options).analyzeFile unit).2.log.findings
    (cx.analyzeFiles units).log.findings = cx.log.findings ++ units.flatMap found
      ∧ ∀ unit ∈ units, ∀ d ∈ found unit, d.file = some unit.tree.fileName := by
  intro found
  induction units generalizing cx with
  | nil => exact ⟨(List.append_nil _).symm, nofun⟩
  | cons unit rest ih =>
    have log := analyzeFiles_log (cx.analyzeFile unit).2 rest
    obtain ⟨next, here, own⟩ := between.analyzeFile unit fun d isIn => accepted d (log.subset isIn)
    obtain ⟨later, others⟩ := ih next accepted
    refine ⟨later.trans ?_, List.forall_mem_cons.2 ⟨own, others⟩⟩
    rw [here, List.flatMap_cons, List.append_assoc]

end Context

namespace Analysis

/-- No two files of a batch have the same name, so what is found in a file is what stands under its
name. -/
theorem filter_flatMap_own {units : List SourceUnit}
    (distinct : (units.map (·.tree.fileName)).Nodup) {unit : SourceUnit} (isIn : unit ∈ units)
    {found : SourceUnit → List Diagnostic}
    (own : ∀ u ∈ units, ∀ d ∈ found u, d.file = some u.tree.fileName) :
    (units.flatMap found).filter (fun d => d.file == some unit.tree.fileName) = found unit := by
  induction units with
  | nil => cases isIn
  | cons first rest ih =>
    obtain ⟨fresh, distinct⟩ := List.nodup_cons.1 distinct
    obtain ⟨ownFirst, ownRest⟩ := List.forall_mem_cons.1 own
    rw [List.flatMap_cons, List.filter_append]
    rcases List.mem_cons.1 isIn with rfl | later
    · have here : (found unit).filter (fun d => d.file == some unit.tree.fileName) = found unit :=
        List.filter_eq_self.2 fun d isFound => beq_iff_eq.2 (ownFirst d isFound)
      have there : (rest.flatMap found).filter (fun d => d.file == some unit.tree.fileName) = [] := by
        refine List.filter_eq_nil_iff.2 fun d isFound same => fresh ?_
        obtain ⟨u, later, isFound⟩ := List.mem_flatMap.1 isFound
        rw [ownRest u later d isFound] at same
        exact List.mem_map.2 ⟨u, later, Option.some.inj (beq_iff_eq.1 same)⟩
      rw [here, there, List.append_nil]
    · have there : (found first).filter (fun d => d.file == some unit.tree.fileName) = [] := by
        refine List.filter_eq_nil_iff.2 fun d isFound same => fresh ?_
        rw [ownFirst d isFound] at same
        exact List.mem_map.2 ⟨unit, later, (Option.some.inj (beq_iff_eq.1 same)).symm⟩
      rw [there, List.nil_append]
      exact ih distinct later ownRest

/-- What a run finds is found before it is settled. -/
theorem ofUnits_findings (units : List SourceUnit) (options : Options) :
    findings (ofUnits units options).diagnostics
      = ((Context.start options).analyzeFiles units).log.findings :=
  (Context.Silent.settle ((Context.start options).analyzeFiles units)).findings

theorem findings_alone {units : List SourceUnit} (options : Options)
    (distinct : (units.map (·.tree.fileName)).Nodup)
    (accepted : ∀ d ∈ (ofUnits units options).diagnostics, d.code ≠ 1013) {unit : SourceUnit}
    (isIn : unit ∈ units) :
    findings ((ofUnits units options).diagnosticsFor unit.tree.fileName)
      = findings (ofUnits [unit] options).diagnostics := by
  have settled := ((Context.start options).analyzeFiles units).settle_settles.precedes.log
  obtain ⟨found, own⟩ := (Context.between_start options).analyzeFiles units
    fun d isIn => accepted d (settled.subset isIn)
  calc findings ((ofUnits units options).diagnosticsFor unit.tree.fileName)
      = (findings (ofUnits units options).diagnostics).filter
          (fun d => d.file == some unit.tree.fileName) := List.filter_comm ..
    _ = (units.flatMap fun unit => ((Context.start options).analyzeFile unit).2.log.findings).filter
          (fun d => d.file == some unit.tree.fileName) := by
        rw [ofUnits_findings, found]
        rfl
    _ = ((Context.start options).analyzeFile unit).2.log.findings :=
        filter_flatMap_own distinct isIn own
    _ = findings (ofUnits [unit] options).diagnostics := (ofUnits_findings [unit] options).symm

/-- Files do not interfere: if no two files of a batch have the same name and no class is refused as a
duplicate (code 1013), then what is found in a file is what is found in it alone. So it is the same in
all such batches of which the file is one, whatever the other files are and in which order they come.
Left out are the records of references to classes: that a class extends an interface (1017) or
implements a class (1018), and that a name denotes nothing (2001). -/
theorem ofUnits_independent {units : List SourceUnit} (options : Options)
    (distinct : (units.map (·.tree.fileName)).Nodup)
    (accepted : ∀ d ∈ (ofUnits units options).diagnostics, d.code ≠ 1013) {unit : SourceUnit}
    (isIn : unit ∈ units) :
    findings ((ofUnits units options).diagnosticsFor unit.tree.fileName)
        = findings (ofUnits [unit] options).diagnostics
      ∧ ∀ others : List SourceUnit, (others.map (·.tree.fileName)).Nodup →
          (∀ d ∈ (ofUnits others options).diagnostics, d.code ≠ 1013) → unit ∈ others →
          findings ((ofUnits units options).diagnosticsFor unit.tree.fileName)
            = findings ((ofUnits others options).diagnosticsFor unit.tree.fileName) := by
  have alone := findings_alone options distinct accepted isIn
  refine ⟨alone, fun others distinct' accepted' isIn' => ?_⟩
  rw [alone, findings_alone options distinct' accepted' isIn']

/-- A class that declares a field twice. -/
def point : SourceUnit where
  level := .full
  tree :=
    { fileName := "Point.java", root := ⟨0⟩
      arena :=
        { nodes := #[
            ⟨.nowhere, .sourceFile none [] [⟨1⟩]⟩,
            ⟨⟨1, 1⟩, .classDef [] "Point" [] none [] [⟨2⟩]⟩,
            ⟨⟨2, 3⟩, .variableDeclaration [] [⟨3⟩, ⟨4⟩]⟩,
            ⟨⟨2, 7⟩, .variableDeclarator "int" "x" none⟩,
            ⟨⟨2, 10⟩, .variableDeclarator "int" "x" none⟩] } }

/-- A class that extends it and declares another field twice. -/
def pixel : SourceUnit where
  level := .full
  tree :=
    { fileName := "Pixel.java", root := ⟨0⟩
      arena :=
        { nodes := #[
            ⟨.nowhere, .sourceFile none [] [⟨1⟩]⟩,
            ⟨⟨1, 1⟩, .classDef [] "Pixel" [] (some "Point") [] [⟨2⟩]⟩,
            ⟨⟨2, 3⟩, .variableDeclaration [] [⟨3⟩, ⟨4⟩]⟩,
            ⟨⟨2, 7⟩, .variableDeclarator "int" "y" none⟩,
            ⟨⟨2, 10⟩, .variableDeclarator "int" "y" none⟩] } }

/-- The second file finds its field declared twice, alone and in both orders. Alone it also misses the
class that it extends, so its records are not the same. -/
theorem ofUnits_independent_pixel :
    findings (ofUnits [pixel] .usual).diagnostics ≠ []
      ∧ findings ((ofUnits [point, pixel] .usual).diagnosticsFor pixel.tree.fileName)
        = findings (ofUnits [pixel] .usual).diagnostics
      ∧ findings ((ofUnits [point, pixel] .usual).diagnosticsFor pixel.tree.fileName)
        = findings ((ofUnits [pixel, point] .usual).diagnosticsFor pixel.tree.fileName)
      ∧ (ofUnits [point, pixel] .usual).diagnosticsFor pixel.tree.fileName
        ≠ (ofUnits [pixel] .usual).diagnostics := by
  have accepted : ∀ d ∈ (ofUnits [point, pixel] .usual).diagnostics, d.code ≠ 1013 := by
    decide +kernel
  have accepted' : ∀ d ∈ (ofUnits [pixel, point] .usual).diagnostics, d.code ≠ 1013 := by
    decide +kernel
  have isSecond : pixel ∈ [point, pixel] := .tail _ (.head _)
  have isFirst : pixel ∈ [pixel, point] := .head _
  obtain ⟨alone, same⟩ := ofUnits_independent .usual (by decide) accepted isSecond
  exact ⟨by decide +kernel, alone, same [pixel, point] (by decide) accepted' isFirst,
    by decide +kernel⟩

end Analysis

end LevelCheck
