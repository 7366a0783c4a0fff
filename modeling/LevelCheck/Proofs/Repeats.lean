import LevelCheck.Proofs.DuplicateScopes
import LevelCheck.Proofs.SilentLinking
import LevelCheck.Proofs.VisitParts
set_option autoImplicit false

/-! # Names that are declared twice

Variables are checked as they are declared: against the variables that their scope has by then, and
as an option has it, against those of the bodies around it. Scopes keep growing after a check, but
whatever comes later is checked in its turn. So no check objects exactly if the table that comes of it
holds no name twice where the checks look: the objections and the table tell the same story, after
every declaration and hence at the end of a run. -/

namespace LevelCheck

/-! ## Tables without repeated names -/

namespace SymbolTable

/-- No two variables of a scope have the same name. Under the policy for enclosing bodies, a variable
of a block does not have the name of an earlier one of a body around the block either, up to and
including the body of the method and within the class. -/
structure HasNoRepeats (t : SymbolTable) (policy : DuplicateScope) : Prop where
  fields : ∀ id, (t.varNames (t.symbol id).fields).Nodup
  methods : ∀ id, (t.varNames (t.method id).vars).Nodup
  blocks : ∀ id, (t.varNames (t.block id).vars).Nodup
  outward : policy = .enclosingBodies → ∀ id, ∀ v ∈ (t.block id).vars,
    ∀ body ∈ t.bodies (.block id), ∀ u ∈ t.bodyVars body, u.val < v.val →
      (t.var u).name ≠ (t.var v).name

variable {t u : SymbolTable} {policy : DuplicateScope}

/-- Each scope on its own. -/
def IsApart (t : SymbolTable) : Prop := ∀ scope, (t.varNames (t.varsOf scope)).Nodup

/-- Each block against the bodies around it. -/
def IsApartOutward (t : SymbolTable) : Prop :=
  ∀ id, ∀ v ∈ t.varsOf (.block id), ∀ body ∈ t.bodies (.block id), ∀ u ∈ t.varsOf body.scope,
    u.val < v.val → (t.var u).name ≠ (t.var v).name

theorem bodyVars_eq (t : SymbolTable) (body : BodyId) : t.bodyVars body = t.varsOf body.scope := by
  cases body <;> rfl

theorem hasNoRepeats_iff : t.HasNoRepeats policy
    ↔ t.IsApart ∧ (policy = .enclosingBodies → t.IsApartOutward) := by
  constructor
  · intro free
    refine ⟨fun scope => ?_, fun enclosing id v isIn body around u => ?_⟩
    · cases scope with
      | symbol id => exact free.fields id
      | method id => exact free.methods id
      | block id => exact free.blocks id
    · rw [← bodyVars_eq]
      exact free.outward enclosing id v isIn body around u
  · intro ⟨apart, outward⟩
    refine ⟨fun id => apart (.symbol id), fun id => apart (.method id), fun id => apart (.block id),
      fun enclosing id v isIn body around u => ?_⟩
    rw [bodyVars_eq]
    exact outward enclosing id v isIn body around u

/-- No name collides if the names differ from each other and from those seen before. -/
theorem collisions_eq_nil {seen names : List String} :
    collisions seen [] names = [] ↔ names.Nodup ∧ ∀ n ∈ names, n ∉ seen := by
  simp only [List.eq_nil_iff_forall_not_mem, mem_collisions, List.nodup_iff_count_le_one]
  constructor
  · intro none
    refine ⟨fun n => ?_, fun n isIn known => none n ⟨List.not_mem_nil, isIn, .inl known⟩⟩
    by_contra twice
    exact none n ⟨List.not_mem_nil, List.count_pos_iff.1 (by omega), .inr (by omega)⟩
  · rintro ⟨once, fresh⟩ n ⟨-, isIn, known | twice⟩
    · exact fresh n isIn known
    · have := once n
      omega

/-! ## Tables that grow -/

/-- A table that has grown has the same bodies around a scope. -/
theorem ScopeTree.bodiesFrom_of_grows (scopes : t.ScopeTree) (grows : t.Grows u) {scope : ScopeRef}
    (isOpen : t.IsOpen scope) {n m : Nat} (enough : stepsOut scope ≤ n)
    (enough' : stepsOut scope ≤ m) : u.bodiesFrom n scope = t.bodiesFrom m scope := by
  induction n generalizing m scope with
  | zero =>
    have := stepsOut_pos scope
    omega
  | succ n ih =>
    obtain ⟨m, rfl⟩ : ∃ k, m = k + 1 := ⟨m - 1, by have := stepsOut_pos scope; omega⟩
    cases scope with
    | symbol id => rfl
    | method id => rfl
    | block id =>
      have closer := scopes.stepsOut_outer isOpen
      rw [bodiesFrom, bodiesFrom, grows.outer id isOpen,
        ih (scopes.outer_isOpen isOpen) (m := m) (by omega) (by omega)]

theorem ScopeTree.bodies_of_grows (scopes : t.ScopeTree) (grows : t.Grows u) {scope : ScopeRef}
    (isOpen : t.IsOpen scope) : u.bodies scope = t.bodies scope :=
  scopes.bodiesFrom_of_grows grows isOpen (stepsOut_le (grows.isOpen isOpen).holds)
    (stepsOut_le isOpen.holds)

/-- A scope that lists a variable is open. -/
theorem VariableLists.isOpen (lists : t.VariableLists) {scope : ScopeRef} {v : VariableId}
    (isIn : v ∈ t.varsOf scope) : t.IsOpen scope := by
  have once := lists.lists scope v
  have listed := List.count_pos_iff.2 isIn
  refine lists.varOpen v scope ?_
  by_contra other
  rw [if_neg other] at once
  omega

/-- The second table has grown from the first, and the scopes have the same variables. -/
structure SameVars (t u : SymbolTable) : Prop where
  grows : t.Grows u
  lists : ∀ scope, u.varsOf scope = t.varsOf scope
  name : ∀ v, (u.var v).name = (t.var v).name

theorem SameVars.hasNoRepeats (same : t.SameVars u) (forest : t.Forest) :
    u.HasNoRepeats policy ↔ t.HasNoRepeats policy := by
  have names (ids : List VariableId) : u.varNames ids = t.varNames ids :=
    List.map_congr_left fun v _ => same.name v
  have apart : u.IsApart ↔ t.IsApart := by simp only [IsApart, same.lists, names]
  have outward : u.IsApartOutward ↔ t.IsApartOutward := by
    simp only [IsApartOutward, same.lists, same.name]
    refine forall_congr' fun id => forall₂_congr fun v isIn => ?_
    rw [forest.scopes.bodies_of_grows same.grows (forest.vars.isOpen isIn)]
  rw [hasNoRepeats_iff, hasNoRepeats_iff, apart, outward]

theorem SameWriting.sameVars (same : t.SameWriting u) (grows : t.Grows u) : t.SameVars u :=
  ⟨grows, same.varsOf, same.varName⟩

theorem SameVars.addMethod (t : SymbolTable) {m : Method} (vars : m.vars = []) :
    t.SameVars (t.addMethod m).2 where
  grows := .addMethod t m
  lists scope := by
    cases scope with
    | symbol id => exact view_modifySymbol _ m.owner id Symbol.fields fun _ => rfl
    | method id => exact view_push t.methods id.val Method.vars vars
    | block id => rfl
  name _ := rfl

theorem SameVars.addBlock (t : SymbolTable) (outer : ScopeRef) : t.SameVars (t.addBlock outer).2 where
  grows := .addBlock t outer
  lists scope := by
    cases scope with
    | symbol id => exact t.addBlock_symbol outer Symbol.fields (fun _ _ => rfl) id
    | method id => exact t.addBlock_method outer Method.vars (fun _ _ => rfl) id
    | block id => exact t.addBlock_block outer Block.vars (fun _ _ => rfl) rfl id
  name v := by rw [var, var, (t.addBlock_sizes outer).2.2]

/-! ## Declarations -/

/-- The names that a new variable of a body must not repeat are those of the body, and under the
policy for enclosing bodies those of the bodies around a block. -/
theorem mem_namesInBody (t : SymbolTable) (body : BodyId) (policy : DuplicateScope) (n : String) :
    n ∈ t.namesInBody body policy ↔ n ∈ t.varNames (t.varsOf body.scope)
      ∨ policy = .enclosingBodies ∧ ∃ id, body.scope = .block id
        ∧ ∃ around ∈ t.bodies (.block id), n ∈ t.varNames (t.varsOf around.scope) := by
  cases policy with
  | immediate => simp [namesInBody, bodyVars_eq]
  | enclosingBodies =>
    cases body with
    | method id => simp [namesInBody, bodyVars_eq, bodies, bodiesFrom, BodyId.scope]
    | block id =>
      -- a block is one of the bodies around it
      have here : BodyId.block id ∈ t.bodies (.block id) := t.mem_bodies (.block id)
      simp only [namesInBody, bodyVars_eq, List.mem_flatMap, BodyId.scope, true_and,
        ScopeRef.block.injEq, exists_eq_left']
      exact ⟨.inr, fun known => known.elim (fun own => ⟨_, here, own⟩) fun around => around⟩

namespace Lists

variable {scope : ScopeRef} {vs : List Variable} (lists : Lists t u scope vs)
include lists

theorem mem_varsOf {s : ScopeRef} {v : VariableId} :
    v ∈ u.varsOf s ↔ v ∈ t.varsOf s ∨ s = scope ∧ v ∈ t.nextVariables vs.length := by
  rw [lists.lists]
  split <;> simp [*]

theorem varNames (ids : List VariableId) : u.varNames ids = (t.appendVars vs).varNames ids := by
  simp only [SymbolTable.varNames, var, lists.vars]

/-- The variables that were there have kept their names. -/
theorem name_older (kept : t.VariableLists) {s : ScopeRef} {v : VariableId} (isIn : v ∈ t.varsOf s) :
    (u.var v).name = (t.var v).name := by
  have names := kept.varNames_appendVars vs s
  rw [← lists.varNames] at names
  exact List.map_inj_left.1 names v isIn

/-- The new variables have the names that are declared. -/
theorem mem_names {n : String} :
    n ∈ vs.map (·.name) ↔ ∃ v ∈ t.nextVariables vs.length, (u.var v).name = n := by
  rw [← varNames_nextVariables t vs, ← lists.varNames]
  exact List.mem_map

theorem varNames_varsOf (kept : t.VariableLists) (s : ScopeRef) : u.varNames (u.varsOf s)
    = if s = scope then t.varNames (t.varsOf s) ++ vs.map (·.name) else t.varNames (t.varsOf s) := by
  rw [lists.varNames, lists.lists]
  split
  · rw [← varNames_nextVariables t vs, ← kept.varNames_appendVars vs]
    exact List.map_append
  · exact kept.varNames_appendVars vs s

theorem isApart (kept : t.VariableLists) : u.IsApart ↔ t.IsApart ∧ (vs.map (·.name)).Nodup
    ∧ ∀ n ∈ vs.map (·.name), n ∉ t.varNames (t.varsOf scope) := by
  have names := lists.varNames_varsOf kept
  constructor
  · intro apart
    have here := apart scope
    rw [names, if_pos rfl, List.nodup_append] at here
    refine ⟨fun s => ?_, here.2.1, fun n isNew before => here.2.2 n before n isNew rfl⟩
    by_cases is : s = scope
    · rw [is]
      exact here.1
    · have there := apart s
      rwa [names, if_neg is] at there
  · rintro ⟨apart, nodup, fresh⟩ s
    rw [names]
    split
    · next is =>
      subst is
      exact List.nodup_append.2 ⟨apart s, nodup, fun n before m isNew same =>
        fresh m isNew (same ▸ before)⟩
    · exact apart s

/-- A new variable of a block is checked against the bodies around the block as they are now; what
they get later is later than the variable. -/
theorem isApartOutward (forest : t.Forest) (isOpen : t.IsOpen scope) (apart : u.IsApart) :
    u.IsApartOutward ↔ t.IsApartOutward ∧ ∀ id, scope = .block id →
      ∀ body ∈ t.bodies (.block id), ∀ n ∈ vs.map (·.name), n ∉ t.varNames (t.varsOf body.scope) := by
  have kept := forest.vars
  have bodies {s : ScopeRef} (isOpen : t.IsOpen s) := forest.scopes.bodies_of_grows lists.grows isOpen
  have older {s : ScopeRef} {v : VariableId} (isIn : v ∈ t.varsOf s) : v ∈ u.varsOf s :=
    lists.mem_varsOf.2 (.inl isIn)
  constructor
  · intro outward
    refine ⟨fun id v isIn body around w isIn' before => ?_, ?_⟩
    · rw [← lists.name_older kept isIn, ← lists.name_older kept isIn']
      rw [← bodies (kept.isOpen isIn)] at around
      exact outward id v (older isIn) body around w (older isIn') before
    · rintro id rfl body around n isNew before
      obtain ⟨v, isNext, rfl⟩ := lists.mem_names.1 isNew
      obtain ⟨w, isIn, same⟩ := List.mem_map.1 before
      rw [← bodies isOpen] at around
      have earlier : w.val < v.val := (kept.known isIn).trans_le (mem_nextVariables.1 isNext).1
      refine outward id v (lists.mem_varsOf.2 (.inr ⟨rfl, isNext⟩)) body around w (older isIn)
        earlier ?_
      rw [lists.name_older kept isIn]
      exact same
  · rintro ⟨outward, fresh⟩ id v isIn body around w isIn' before
    rcases lists.mem_varsOf.1 isIn with wasIn | ⟨rfl, isNext⟩
    · -- the variable was there, and so were those before it
      have wasIn' : w ∈ t.varsOf body.scope := by
        refine (lists.mem_varsOf.1 isIn').resolve_right fun ⟨_, isNext⟩ => ?_
        have known := kept.known wasIn
        have := (mem_nextVariables.1 isNext).1
        omega
      rw [lists.name_older kept wasIn, lists.name_older kept wasIn']
      rw [bodies (kept.isOpen wasIn)] at around
      exact outward id v wasIn body around w wasIn' before
    · rw [bodies isOpen] at around
      rcases lists.mem_varsOf.1 isIn' with wasIn' | ⟨here, -⟩
      · intro same
        refine fresh id rfl body around _ (lists.mem_names.2 ⟨v, isNext, rfl⟩) ?_
        rw [← same, lists.name_older kept wasIn']
        exact List.mem_map_of_mem wasIn'
      · -- both are new, in the same declaration
        rw [here] at isIn'
        intro same
        have is := List.inj_on_of_nodup_map (apart (.block id)) isIn' isIn same
        rw [is] at before
        exact Nat.lt_irrefl _ before

/-- A declaration makes a name come twice exactly if it collides: with a name of its scope, or with
one of a body around, if its scope is a block and the policy has it so. -/
theorem hasNoRepeats (forest : t.Forest) (isOpen : t.IsOpen scope) {seen : List String}
    (sees : ∀ n, n ∈ seen ↔ n ∈ t.varNames (t.varsOf scope) ∨ policy = .enclosingBodies
      ∧ ∃ id, scope = .block id
        ∧ ∃ body ∈ t.bodies (.block id), n ∈ t.varNames (t.varsOf body.scope)) :
    u.HasNoRepeats policy ↔ t.HasNoRepeats policy ∧ collisions seen [] (vs.map (·.name)) = [] := by
  rw [hasNoRepeats_iff, hasNoRepeats_iff, collisions_eq_nil]
  have apart := lists.isApart forest.vars
  constructor
  · rintro ⟨apart', outward⟩
    obtain ⟨before, nodup, fresh⟩ := apart.1 apart'
    have checked (enclosing : policy = .enclosingBodies) :=
      (lists.isApartOutward forest isOpen apart').1 (outward enclosing)
    refine ⟨⟨before, fun enclosing => (checked enclosing).1⟩, nodup, fun n isNew known => ?_⟩
    rcases (sees n).1 known with here | ⟨enclosing, id, is, body, around, there⟩
    · exact fresh n isNew here
    · exact (checked enclosing).2 id is body around n isNew there
  · rintro ⟨⟨before, outward⟩, nodup, fresh⟩
    have apart' := apart.2 ⟨before, nodup, fun n isNew here => fresh n isNew ((sees n).2 (.inl here))⟩
    refine ⟨apart', fun enclosing => (lists.isApartOutward forest isOpen apart').2
      ⟨outward enclosing, fun id is body around n isNew there => ?_⟩⟩
    exact fresh n isNew ((sees n).2 (.inr ⟨enclosing, id, is, body, around, there⟩))

end Lists

end SymbolTable

/-! ## Records of repeated names -/

/-- The code of a record that a variable, a parameter or a field is declared twice. -/
def isRepeatCode (code : UInt32) : Bool := code == 1003 || code == 1014 || code == 1015

/-- The record says that a variable, a parameter or a field is declared twice. -/
def Diagnostic.isRepeat (d : Diagnostic) : Bool := isRepeatCode d.code

/-- The records of repeated names in a log. -/
def ErrorLog.repeats (log : ErrorLog) : List Diagnostic :=
  log.diagnostics.toList.filter Diagnostic.isRepeat

/-- Records of repeated names are findings. -/
theorem ErrorLog.repeats_findings (log : ErrorLog) :
    log.findings.filter Diagnostic.isRepeat = log.repeats := by
  rw [findings, LevelCheck.findings, List.filter_filter]
  refine List.filter_congr fun d _ => ?_
  -- a record of a reference has another code
  simp only [Diagnostic.isRepeat, Diagnostic.isLinking, isRepeatCode]
  by_cases code : d.code = 1017 ∨ d.code = 1018 ∨ d.code = 2001
  · rcases code with is | is | is <;> rw [is] <;> rfl
  · simp only [not_or] at code
    simp [code]

/-- The walk itself finds that a name is repeated. -/
theorem Problem.isOwn_of_isRepeatCode {p : Problem} (isRepeat : isRepeatCode p.code = true) :
    p.IsOwn := by
  cases p with
  | duplicateVariable | duplicateParameter | duplicateField => trivial
  | _ => exact Bool.noConfusion (show false = true from isRepeat)

theorem Problem.IsRuled.isRepeatCode {p : Problem} (isRuled : p.IsRuled) :
    isRepeatCode p.code = false := by
  cases p with
  | duplicateVariable | duplicateParameter | duplicateField => exact isRuled.elim
  | _ => rfl

namespace Context

/-- The objections and the table tell the same story. -/
def Agrees (cx : Context) : Prop :=
  cx.log.repeats = [] ↔ cx.table.HasNoRepeats cx.options.duplicateScope

/-- Nothing has been declared, nor recorded as repeated. -/
structure Still (a b : Context) : Prop where
  table : a.table.SameVars b.table
  repeats : b.log.repeats = a.log.repeats
  options : b.options = a.options

namespace Still

variable {a b c : Context}

theorem agrees (still : a.Still b) (owned : a.Owned) : a.Agrees → b.Agrees := by
  intro agrees
  rw [Agrees, still.repeats, still.options, still.table.hasNoRepeats owned.forest]
  exact agrees

theorem trans (first : a.Still b) (second : b.Still c) : a.Still c where
  table := ⟨first.table.grows.trans second.table.grows,
    fun s => (second.table.lists s).trans (first.table.lists s),
    fun v => (second.table.name v).trans (first.table.name v)⟩
  repeats := second.repeats.trans first.repeats
  options := second.options.trans first.options

theorem of_silent (silent : a.Silent b) : a.Still b where
  table := silent.written.sameVars silent.table.grows
  repeats := by rw [← ErrorLog.repeats_findings, silent.findings, ErrorLog.repeats_findings]
  options := silent.options

/-- The table changes, but declares no variable. -/
theorem enter (cx : Context) {t : SymbolTable} (same : cx.table.SameVars t) :
    cx.Still { cx with table := t } := ⟨same, rfl, rfl⟩

/-- Records of other problems are made. -/
theorem logged (table : b.table = a.table) (options : b.options = a.options) {kind : Problem → Prop}
    (grows : a.log.Extends kind b.log) (others : ∀ p, kind p → isRepeatCode p.code = false) :
    a.Still b where
  table := by
    rw [table]
    exact (SymbolTable.SameWriting.refl _).sameVars (.refl _)
  repeats := grows.coded isRepeatCode others
  options := options

end Still

end Context

/-! ## What a walk does without declaring variables -/

namespace Walk

variable (w : Walk) (cx : Context)

theorem refuseDepth_still (idx : NodeIndex) (node : Node) :
    cx.Still (w.refuseDepth idx node cx) := by
  have others (p : Problem) :
      Problem.nestingTooDeep cx.options.maxDepth = p → isRepeatCode p.code = false := by
    rintro rfl
    rfl
  rw [refuseDepth_eq]
  refine .logged rfl rfl ?_ others
  simp only
  split
  · exact .rest
  · exact .addPruning .rest rfl _ _ _ _

theorem inspect_still (remaining : Nat) (scope : WalkScope) (idx : NodeIndex) (node : Node) :
    cx.Still (w.inspect remaining scope idx node cx).2 := by
  have grows := w.inspect_extends cx remaining scope idx node
  obtain ⟨log, is⟩ := w.inspect_changes cx remaining scope idx node
  refine .logged ?_ ?_ grows fun p isRuled => isRuled.isRepeatCode
  · rw [is]
  · rw [is]

/-- A class is refused, since its name has been declared. -/
theorem refuseName_still (idx : NodeIndex) (pos : Position) (name : String) :
    cx.Still (cx.reportPruning w.file idx pos (.duplicateClass name)) := by
  have others (p : Problem) : Problem.duplicateClass name = p → isRepeatCode p.code = false := by
    rintro rfl
    rfl
  exact .logged rfl rfl (.addPruning .rest rfl _ _ _ _) others

theorem qualifiedName_still (scope : WalkScope) (simple : String) :
    cx.Still (w.qualifiedName scope simple cx).2 := by
  cases scope with
  | file =>
    rw [qualifiedName]
    split <;> exact .of_silent (.refl cx)
  | classBody id => exact .of_silent (.refl cx)
  | body id =>
    exact .enter cx (SymbolTable.SameWriting.sameVars (.numberLocalClass _ _)
      (SymbolTable.Quiet.numberLocalClass _ _).grows)

theorem numbered_still (ref : ScopeRef) : cx.Still (numbered ref cx) :=
  .enter cx (SymbolTable.SameWriting.sameVars (.numberLocalClass _ _)
    (SymbolTable.Quiet.numberLocalClass _ _).grows)

/-- A class begins without fields. -/
theorem beginClass_still {cx next : Context} {qualified : String} {outer : Option ScopeRef}
    {head : Symbol → Symbol} {id : SymbolId}
    (begun : cx.beginClass? qualified outer head = some (id, next)) (isHead : Symbol.IsHead head) :
    cx.Still next := by
  have grows := (Context.Precedes.beginClass begun isHead).table
  have same := Context.beginClass_written begun isHead
  obtain ⟨t, -, rfl⟩ := Context.beginClass_some begun
  exact ⟨same.sameVars grows, rfl, rfl⟩

/-! ## What a walk declares -/

theorem reportDuplicates_repeats (declarators : List Declarator) (pos : Position)
    {problem : String → Problem} (isRepeat : ∀ name, isRepeatCode (problem name).code = true)
    (duplicates : List String) :
    (w.reportDuplicates declarators pos problem duplicates cx).log.repeats = []
        ↔ cx.log.repeats = [] ∧ duplicates = [] := by
  induction duplicates generalizing cx with
  | nil => simp [reportDuplicates]
  | cons name rest ih =>
    have made (file : String) (pos : Position) :
        (Diagnostic.ofProblem file pos (problem name)).isRepeat = true := isRepeat name
    have first (pos : Position) : (cx.report w.file pos (problem name)).log.repeats ≠ [] := by
      simp [Context.report, ErrorLog.add, ErrorLog.repeats, made]
    rw [reportDuplicates, List.foldl_cons]
    exact (ih _).trans ⟨fun clean => (first _ clean.1).elim,
      fun clean => (List.cons_ne_nil _ _ clean.2).elim⟩

variable {cx}

/-- Variables have been declared: a name is recorded exactly if it comes twice. -/
theorem reportDuplicates_agrees (owned : cx.Owned) {scope : ScopeRef} (isOpen : cx.table.IsOpen scope)
    {entry : Declared × SymbolTable} {vs : List Variable} {seen : List String}
    (lists : cx.table.Lists entry.2 scope vs)
    (collide : entry.1.duplicates = SymbolTable.collisions seen [] (vs.map (·.name)))
    (sees : ∀ n, n ∈ seen ↔ n ∈ cx.table.varNames (cx.table.varsOf scope)
      ∨ cx.options.duplicateScope = .enclosingBodies ∧ ∃ id, scope = .block id
        ∧ ∃ body ∈ cx.table.bodies (.block id), n ∈ cx.table.varNames (cx.table.varsOf body.scope))
    (written : List Declarator) (pos : Position) {problem : String → Problem}
    (isRepeat : ∀ name, isRepeatCode (problem name).code = true) : cx.Agrees →
    (w.reportDuplicates written pos problem entry.1.duplicates
      { cx with table := entry.2 }).Agrees := by
  intro agrees
  have options : (w.reportDuplicates written pos problem entry.1.duplicates
      { cx with table := entry.2 }).options = cx.options :=
    (w.reportDuplicates_run written pos (fun name => Problem.isOwn_of_isRepeatCode (isRepeat name))
      _ _).precedes.options
  rw [Context.Agrees, w.reportDuplicates_repeats _ written pos isRepeat, reportDuplicates_table,
    options, lists.hasNoRepeats owned.forest isOpen sees, collide]
  exact and_congr_left' agrees

/-- Fields are checked against those of their class. -/
theorem declareFields_agrees (owned : cx.Owned) {id : SymbolId}
    (isOpen : cx.table.IsOpen (.symbol id)) (written : List Declarator) (force : Bool) :
    cx.Agrees → (w.declareFields id written force cx).Agrees := by
  intro agrees
  let entry := cx.table.addFields id (writtenVars written (.symbol id) force)
  have enters : cx.table.Enters entry :=
    SymbolTable.addFields_enters isOpen (writtenVars_areNew written _ force)
  have isRepeat (name : String) : isRepeatCode (Problem.duplicateField name).code = true := rfl
  have run := (w.enterVariables_run enters written .nowhere
    fun name => Problem.isOwn_of_isRepeatCode (isRepeat name)).1
  have collide : entry.1.duplicates
      = SymbolTable.collisions (cx.table.varNames (cx.table.symbol id).fields) []
          ((writtenVars written (.symbol id) force).map (·.name)) := by
    simp only [entry, SymbolTable.addFields, SymbolTable.declare_fst]
  have reported := w.reportDuplicates_agrees owned isOpen
    (SymbolTable.addFields_lists owned.forest.vars isOpen _) collide
    (fun n => ⟨.inl, fun known => known.resolve_right (by rintro ⟨-, _, ⟨⟩, -⟩)⟩) written .nowhere
    isRepeat agrees
  exact Context.Still.agrees (.of_silent (w.linkVariables_silent ..)) (owned.steps run.steps) reported

/-- Local variables are checked against those of their body, and of the bodies around it. -/
theorem declareLocals_agrees (owned : cx.Owned) (body : BodyId)
    (isOpen : cx.table.IsOpen body.scope) (written : List Declarator) (pos : Position)
    (force : Bool) : cx.Agrees → (w.declareLocals body written pos force cx).Agrees := by
  intro agrees
  let policy := cx.options.duplicateScope
  let entry := cx.table.addVars body (writtenVars written body.scope force) policy
  have enters : cx.table.Enters entry :=
    SymbolTable.addVars_enters isOpen (writtenVars_areNew written _ force) _
  have isRepeat (_ : String) : isRepeatCode Problem.duplicateVariable.code = true := rfl
  have run := (w.enterVariables_run enters written pos
    fun name => Problem.isOwn_of_isRepeatCode (isRepeat name)).1
  have collide : entry.1.duplicates
      = SymbolTable.collisions (cx.table.namesInBody body policy) []
          ((writtenVars written body.scope force).map (·.name)) := by
    cases body <;> simp only [entry, SymbolTable.addVars, SymbolTable.declare_fst]
  have reported := w.reportDuplicates_agrees owned isOpen
    (SymbolTable.addVars_lists owned.forest.vars isOpen _ _) collide
    (cx.table.mem_namesInBody body policy) written pos isRepeat agrees
  exact Context.Still.agrees (.of_silent (w.linkVariables_silent ..)) (owned.steps run.steps) reported

/-- The name of a constructor is checked, which declares nothing. -/
theorem checkConstructor_still (owner : Symbol) (decl : MethodDecl) (pos : Position) (cx : Context) :
    cx.Still (w.reportAll pos (constructorProblem? owner decl).toList cx) := by
  have grows := w.reportAll_extends cx pos fun p isIn =>
    (show p ∈ (constructorProblem? owner decl).toList from isIn)
  refine .logged (w.reportAll_table ..) ?_ grows fun p isIn => ?_
  · rw [reportAll_eq]
  · rw [constructorProblem?] at isIn
    split at isIn
    · obtain rfl := List.mem_singleton.1 isIn
      rfl
    · cases isIn

/-- Parameters are checked against each other. -/
theorem declareParams_agrees (owned : cx.Owned) {id : MethodId}
    (isOpen : cx.table.IsOpen (.method id)) (isNew : (cx.table.method id).vars = [])
    (only : (cx.table.method id).vars = (cx.table.method id).params) (pos : Position)
    (decl : MethodDecl) (params : List Declarator) :
    cx.Agrees → (w.declareParams id pos decl params cx).Agrees := by
  intro agrees
  let entry := cx.table.addParams id (params.map (·.variable (.method id)))
  have enters : cx.table.Enters entry :=
    SymbolTable.addParams_enters isOpen only (params_areNew params id)
  have isRepeat (_ : String) : isRepeatCode Problem.duplicateParameter.code = true := rfl
  have run := (w.enterVariables_run enters params pos
    fun name => Problem.isOwn_of_isRepeatCode (isRepeat name)).1
  have collide : entry.1.duplicates
      = SymbolTable.collisions [] [] ((params.map (·.variable (.method id))).map (·.name)) := by
    simp only [entry, SymbolTable.addParams, SymbolTable.declare_fst]
  have reported := w.reportDuplicates_agrees owned isOpen
    (SymbolTable.addParams_lists owned.forest.vars isOpen only _) collide
    (fun n => by simp [SymbolTable.varsOf, isNew, SymbolTable.varNames]) params pos isRepeat agrees
  exact Context.Still.agrees (.of_silent (w.linkSignature_silent ..)) (owned.steps run.steps) reported

theorem enterMethod_agrees (owned : cx.Owned) {owner : SymbolId}
    (isOpen : cx.table.IsOpen (.symbol owner)) (pos : Position) (decl : MethodDecl) :
    cx.Agrees → (w.enterMethod owner pos decl cx).2.Agrees := by
  intro agrees
  let added := cx.table.addMethod (decl.record owner)
  have entered : Run cx { cx with table := added.2 } :=
    .deed (.enter (.method isOpen decl.name (Modifier.flags decl.modifiers) decl.typeParams
      decl.returnType decl.throws decl.isConstructor))
  have isNew := addMethod_isNew cx.table (decl.record owner)
  -- the name of a constructor is checked, which declares nothing
  have named := w.reportAll_run pos (constructorProblem_isOwn (added.2.symbol owner) decl)
    { cx with table := added.2 }
  have sameTable := w.reportAll_table pos (constructorProblem? (added.2.symbol owner) decl).toList
    { cx with table := added.2 }
  have still : cx.Still { cx with table := added.2 } := .enter cx (.addMethod cx.table rfl)
  have checked := still.trans (w.checkConstructor_still (added.2.symbol owner) decl pos _)
  have record : ((w.reportAll pos (constructorProblem? (added.2.symbol owner) decl).toList
      { cx with table := added.2 }).table.method added.1) = decl.record owner := by
    rw [sameTable]
    exact isNew.2
  rw [enterMethod_eq]
  refine w.declareParams_agrees (owned.steps (entered.trans named).steps) ?_ ?_ ?_ pos decl _
    (checked.agrees owned agrees)
  · rw [sameTable]
    exact isNew.1
  · rw [record]
    rfl
  · rw [record]
    rfl

theorem enterException_agrees (owned : cx.Owned) {id : BlockId} (isOpen : cx.table.IsOpen (.block id))
    (exception : NodeIndex) : cx.Agrees → (w.enterException id exception cx).2.Agrees := by
  intro agrees
  rw [enterException_eq]
  split
  · exact agrees
  · next d _ => exact w.declareLocals_agrees owned (.block id) isOpen [d] d.pos false agrees

theorem inBlock_agrees (owned : cx.Owned) (ref : ScopeRef) (agrees : cx.Agrees) :
    (inBlock ref cx).Agrees :=
  Context.Still.agrees (.enter cx (.addBlock cx.table ref)) owned agrees

theorem Calls.agrees {mode : BlockMode} {scope inner : WalkScope} {node : Node} {force : Bool}
    {nodes : List (BlockMode × NodeIndex)} {next : Context} (owned : cx.Owned)
    (isOpen : scope.IsOpenIn cx.table) (calls : w.Calls mode scope node force cx inner nodes next) :
    cx.Agrees → next.Agrees := by
  intro agrees
  cases calls with
  | header is => exact agrees
  | method is inClass =>
    subst inClass
    exact w.enterMethod_agrees owned (isOpen _ rfl) node.pos _ agrees
  | fields is inClass =>
    subst inClass
    exact w.declareFields_agrees owned (isOpen _ rfl) _ force agrees
  | locals is inBody =>
    subst inBody
    exact w.declareLocals_agrees owned _ (isOpen _ rfl) _ .nowhere force agrees
  | block | initializer | loop => exact inBlock_agrees owned _ agrees
  | @handler exception _ outer is inBody =>
    subst inBody
    have opened : Run cx (inBlock outer.scope cx) := addBlock_run (isOpen _ rfl)
    exact w.enterException_agrees (owned.steps opened.steps) (addBlock_isOpen cx.table outer.scope)
      exception (inBlock_agrees owned _ agrees)
  | mention is => exact Context.Still.agrees (.of_silent (.linkType ..)) owned agrees
  | statements | innerInitializer | fileLoop | anonymousAtFile | children | stray => exact agrees

/-- Whatever a walk does, the objections and the table go on telling the same story. -/
theorem agrees_keeps (w : Walk) : w.Keeps Context.Owned Context.Agrees where
  steady course owned := owned.steps course.steps
  refuses owned _ := (w.refuseDepth_still _ _ _).agrees owned
  inspects owned _ _ := (w.inspect_still _ _ _ _ _).agrees owned
  calls owned isOpen _ calls := calls.agrees w owned isOpen
  refusesName owned _ _ :=
    ((w.qualifiedName_still _ _ _).trans (w.refuseName_still _ _ _ _)).agrees owned
  declares {remaining scope idx node admission decl id a b c} owned isOpen _ admits _ begun := by
    have inspected := w.inspect_still a remaining scope idx node
    rw [admits] at inspected
    have named := inspected.trans (w.qualifiedName_still b scope decl.name)
    have entered := named.trans (beginClass_still begun decl.head_isHead)
    exact (entered.trans (.of_silent (w.linkParents_silent ..))).agrees owned
  refusesNumber owned _ _ :=
    ((numbered_still _ _).trans (w.refuseName_still _ _ _ _)).agrees owned
  declaresAnonymous {idx node outer type arguments members ref id a b} owned _ _ _ _ begun := by
    have entered := (numbered_still a ref).trans (beginClass_still begun fun _ => rfl)
    exact (entered.trans (.of_silent (.linkType ..))).agrees owned
  completes owned isOpen := Context.Still.agrees (.of_silent (.defineComplete isOpen)) owned

end Walk

/-! ## Batches -/

namespace Context

theorem agrees_start (options : Options) : (start options).Agrees := by
  have none (scope : ScopeRef) : SymbolTable.seeded.varsOf scope = [] := by
    have bare := SymbolTable.seeded_bare
    cases scope with
    | symbol id => exact (bare.symbol id).2.1
    | method id => rw [SymbolTable.varsOf, bare.method]; rfl
    | block id => rw [SymbolTable.varsOf, bare.block]; rfl
  refine ⟨fun _ => SymbolTable.hasNoRepeats_iff.2 ⟨fun scope => ?_, fun _ id v isIn => ?_⟩,
    fun _ => rfl⟩
  · show (SymbolTable.seeded.varNames (SymbolTable.seeded.varsOf scope)).Nodup
    rw [none]
    exact List.nodup_nil
  · change v ∈ SymbolTable.seeded.varsOf (.block id) at isIn
    rw [none] at isIn
    cases isIn

theorem Agrees.analyzeFiles {cx : Context} (owned : cx.Owned) (agrees : cx.Agrees)
    (units : List SourceUnit) : (cx.analyzeFiles units).Agrees := by
  induction units generalizing cx with
  | nil => exact agrees
  | cons unit rest ih =>
    have added : (cx.addFile unit.tree.fileName unit.level).2.Agrees := agrees
    have analyzed := (cx.analyzeFile_journey unit).keeps (Walk.agrees_keeps _)
      (owned.addFile unit.tree.fileName unit.level) added
    exact ih (owned.perform (.analyze unit)) analyzed

theorem analyzeFiles_options (cx : Context) (units : List SourceUnit) :
    (cx.analyzeFiles units).options = cx.options := by
  induction units generalizing cx with
  | nil => rfl
  | cons unit rest ih => exact (ih _).trans (cx.analyzeFile_run unit).precedes.options

end Context

namespace Analysis

/-- A batch has no record of a variable (code 1003), a parameter (1014) or a field (1015) that is
declared twice exactly if its table holds no name twice. -/
theorem ofUnits_hasNoRepeats (units : List SourceUnit) (options : Options) :
    (∀ d ∈ (ofUnits units options).diagnostics, d.code ≠ 1003 ∧ d.code ≠ 1014 ∧ d.code ≠ 1015)
      ↔ (ofUnits units options).table.HasNoRepeats options.duplicateScope := by
  have owned := (Context.owned_start options).analyzeFiles units
  have analyzed := (Context.agrees_start options).analyzeFiles (Context.owned_start options) units
  have settled := Context.Still.of_silent (.settle ((Context.start options).analyzeFiles units))
  have agrees := settled.agrees owned analyzed
  have codes : (∀ d ∈ (ofUnits units options).diagnostics,
      d.code ≠ 1003 ∧ d.code ≠ 1014 ∧ d.code ≠ 1015)
        ↔ ((Context.start options).analyzeFiles units).settle.log.repeats = [] := by
    rw [ErrorLog.repeats, List.filter_eq_nil_iff]
    refine forall₂_congr fun d _ => ?_
    simp [Diagnostic.isRepeat, isRepeatCode, and_assoc]
  have same : ((Context.start options).analyzeFiles units).settle.options = options :=
    settled.options.trans (Context.analyzeFiles_options _ units)
  rw [Context.Agrees, same] at agrees
  exact codes.trans agrees

end Analysis

end LevelCheck
