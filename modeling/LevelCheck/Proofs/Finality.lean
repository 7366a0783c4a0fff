import LevelCheck.Proofs.ConstructorNames
import LevelCheck.Proofs.DeclaredRecords
import LevelCheck.Proofs.AfterVisits
import LevelCheck.Proofs.ScopeEntries
import LevelCheck.Proofs.VisitInduction
set_option autoImplicit false

/-! # Which variables are final

A variable is final if a modifier says so, or if it is declared as a local one in a file of one of the
two most restricted levels. That is decided as it is declared, and stays so to the end of the run. -/

namespace LevelCheck

/-! ## What the policy makes final -/

namespace Policy

/-- Only the declaration of local variables is ruled to make variables final, and only by the one
table that has a rule for it. -/
theorem locals_of_forceFinal {levels : List Level} {offer : Offer}
    (forced : (rulingOf levels offer).forceFinal = true) : .intermediate ∈ levels
      ∧ (Level.intermediate.ruleFor? offer.scope offer.node.kind).isSome
      ∧ ∃ modifiers declarators, offer.node.data = .variableDeclaration modifiers declarators := by
  induction levels with
  | nil => cases forced
  | cons l rest ih =>
    have later (forced : (rulingOf rest offer).forceFinal = true) := by
      obtain ⟨isIn, found⟩ := ih forced
      exact And.intro (List.mem_cons_of_mem l isIn) found
    rw [rulingOf] at forced
    split at forced
    · exact later forced
    · next rule found =>
      obtain ⟨e, entered, kind, rfl⟩ := Level.ruleFor_mem found
      cases Level.rules_decide entered offer with
      | forwards rules | objects _ rules =>
        rw [rules] at forced
        exact later forced
      | prunes _ rules | acceptsTry _ _ rules =>
        rw [rules] at forced
        cases forced
      | acceptsLocals level data rules =>
        subst level
        exact ⟨List.mem_cons_self, Option.isSome_iff_exists.2 ⟨_, found⟩, _, _, data⟩

/-- Local variables become final in bodies of files of the two most restricted levels. -/
theorem forceFinal_iff (l : Level) {offer : Offer} (notAny : offer.scope ≠ .any) :
    (ruling l offer).forceFinal = true ↔ (l = .elementary ∨ l = .intermediate)
      ∧ offer.scope = .body
      ∧ ∃ modifiers declarators, offer.node.data = .variableDeclaration modifiers declarators := by
  obtain ⟨⟨pos, data⟩, scope, level, inConstructor⟩ := offer
  constructor
  · intro forced
    obtain ⟨isIn, found, modifiers, declarators, is⟩ := locals_of_forceFinal forced
    obtain rfl : data = _ := is
    refine ⟨?_, ?_, _, _, rfl⟩
    · revert isIn
      cases l <;> decide
    · cases scope with
      | body => rfl
      | file | classBody => cases found
      | any => exact absurd rfl notAny
  · rintro ⟨isLow, inBody, modifiers, declarators, is⟩
    obtain rfl : scope = .body := inBody
    obtain rfl : data = _ := is
    rcases isLow with rfl | rfl <;> rfl

end Policy

/-! ## What variables are declared as -/

/-- What a variable is declared as. -/
inductive VariableRole where
  | parameter
  /-- The exception of a handler. -/
  | exception
  | field
  | localVariable
  deriving DecidableEq, Repr

/-- What a node declares variables as, in a scope of the kind. -/
def NodeData.role? : ScopeKind → NodeData → Option VariableRole
  | .classBody, .methodDef .. | .classBody, .constructorDef .. => some .parameter
  | .body, .catchBlock .. => some .exception
  | .classBody, .variableDeclaration .. => some .field
  | .body, .variableDeclaration .. => some .localVariable
  | _, _ => none

theorem NodeData.role?_of_method {data : NodeData} {decl : Walk.MethodDecl}
    (is : data.methodDecl? = some decl) : data.role? .classBody = some .parameter := by
  cases data with
  | methodDef | constructorDef => rfl
  | _ => cases is

theorem NodeData.role?_eq_local {kind : ScopeKind} {data : NodeData} :
    data.role? kind = some .localVariable
      ↔ kind = .body ∧ ∃ modifiers declarators, data = .variableDeclaration modifiers declarators := by
  constructor
  · intro is
    cases data with
    | variableDeclaration modifiers declarators =>
      cases kind with
      | body => exact ⟨rfl, _, _, rfl⟩
      | file | classBody | any => cases is
    | _ => cases kind <;> cases is
  · rintro ⟨rfl, modifiers, declarators, rfl⟩
    rfl

theorem Variable.isFinal_of_written {v u : Variable} (same : v.written = u.written) :
    v.isFinal = u.isFinal ∧ v.modifiers = u.modifiers := by
  have isFinal := congrArg Variable.isFinal same
  have modifiers := congrArg Variable.modifiers same
  exact ⟨isFinal, modifiers⟩

namespace SymbolTable

variable (t : SymbolTable) (vars : List Variable)

theorem addFields_vars (id : SymbolId) : (t.addFields id vars).2.vars = (t.appendVars vars).vars := by
  rw [addFields_table]
  rfl

theorem addParams_vars (id : MethodId) : (t.addParams id vars).2.vars = (t.appendVars vars).vars := by
  rw [addParams_table]
  rfl

theorem addVars_vars (body : BodyId) (policy : DuplicateScope) :
    (t.addVars body vars policy).2.vars = (t.appendVars vars).vars := by
  rw [addVars_table]
  cases body <;> rfl

variable {t vars}

/-- Variables that have been appended, and whose types may have been linked since, are written as
they were declared. -/
theorem SameWriting.appended {entered u : SymbolTable} (same : entered.SameWriting u)
    (appended : entered.vars = (t.appendVars vars).vars) {id : VariableId}
    (isNew : t.vars.size ≤ id.val) (known : id.val < u.vars.size) :
    ∃ v ∈ vars, (u.var id).written = v.written := by
  have size : u.vars.size = t.vars.size + vars.length := by
    have sizes := congrArg Array.size same.vars
    simpa [appended, appendVars] using sizes
  have within : id.val - t.vars.size < vars.length := by omega
  refine ⟨vars[id.val - t.vars.size], List.getElem_mem within, (same.var id).trans ?_⟩
  rw [SymbolTable.var, appended, appendVars]
  simp [Array.getD_eq_getD_getElem?, Array.getElem?_append_right isNew, within]

end SymbolTable

namespace Walk

variable {w : Walk}

/-- A variable that is declared is final if a modifier says so, or if it is made final. -/
theorem writtenVars_isFinal {written : List Declarator} {scope : ScopeRef} {force : Bool} {v : Variable}
    (isIn : v ∈ writtenVars written scope force) :
    v.isFinal = (Modifier.final.isIn v.modifiers || force) := by
  obtain ⟨d, -, rfl⟩ := List.mem_map.1 isIn
  cases force with
  | false => exact (Bool.or_false _).symm
  | true => exact (Bool.or_true _).symm

/-- What is entered as declared is final if a modifier says so, or if it is made final. -/
theorem isFinal_of_appended {t entered u : SymbolTable} (same : entered.SameWriting u)
    {written : List Declarator} {scope : ScopeRef} {force : Bool}
    (appended : entered.vars = (t.appendVars (writtenVars written scope force)).vars)
    {id : VariableId} (isNew : t.vars.size ≤ id.val) (known : id.val < u.vars.size) :
    (u.var id).isFinal = (Modifier.final.isIn (u.var id).modifiers || force) := by
  obtain ⟨v, isIn, is⟩ := same.appended appended isNew known
  obtain ⟨isFinal, modifiers⟩ := Variable.isFinal_of_written is
  rw [isFinal, modifiers]
  exact writtenVars_isFinal isIn

theorem declareFields_isFinal {owner : SymbolId} {written : List Declarator} {force : Bool}
    {a : Context} {id : VariableId} (isNew : a.table.vars.size ≤ id.val)
    (known : id.val < (w.declareFields owner written force a).table.vars.size) :
    ((w.declareFields owner written force a).table.var id).isFinal
      = (Modifier.final.isIn ((w.declareFields owner written force a).table.var id).modifiers
        || force) :=
  isFinal_of_appended (w.declareVariables_spares ..).1 (SymbolTable.addFields_vars ..) isNew known

theorem declareLocals_isFinal (w : Walk) (body : BodyId) (written : List Declarator)
    (pos : Position) (force : Bool) {a : Context} {id : VariableId} (isNew : a.table.vars.size ≤ id.val)
    (known : id.val < (w.declareLocals body written pos force a).table.vars.size) :
    ((w.declareLocals body written pos force a).table.var id).isFinal
      = (Modifier.final.isIn ((w.declareLocals body written pos force a).table.var id).modifiers
        || force) :=
  isFinal_of_appended (w.declareVariables_spares ..).1 (SymbolTable.addVars_vars ..) isNew known

theorem declareParams_isFinal {method : MethodId} {pos : Position} {decl : MethodDecl}
    {params : List Declarator} {a : Context} {id : VariableId} (isNew : a.table.vars.size ≤ id.val)
    (known : id.val < (w.declareParams method pos decl params a).table.vars.size) :
    ((w.declareParams method pos decl params a).table.var id).isFinal
      = (Modifier.final.isIn ((w.declareParams method pos decl params a).table.var id).modifiers
        || false) := by
  let entry := a.table.addParams method (writtenVars params (.method method) false)
  have same := (w.linkSignature_silent method pos decl params entry.1.ids
    (w.reportDuplicates params pos (fun _ => .duplicateParameter) entry.1.duplicates
      { a with table := entry.2 })).written
  rw [reportDuplicates_table] at same
  exact isFinal_of_appended same (SymbolTable.addParams_vars ..) isNew known

theorem enterException_isFinal {block : BlockId} {exception : NodeIndex} {a : Context}
    {id : VariableId} (isNew : a.table.vars.size ≤ id.val)
    (known : id.val < (w.enterException block exception a).2.table.vars.size) :
    ((w.enterException block exception a).2.table.var id).isFinal
      = (Modifier.final.isIn ((w.enterException block exception a).2.table.var id).modifiers
        || false) := by
  cases written : w.param? exception with
  | none =>
    rw [enterException_eq, written] at known
    exact absurd known (Nat.not_lt.2 isNew)
  | some d =>
    have declared : (w.enterException block exception a).2
        = w.declareLocals (.block block) [d] d.pos false a := by
      rw [enterException_eq, written]
    rw [declared] at known ⊢
    exact w.declareLocals_isFinal (.block block) [d] d.pos false isNew known

/-- The variables that are new after what a node calls for are those that it declares. -/
theorem Calls.isFinal {mode : BlockMode} {scope inner : WalkScope} {node : Node} {force : Bool}
    {nodes : List (BlockMode × NodeIndex)} {a b : Context}
    (calls : w.Calls mode scope node force a inner nodes b)
    (forced : force = true → node.data.role? scope.kind = some .localVariable) {id : VariableId}
    (isNew : a.table.vars.size ≤ id.val) (known : id.val < b.table.vars.size) :
    (∃ role, node.data.role? scope.kind = some role)
      ∧ (b.table.var id).isFinal = (Modifier.final.isIn (b.table.var id).modifiers || force) := by
  have unforced {role : VariableRole} (is : node.data.role? scope.kind = some role)
      (other : role ≠ .localVariable) : force = false := by
    refine Bool.eq_false_iff.2 fun isForced => other ?_
    exact Option.some.inj (is.symm.trans (forced isForced))
  have older {p : Prop} (same : b.table.vars.size = a.table.vars.size) : p := by omega
  cases calls with
  | @method decl owner is inClass =>
    subst inClass
    have role := NodeData.role?_of_method is
    refine ⟨⟨_, role⟩, ?_⟩
    rw [unforced role nofun]
    rw [enterMethod_eq] at known ⊢
    have entered : (w.reportAll node.pos
        (constructorProblem? ((a.table.addMethod (decl.record owner)).2.symbol owner) decl).toList
        { a with table := (a.table.addMethod (decl.record owner)).2 }).table.vars = a.table.vars := by
      rw [reportAll_table]
      rfl
    exact declareParams_isFinal (by rw [entered]; exact isNew) known
  | @fields modifiers nodes owner is inClass =>
    subst inClass
    refine ⟨⟨.field, by rw [is]; rfl⟩, ?_⟩
    exact declareFields_isFinal isNew known
  | locals is inBody =>
    subst inBody
    exact ⟨⟨.localVariable, by rw [is]; rfl⟩, w.declareLocals_isFinal _ _ _ force isNew known⟩
  | @handler exception handler outer is inBody =>
    subst inBody
    have role : node.data.role? (WalkScope.body outer).kind = some .exception := by rw [is]; rfl
    have opened : (inBlock outer.scope a).table.vars = a.table.vars :=
      (a.table.addBlock_sizes outer.scope).2.2
    refine ⟨⟨_, role⟩, ?_⟩
    rw [unforced role nofun]
    exact enterException_isFinal (by rw [opened]; exact isNew) known
  | @mention type =>
    have same := (Context.Silent.linkType a w.file scope.ref? type node.pos .existence).written.vars
    exact older (by simpa using congrArg Array.size same)
  | block | initializer | loop => exact older (congrArg Array.size (a.table.addBlock_sizes _).2.2)
  | header | statements | innerInitializer | fileLoop | anonymousAtFile | children | stray =>
    exact older rfl

/-! ## The visits that declare variables -/

/-- The visit declares the variable in the role: it comes to the table with what the node calls for,
which leaves the run in a state. -/
inductive Declares (w : Walk) (v : Visit) (role : VariableRole) (id : VariableId) : Context → Prop where
  | intro {node : Node} {admission : Admission} {inner : WalkScope}
      {nodes : List (BlockMode × NodeIndex)} {a b : Context} (admits : w.Admits v node admission a)
      (calls : w.Calls v.mode v.scope node admission.forceFinal a inner nodes b)
      (is : node.data.role? v.scope.kind = some role) (isNew : a.table.vars.size ≤ id.val)
      (known : id.val < b.table.vars.size) : Declares w v role id b

/-- The local variables of the file are final. -/
def MakesLocalsFinal (w : Walk) : Prop := w.policy = .elementary ∨ w.policy = .intermediate

variable {v : Visit}

/-- The policy makes the variables of an admitted node final if they are local ones of such a file. -/
theorem Admits.forceFinal_iff {node : Node} {admission : Admission} {a : Context}
    (admits : w.Admits v node admission a) : admission.forceFinal = true
      ↔ w.MakesLocalsFinal ∧ node.data.role? v.scope.kind = some .localVariable := by
  have ruled : admission.forceFinal = (w.rulingOn v.scope node v.before).forceFinal := by
    have inspection := w.inspect_inspection v.before v.remaining v.scope v.node node
    rw [admits.2.2] at inspection
    cases inspection with
    | skipped _ is | refused _ _ _ is => cases is
    | admitted _ _ is =>
      cases is
      rfl
  have notAny : (w.offer v.scope node v.before).scope ≠ .any := by
    rw [offer]
    cases v.scope <;> simp [WalkScope.kind]
  rw [ruled, rulingOn, Policy.forceFinal_iff _ notAny, NodeData.role?_eq_local]
  rfl

theorem Declares.isFinal_iff {role : VariableRole} {id : VariableId} {b : Context}
    (declares : w.Declares v role id b) : (b.table.var id).isFinal = true
      ↔ Modifier.final.isIn (b.table.var id).modifiers = true
        ∨ role = .localVariable ∧ w.MakesLocalsFinal := by
  obtain ⟨admits, calls, is, isNew, known⟩ := declares
  have forced := admits.forceFinal_iff
  have isFinal := (calls.isFinal (fun isForced => (forced.1 isForced).2) isNew known).2
  rw [isFinal, Bool.or_eq_true, forced, is, Option.some.injEq, and_comm]

/-- What is left of a visit after it has declared a variable. -/
theorem Declares.course (isOpen : v.scope.IsOpenIn v.before.table) {role : VariableRole}
    {id : VariableId} {b : Context} (declares : w.Declares v role id b) : Course b (w.after v) := by
  obtain @⟨node, admission, inner, nodes, a, b, admits, calls, -, -, -⟩ := declares
  have goes : w.GoesThrough v inner nodes b := .calls admits calls
  have through := through_run (w := w) (goes.course isOpen).2 (v.remaining - 1) nodes
  exact (Course.of_run through.1).trans (goes.returns isOpen)

/-- The variables that are new in the second state were declared at visits of a kind. -/
structure Registers (w : Walk) (reached : Visit → Prop) (a b : Context) : Prop where
  grows : a.table.vars.size ≤ b.table.vars.size
  declared : ∀ id : VariableId, a.table.vars.size ≤ id.val → id.val < b.table.vars.size →
    ∃ u role c, reached u ∧ w.Declares u role id c

namespace Registers

variable {reached : Visit → Prop} {a b c : Context}

theorem of_same (same : b.table.vars.size = a.table.vars.size) : w.Registers reached a b :=
  ⟨same.ge, fun id isNew known => absurd known (by omega)⟩

theorem of_written (same : a.table.SameWriting b.table) : w.Registers reached a b :=
  of_same (by simpa using congrArg Array.size same.vars)

theorem trans (first : w.Registers reached a b) (second : w.Registers reached b c) :
    w.Registers reached a c := by
  refine ⟨first.grows.trans second.grows, fun id isNew known => ?_⟩
  rcases Nat.lt_or_ge id.val b.table.vars.size with older | newer
  · exact first.declared id isNew older
  · exact second.declared id newer known

theorem mono {wider : Visit → Prop} (le : ∀ v, reached v → wider v)
    (registers : w.Registers reached a b) : w.Registers wider a b := by
  refine ⟨registers.grows, fun id isNew known => ?_⟩
  obtain ⟨u, role, c, isReached, declares⟩ := registers.declared id isNew known
  exact ⟨u, role, c, le u isReached, declares⟩

end Registers

theorem qualifiedName_written (w : Walk) (scope : WalkScope) (simple : String) (a : Context) :
    a.table.SameWriting (w.qualifiedName scope simple a).2.table := by
  cases scope with
  | file =>
    rw [qualifiedName]
    split <;> exact .refl a.table
  | classBody => exact .refl a.table
  | body => exact .numberLocalClass _ _

/-- Whatever variables come to the table, a visit has declared them. -/
theorem registers_relates (w : Walk) :
    w.Relates fun v a b => w.Registers (w.Comes v) a b where
  rest _ _ := .of_same rfl
  trans := .trans
  leads leads := .mono fun _ comes => Relation.ReflTransGen.head leads comes
  refuses _ _ := by
    rw [refuseDepth_eq]
    exact .of_same rfl
  inspects {v node} _ _ := by
    obtain ⟨log, is⟩ := w.inspect_changes v.before v.remaining v.scope v.node node
    rw [is]
    exact .of_same rfl
  calls {v node admission inner nodes a b} isOpen admits calls := by
    have isOpen' := admits.run.precedes.isOpenIn isOpen
    refine ⟨(calls.run isOpen').1.precedes.table.vars, fun id isNew known => ?_⟩
    have forced isForced := (admits.forceFinal_iff.1 isForced).2
    obtain ⟨⟨role, is⟩, -⟩ := calls.isFinal forced isNew known
    exact ⟨v, role, b, .refl, .intro admits calls is isNew known⟩
  refusesName _ _ _ _ := .of_written (w.qualifiedName_written ..)
  declares isOpen admits _ begun inspected :=
    have opens := opens_declared (admits.run.precedes.isOpenIn isOpen) begun
    inspected.trans (.of_written (((w.qualifiedName_written ..).trans opens.sameWriting).trans
      (w.linkParents_silent ..).written))
  refusesNumber _ _ _ := .of_written (.numberLocalClass _ _)
  declaresAnonymous isOpen builds begun :=
    have opens := anonymous_opens (builds.run isOpen).2 begun
    .of_written (((SymbolTable.SameWriting.numberLocalClass _ _).trans opens.sameWriting).trans
      (Context.Silent.linkType ..).written)
  completes _ isOpen := .of_written (Context.Silent.defineComplete isOpen).written

end Walk

/-! ## Runs -/

namespace Context

open Walk

/-- After a visit that the requests come to, the records that it leaves are kept to the end. -/
theorem ComesTo.keepsRecords {cx : Context} {requests : List Request} {w : Walk} {v : Visit}
    (comes : cx.ComesTo requests w v) :
    (w.after v).table.KeepsRecords (cx.performAll requests).table := by
  induction comes with
  | @here cx unit rest v comes =>
    have returns := comes.returns (WalkScope.isOpenIn_file (cx.rootVisit unit).before.table)
    exact returns.keepsRecords.trans (SymbolTable.KeepsRecords.holdsAcross.performAll _ rest)
  | later _ ih => exact ih

/-- Whatever variables the requests bring to the table, a visit that they come to has declared them. -/
theorem performAll_registers (cx : Context) (requests : List Request) {id : VariableId}
    (isNew : cx.table.vars.size ≤ id.val)
    (known : id.val < (cx.performAll requests).table.vars.size) :
    ∃ w v role c, cx.ComesTo requests w v ∧ w.Declares v role id c := by
  induction requests generalizing cx with
  | nil => exact absurd known (Nat.not_lt.2 isNew)
  | cons request rest ih =>
    rcases Nat.lt_or_ge id.val (cx.perform request).table.vars.size with here | later
    · cases request with
      | analyze unit =>
        have registers := ((cx.walkOf unit).registers_relates).visit (cx.rootVisit unit)
          (WalkScope.isOpenIn_file _)
        obtain ⟨u, role, c, comes, declares⟩ := registers.declared id isNew here
        exact ⟨_, u, role, c, .here comes, declares⟩
      | settle =>
        have size := congrArg Array.size (Silent.settle cx).written.vars
        rw [Array.size_map, Array.size_map] at size
        exact absurd here (Nat.not_lt.2 (size.le.trans isNew))
    · obtain ⟨w, v, role, c, comes, declares⟩ := ih (cx.perform request) later known
      exact ⟨w, v, role, c, .later comes, declares⟩

/-- A variable is final at the end of a run if and only if a modifier says so or it was declared as a
local one in a file of one of the two most restricted levels. Parameters, exceptions and fields are
final only if a modifier says so. From when a visit finds or leaves a variable to the end of the run,
whether it is final stays the same; no deed of a walk changes it, no class that is begun or completed,
no reference that is resumed, and not settling. -/
theorem ofUnits_finality (units : List SourceUnit) (options : Options) :
    (∀ id : VariableId, id.val < (ofUnits units options).table.vars.size →
      (((ofUnits units options).table.var id).isFinal = true
        ↔ Modifier.final.isIn ((ofUnits units options).table.var id).modifiers = true
          ∨ ∃ w v c, (start options).ComesTo (units.map .analyze) w v ∧ w.MakesLocalsFinal
            ∧ w.Declares v .localVariable id c))
    ∧ (∀ w v role id c, (start options).ComesTo (units.map .analyze) w v → w.Declares v role id c →
        role ≠ .localVariable → ((ofUnits units options).table.var id).isFinal
          = Modifier.final.isIn ((ofUnits units options).table.var id).modifiers)
    ∧ (∀ w v, (start options).ComesTo (units.map .analyze) w v → ∀ c, c = v.before ∨ c = w.after v →
        ∀ id : VariableId, id.val < c.table.vars.size →
          ((ofUnits units options).table.var id).isFinal = (c.table.var id).isFinal)
    ∧ (∀ a b : Context, Course a b → ∀ id : VariableId, id.val < a.table.vars.size →
        (b.table.var id).isFinal = (a.table.var id).isFinal)
    ∧ (∀ (cx : Context) (r : PendingReference) (target : SymbolId) (id : VariableId),
        id.val < cx.table.vars.size →
          ((resume r target cx).table.var id).isFinal = (cx.table.var id).isFinal)
    ∧ ∀ (cx : Context) (id : VariableId), id.val < cx.table.vars.size →
        (cx.settle.table.var id).isFinal = (cx.table.var id).isFinal := by
  have isFinal {t u : SymbolTable} (keeps : t.KeepsRecords u) {id : VariableId}
      (known : id.val < t.vars.size) := Variable.isFinal_of_written (keeps.var id known)
  have ended : ofUnits units options = ((start options).performAll (units.map .analyze)).settle := by
    rw [← analyzeFiles_eq_performAll, ofUnits]
  have toEnd {w : Walk} {v : Visit} (comes : (start options).ComesTo (units.map .analyze) w v) :
      (w.after v).table.KeepsRecords (ofUnits units options).table := by
    rw [ended]
    exact comes.keepsRecords.trans (SymbolTable.KeepsRecords.holdsAcross.settle _)
  -- what a declaration makes of a variable is what there is at the end
  have declared {w : Walk} {v : Visit} {role : VariableRole} {id : VariableId} {c : Context}
      (comes : (start options).ComesTo (units.map .analyze) w v) (declares : w.Declares v role id c) :
      ((ofUnits units options).table.var id).isFinal = true
        ↔ Modifier.final.isIn ((ofUnits units options).table.var id).modifiers = true
          ∨ role = .localVariable ∧ w.MakesLocalsFinal := by
    have known : id.val < c.table.vars.size := by
      obtain ⟨-, -, -, -, known⟩ := declares
      exact known
    have kept := (declares.course comes.isOpen).keepsRecords.trans (toEnd comes)
    rw [(isFinal kept known).1, (isFinal kept known).2]
    exact declares.isFinal_iff
  refine ⟨fun id known => ?_, fun w v role id c comes declares other => ?_,
    fun w v comes c is id known => ?_, fun a b course id known => ?_,
    fun cx r target id known => ?_, fun cx id known => ?_⟩
  · have size : ((start options).performAll (units.map .analyze)).table.vars.size
        = (ofUnits units options).table.vars.size := by
      rw [ended]
      simpa using congrArg Array.size (Silent.settle _).written.vars.symm
    obtain ⟨w, v, role, c, comes, declares⟩ := (start options).performAll_registers
      (units.map .analyze) (Nat.zero_le id.val) (size ▸ known)
    constructor
    · intro final
      refine ((declared comes declares).1 final).imp_right fun ⟨isLocal, low⟩ => ?_
      exact ⟨w, v, c, comes, low, isLocal ▸ declares⟩
    · rintro (modifier | ⟨w, v, c, comes, low, declares⟩)
      · exact (declared comes declares).2 (.inl modifier)
      · exact (declared comes declares).2 (.inr ⟨rfl, low⟩)
  · rw [Bool.eq_iff_iff, declared comes declares]
    exact or_iff_left fun isLocal => other isLocal.1
  · rcases is with rfl | rfl
    · have journey := (w.visit_journeys v.remaining).journey v.mode v.node comes.isOpen
      have kept := (Course.of_run journey.run).keepsRecords.trans (toEnd comes)
      exact (isFinal kept known).1
    · exact (isFinal (toEnd comes) known).1
  · exact (isFinal course.keepsRecords known).1
  · exact (isFinal (SymbolTable.KeepsRecords.holdsAcross.resume r target cx) known).1
  · exact (isFinal (SymbolTable.KeepsRecords.holdsAcross.settle cx) known).1

end Context

/-- A class with a field and a method that has a parameter and a local variable. -/
def threeVariables : SourceUnit where
  level := .elementary
  tree :=
    { fileName := "A.dj0", root := ⟨0⟩
      arena := { nodes := #[
        ⟨.nowhere, .sourceFile none [] [⟨1⟩]⟩,
        ⟨⟨1, 1⟩, .classDef [] "A" [] none [] [⟨2⟩, ⟨4⟩]⟩,
        ⟨⟨2, 3⟩, .variableDeclaration [] [⟨3⟩]⟩,
        ⟨⟨2, 7⟩, .variableDeclarator "int" "x" none⟩,
        ⟨⟨3, 3⟩, .methodDef [] [] "void" "m" [⟨5⟩] [] (some ⟨6⟩)⟩,
        ⟨⟨3, 10⟩, .formalParameter false "int" "y"⟩,
        ⟨⟨3, 17⟩, .block [⟨7⟩]⟩,
        ⟨⟨4, 5⟩, .variableDeclaration [] [⟨8⟩]⟩,
        ⟨⟨4, 9⟩, .variableDeclarator "int" "z" none⟩] } }

/-- The local variable is final though no modifier says so, and it is the only one. -/
theorem Context.ofUnits_finality_threeVariables :
    (ofUnits [threeVariables] .usual).table.vars.toList.map (fun v => (v.name, v.isFinal))
        = [("x", false), ("y", false), ("z", true)]
      ∧ ∃ w v c, (start .usual).ComesTo ([threeVariables].map .analyze) w v ∧ w.MakesLocalsFinal
        ∧ w.Declares v .localVariable ⟨2⟩ c := by
  refine ⟨by decide +kernel, ?_⟩
  have final := ((ofUnits_finality [threeVariables] .usual).1 ⟨2⟩ (by decide +kernel)).1
    (by decide +kernel)
  exact final.resolve_left (by decide +kernel)

end LevelCheck
