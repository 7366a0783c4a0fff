import LevelCheck.Policy
import Mathlib.Tactic
set_option autoImplicit false

/-! # What a policy rules

A rule leaves a node to the next table, with an objection or without one, prunes it for a problem,
or accepts it, which keeps the later tables from being asked. Only two rules accept, and what they
accept no later table objects to. So a policy raises nothing about a node exactly if none of its
tables would object on its own; and since the tables of a level include those of every more
permissive one, a more permissive level raises nothing where a stricter one does not. -/

namespace LevelCheck

/-- The problem is found by looking at a node, or at what it refers to: it is neither that the node
is nested too deeply to be looked at, nor that a reference was never resolved. -/
def Problem.IsLocal : Problem → Prop
  | .nestingTooDeep _ | .unresolved _ => False
  | _ => True

theorem Problem.IsLocal.code_ne {p : Problem} (isLocal : p.IsLocal) :
    p.code ≠ 1019 ∧ p.code ≠ 2001 := by
  cases p with
  | nestingTooDeep limit | unresolved name => exact isLocal.elim
  | _ => simp only [Problem.code]; decide

/-- The problem is one that a policy raises about a node. -/
def Problem.IsRuled : Problem → Prop
  | .methodInBody | .localModifiers .. | .thisInConstructor _ | .bitwiseOr | .bitwiseAnd
  | .bitwiseXor | .bitwiseNot | .bitShift | .notAtLevel .. | .tryCatchOutsideBody
  | .initializerAtClassScope => True
  | _ => False

/-- The problem is one that the walk itself finds: with a name, or with a supertype. -/
def Problem.IsOwn : Problem → Prop
  | .duplicateVariable | .duplicateClass _ | .duplicateParameter | .duplicateField _
  | .constructorName .. | .extendsInterface .. | .implementsClass .. => True
  | _ => False

theorem Problem.IsRuled.isLocal {p : Problem} (isRuled : p.IsRuled) : p.IsLocal := by
  cases p <;> trivial

theorem Problem.IsOwn.isLocal {p : Problem} (isOwn : p.IsOwn) : p.IsLocal := by
  cases p <;> trivial

/-- The code is that of a problem that a policy raises. -/
def isRuledCode (code : UInt32) : Bool :=
  decide (1001 ≤ code) && decide (code ≤ 1012) && code != 1003

/-- The record is of a problem that a policy raises. -/
def Diagnostic.isRuled (d : Diagnostic) : Bool := isRuledCode d.code

theorem Problem.IsRuled.code {p : Problem} (isRuled : p.IsRuled) : isRuledCode p.code = true := by
  cases p with
  | duplicateVariable | duplicateClass | duplicateParameter | duplicateField | constructorName
  | extendsInterface | implementsClass | nestingTooDeep | unresolved => exact isRuled.elim
  | _ => rfl

theorem Problem.IsOwn.code {p : Problem} (isOwn : p.IsOwn) : isRuledCode p.code = false := by
  cases p with
  | duplicateVariable | duplicateClass | duplicateParameter | duplicateField | constructorName
  | extendsInterface | implementsClass => rfl
  | _ => exact isOwn.elim

/-! ## Single rules -/

namespace RuleEntry

/-- What a rule of a level decides about a node. -/
inductive Decides (e : RuleEntry) (l : Level) (offer : Offer) : Prop where
  | forwards (rules : e.rule offer = .forward)
  | objects {p : Problem} (isRuled : p.IsRuled)
      (rules : e.rule offer = { Ruling.forward with raised := [p] })
  | prunes {p : Problem} (isRuled : p.IsRuled) (rules : e.rule offer = .prune p)
  /-- A declaration of local variables is accepted, whether its modifiers are reported or not. -/
  | acceptsLocals {modifiers : List Modifier} {declarators : List NodeIndex}
      (level : l = .intermediate)
      (data : offer.node.data = .variableDeclaration modifiers declarators)
      (rules : e.rule offer =
        { step := .accept
          raised := if modifiers.isEmpty then [] else [.localModifiers modifiers offer.level]
          forceFinal := true })
  | acceptsTry (level : l = .intermediate) (kind : e.kind = .tryCatch)
      (rules : e.rule offer = .accept)

theorem decides_pruneFor {e : RuleEntry} {l : Level} {offer : Offer} {problem? : Option Problem}
    (areRuled : ∀ p ∈ problem?, p.IsRuled) (rules : e.rule offer = Rule.pruneFor problem?) :
    e.Decides l offer := by
  cases problem? with
  | none => exact .forwards rules
  | some p => exact .prunes (areRuled p rfl) rules

end RuleEntry

theorem Rule.bitwiseProblem_isRuled (op : BinaryOp) : ∀ p ∈ Rule.bitwiseProblem? op, p.IsRuled := by
  intro p member
  cases op <;> cases member <;> trivial

section Entries

variable (scope : ScopeKind) (kind : Kind) (l : Level) (offer : Offer)

theorem Rule.noBitwiseBinary_decides :
    RuleEntry.Decides ⟨scope, kind, Rule.noBitwiseBinary⟩ l offer := by
  cases data : offer.node.data with
  | binary op left right =>
    have areRuled := Rule.bitwiseProblem_isRuled op
    exact RuleEntry.decides_pruneFor areRuled (by simp only [Rule.noBitwiseBinary, data])
  | _ => exact .forwards (by simp only [Rule.noBitwiseBinary, data])

theorem Rule.noBitwiseNot_decides : RuleEntry.Decides ⟨scope, kind, Rule.noBitwiseNot⟩ l offer := by
  cases data : offer.node.data with
  | unary op operand =>
    cases op with
    | bitNot => exact .prunes (p := .bitwiseNot) trivial (by simp only [Rule.noBitwiseNot, data])
    | _ => exact .forwards (by simp only [Rule.noBitwiseNot, data])
  | _ => exact .forwards (by simp only [Rule.noBitwiseNot, data])

theorem Rule.noBitwiseAssignment_decides :
    RuleEntry.Decides ⟨scope, kind, Rule.noBitwiseAssignment⟩ l offer := by
  cases data : offer.node.data with
  | assignment op target value =>
    -- an assignment is judged by the operator that it applies, if it applies one
    have areRuled : ∀ p ∈ (Rule.appliedOp? op).bind Rule.bitwiseProblem?, p.IsRuled := by
      intro p raised
      obtain ⟨op, _, raised⟩ := Option.bind_eq_some_iff.1 raised
      exact Rule.bitwiseProblem_isRuled op p raised
    exact RuleEntry.decides_pruneFor areRuled (by simp only [Rule.noBitwiseAssignment, data])
  | _ => exact .forwards (by simp only [Rule.noBitwiseAssignment, data])

theorem Rule.onlyFinalOnLocals_decides :
    RuleEntry.Decides ⟨scope, kind, Rule.onlyFinalOnLocals⟩ l offer := by
  cases data : offer.node.data with
  | variableDeclaration modifiers declarators =>
    cases others : modifiers.filter (· != .final) with
    | nil => exact .forwards (by simp only [Rule.onlyFinalOnLocals, data, others])
    | cons m rest =>
      exact .objects (p := .localModifiers (m :: rest) offer.level) trivial
        (by simp only [Rule.onlyFinalOnLocals, data, others])
  | _ => exact .forwards (by simp only [Rule.onlyFinalOnLocals, data])

/-- The rule may accept, so that its level is said. -/
theorem Rule.noModifiersOnLocals_decides :
    RuleEntry.Decides ⟨scope, kind, Rule.noModifiersOnLocals⟩ .intermediate offer := by
  cases data : offer.node.data with
  | variableDeclaration modifiers declarators =>
    exact .acceptsLocals rfl data (by simp only [Rule.noModifiersOnLocals, data])
  | _ => exact .forwards (by simp only [Rule.noModifiersOnLocals, data])

theorem Rule.noThisInConstructor_decides :
    RuleEntry.Decides ⟨scope, kind, Rule.noThisInConstructor⟩ l offer := by
  cases inside : offer.inConstructor with
  | true =>
    exact .objects (p := .thisInConstructor offer.level) trivial
      (by simp only [Rule.noThisInConstructor, inside, if_pos])
  | false =>
    exact .forwards (by
      simp only [Rule.noThisInConstructor, inside, Bool.false_eq_true, if_false])

end Entries

/-- Every rule of a level decides in one of these ways. -/
theorem Level.rules_decide {l : Level} {e : RuleEntry} (entered : e ∈ l.rules) (offer : Offer) :
    e.Decides l offer := by
  cases l with
  | full =>
    obtain rfl := List.mem_singleton.1 entered
    exact .prunes (p := .methodInBody) trivial rfl
  | advanced =>
    simp only [Level.rules, List.mem_cons, List.not_mem_nil, or_false] at entered
    obtain rfl | rfl | rfl | rfl | rfl := entered
    · exact Rule.noBitwiseBinary_decides ..
    · exact Rule.noBitwiseNot_decides ..
    · exact Rule.noBitwiseAssignment_decides ..
    · exact Rule.onlyFinalOnLocals_decides ..
    · exact .prunes (p := .initializerAtClassScope) trivial rfl
  | intermediate =>
    simp only [Level.rules, List.mem_cons, List.not_mem_nil, or_false] at entered
    obtain rfl | rfl | rfl | rfl := entered
    · exact Rule.noModifiersOnLocals_decides ..
    · exact Rule.noThisInConstructor_decides ..
    · exact .acceptsTry rfl rfl rfl
    · exact .prunes (p := .tryCatchOutsideBody) trivial rfl
  | elementary =>
    simp only [Level.rules, List.mem_cons, List.not_mem_nil, or_false] at entered
    obtain rfl | rfl | rfl := entered
    · exact .prunes (p := .notAtLevel .interfaces offer.level) trivial rfl
    · exact .prunes (p := .notAtLevel .tryCatch offer.level) trivial rfl
    · exact .prunes (p := .notAtLevel .anonymousClasses offer.level) trivial rfl

namespace RuleEntry.Decides

variable {e : RuleEntry} {l : Level} {offer : Offer} (decides : e.Decides l offer)
include decides

theorem raised_isRuled : ∀ p ∈ (e.rule offer).raised, p.IsRuled := by
  intro p raised
  cases decides with
  | forwards rules => rw [rules] at raised; cases raised
  | objects isRuled rules | prunes isRuled rules =>
    rw [rules] at raised
    obtain rfl := List.mem_singleton.1 raised
    exact isRuled
  | acceptsLocals level data rules =>
    simp only [rules] at raised
    split at raised
    · cases raised
    · obtain rfl := List.mem_singleton.1 raised
      trivial
  | acceptsTry level kind rules => rw [rules] at raised; cases raised

/-- No rule prunes a node without a reason. -/
theorem raised_ne_nil (pruned : (e.rule offer).step = .prune) : (e.rule offer).raised ≠ [] := by
  cases decides with
  | forwards rules | objects _ rules | acceptsLocals _ _ rules | acceptsTry _ _ rules =>
    rw [rules] at pruned
    cases pruned
  | prunes isRuled rules =>
    rw [rules]
    exact List.cons_ne_nil _ _

end RuleEntry.Decides

/-! ## Single tables -/

namespace Level

theorem ruleFor_mem {l : Level} {scope : ScopeKind} {kind : Kind} {rule : Rule}
    (found : l.ruleFor? scope kind = some rule) :
    ∃ e ∈ l.rules, e.kind = kind ∧ e.rule = rule := by
  have enters {wanted : ScopeKind}
      (found : (l.rules.find? fun e => e.kind == kind && e.scope == wanted).map (·.rule) = some rule) :
      ∃ e ∈ l.rules, e.kind = kind ∧ e.rule = rule := by
    obtain ⟨e, entered, is⟩ := Option.map_eq_some_iff.1 found
    have fits := List.find?_some entered
    rw [Bool.and_eq_true, beq_iff_eq] at fits
    exact ⟨e, List.mem_of_find?_eq_some entered, fits.1, is⟩
  -- the rule was entered for the very scope, or else for any
  simp only [ruleFor?] at found
  split at found
  · next same =>
    cases found
    exact enters same
  · exact enters found

/-- The level's own table raises nothing about a node. -/
def Tolerates (l : Level) (offer : Offer) : Prop :=
  ∀ rule ∈ l.ruleFor? offer.scope offer.node.kind, (rule offer).raised = []

/-- A table tolerates a node if none of its rules for that kind of node raises anything. -/
theorem tolerates_of_entries {l : Level} {offer : Offer}
    (entries : ∀ e ∈ l.rules, e.kind = offer.node.kind → (e.rule offer).raised = []) :
    l.Tolerates offer := by
  intro rule found
  obtain ⟨e, entered, kind, rfl⟩ := ruleFor_mem found
  exact entries e entered kind

/-- A declaration of local variables without modifiers is tolerated above the level that wants it
so. -/
theorem tolerates_plainLocals {l : Level} (above : Level.intermediate.rank < l.rank) {offer : Offer}
    {declarators : List NodeIndex} (data : offer.node.data = .variableDeclaration [] declarators) :
    l.Tolerates offer := by
  have kind : offer.node.kind = .variableDeclaration := by rw [Node.kind, data]; rfl
  refine tolerates_of_entries fun e entered fits => ?_
  rw [kind] at fits
  cases l with
  | elementary | intermediate => simp only [rank] at above; omega
  | advanced =>
    -- only one rule is entered for declarations, and it looks for other modifiers
    simp only [rules, List.mem_cons, List.not_mem_nil, or_false] at entered
    obtain rfl | rfl | rfl | rfl | rfl := entered
    case inr.inr.inr.inl => simp only [Rule.onlyFinalOnLocals, data, List.filter_nil]; rfl
    all_goals cases fits
  | full =>
    obtain rfl := List.mem_singleton.1 entered
    cases fits

/-- Catching exceptions is tolerated above the level that restricts it to bodies. -/
theorem tolerates_tryCatch {l : Level} (above : Level.intermediate.rank < l.rank) {offer : Offer}
    (kind : offer.node.kind = .tryCatch) : l.Tolerates offer := by
  refine tolerates_of_entries fun e entered fits => ?_
  rw [kind] at fits
  cases l with
  | elementary | intermediate => simp only [rank] at above; omega
  | advanced =>
    simp only [rules, List.mem_cons, List.not_mem_nil, or_false] at entered
    obtain rfl | rfl | rfl | rfl | rfl := entered <;> cases fits
  | full =>
    obtain rfl := List.mem_singleton.1 entered
    cases fits

/-- What a table accepts without an objection, no table above it objects to. -/
theorem tolerates_of_accepts {l above : Level} (lt : l.rank < above.rank) {offer : Offer}
    {e : RuleEntry} (entered : e ∈ l.rules) (fits : e.kind = offer.node.kind)
    (accepts : (e.rule offer).step = .accept) (raised : (e.rule offer).raised = []) :
    above.Tolerates offer := by
  cases rules_decide entered offer with
  | forwards rules | objects _ rules | prunes _ rules => rw [rules] at accepts; cases accepts
  | @acceptsLocals modifiers declarators level data rules =>
    subst level
    cases modifiers with
    | nil => exact tolerates_plainLocals lt data
    | cons m rest =>
      -- modifiers are accepted, but not without an objection
      rw [rules] at raised
      cases raised
  | acceptsTry level kind rules =>
    subst level
    exact tolerates_tryCatch lt (fits.symm.trans kind)

/-- Which level a message would name makes no difference to whether a rule raises anything. -/
theorem raised_relevel {l : Level} {e : RuleEntry} (entered : e ∈ l.rules) {offer : Offer}
    (named : Level) (raised : (e.rule offer).raised = []) :
    (e.rule { offer with level := named }).raised = [] := by
  cases l with
  | full =>
    obtain rfl := List.mem_singleton.1 entered
    exact raised
  | advanced =>
    simp only [rules, List.mem_cons, List.not_mem_nil, or_false] at entered
    obtain rfl | rfl | rfl | rfl | rfl := entered
    case inr.inr.inr.inl =>
      simp only [Rule.onlyFinalOnLocals] at raised ⊢
      split at raised
      · split at raised
        · rfl
        · cases raised
      · rfl
    all_goals exact raised
  | intermediate =>
    simp only [rules, List.mem_cons, List.not_mem_nil, or_false] at entered
    obtain rfl | rfl | rfl | rfl := entered
    · simp only [Rule.noModifiersOnLocals] at raised ⊢
      split at raised
      · split at raised
        · next plain => simp only [plain, if_true]
        · cases raised
      · rfl
    · simp only [Rule.noThisInConstructor] at raised ⊢
      split at raised
      · cases raised
      · next outside => rw [if_neg outside]; rfl
    · exact raised
    · exact raised
  | elementary =>
    simp only [rules, List.mem_cons, List.not_mem_nil, or_false] at entered
    obtain rfl | rfl | rfl := entered <;> cases raised

theorem Tolerates.relevel {l : Level} {offer : Offer} (tolerates : l.Tolerates offer)
    (named : Level) : l.Tolerates { offer with level := named } := by
  intro rule found
  have raised := tolerates rule found
  obtain ⟨e, entered, -, rfl⟩ := ruleFor_mem found
  exact raised_relevel entered named raised

end Level

/-! ## Policies -/

namespace Policy

variable (levels : List Level) (offer : Offer)

theorem raised_isRuled : ∀ p ∈ (rulingOf levels offer).raised, p.IsRuled := by
  induction levels with
  | nil => intro p member; cases member
  | cons l rest ih =>
    rw [rulingOf]
    cases found : l.ruleFor? offer.scope offer.node.kind with
    | none => exact ih
    | some rule =>
      obtain ⟨e, entered, -, rfl⟩ := Level.ruleFor_mem found
      have own := (Level.rules_decide entered offer).raised_isRuled
      simp only
      -- the tables after this one are asked only if its rule leaves the node to them
      split
      · intro p member
        rcases List.mem_append.1 member with here | later
        · exact own p here
        · exact ih p later
      · exact own

/-- No policy prunes a node without a reason. -/
theorem raised_ne_nil (pruned : (rulingOf levels offer).step = .prune) :
    (rulingOf levels offer).raised ≠ [] := by
  induction levels with
  | nil => cases pruned
  | cons l rest ih =>
    rw [rulingOf] at pruned ⊢
    cases found : l.ruleFor? offer.scope offer.node.kind with
    | none =>
      simp only [found] at pruned
      exact ih pruned
    | some rule =>
      obtain ⟨e, entered, -, rfl⟩ := Level.ruleFor_mem found
      have own := (Level.rules_decide entered offer).raised_ne_nil
      simp only [found] at pruned ⊢
      split at pruned
      · rw [Ruling.andThen]
        exact List.append_ne_nil_of_right_ne_nil _ (ih pruned)
      · exact own pruned

/-- A row of levels, from restricted to permissive, raises nothing about a node exactly if none of
their tables does. -/
theorem raised_eq_nil_iff {levels : List Level} (inOrder : levels.Pairwise (·.rank < ·.rank))
    (offer : Offer) :
    (rulingOf levels offer).raised = [] ↔ ∀ l ∈ levels, l.Tolerates offer := by
  induction inOrder with
  | nil => simp [rulingOf, Ruling.accept]
  | @cons l rest above _ ih =>
    rw [List.forall_mem_cons, rulingOf]
    cases found : l.ruleFor? offer.scope offer.node.kind with
    | none => simpa [Level.Tolerates, found] using ih
    | some rule =>
      have own : l.Tolerates offer ↔ (rule offer).raised = [] := by simp [Level.Tolerates, found]
      obtain ⟨e, entered, fits, rfl⟩ := Level.ruleFor_mem found
      rw [own]
      simp only
      split
      · -- the rule leaves the node to the others
        rw [Ruling.andThen, List.append_eq_nil_iff, ih]
      · -- the rule accepts or prunes, and the others are not asked
        next decides =>
        constructor
        · intro clean
          refine ⟨clean, fun other member => ?_⟩
          cases step : (e.rule offer).step with
          | forward => exact (decides step).elim
          | accept => exact Level.tolerates_of_accepts (above other member) entered fits step clean
          | prune => exact ((Level.rules_decide entered offer).raised_ne_nil step clean).elim
        · exact And.left

end Policy

namespace Level

theorem andAbove_inOrder (l : Level) : l.andAbove.Pairwise (·.rank < ·.rank) := by
  cases l <;> decide

theorem andAbove_subset {strict lenient : Level} (le : strict.rank ≤ lenient.rank) :
    lenient.andAbove ⊆ strict.andAbove :=
  List.drop_subset_drop_left _ le

end Level

/-- Where the policy of a level raises nothing, that of a more permissive one does not either,
whichever level its messages would name. -/
theorem Policy.ruling_mono {strict lenient : Level} (le : strict.rank ≤ lenient.rank)
    {offer : Offer} (named : Level) (clean : (ruling strict offer).raised = []) :
    (ruling lenient { offer with level := named }).raised = [] := by
  have tolerated := (raised_eq_nil_iff strict.andAbove_inOrder offer).1 clean
  refine (raised_eq_nil_iff lenient.andAbove_inOrder _).2 fun l member => ?_
  exact (tolerated l (Level.andAbove_subset le member)).relevel named

end LevelCheck
