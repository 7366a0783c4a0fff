import LevelCheck.Proofs.SourceOrder
set_option autoImplicit false

/-! # Objections to references to the object

Of all rules only one objects to a reference to the object, and it does so in constructors. At the two
most restricted levels that rule is asked about every such reference in a body, so the records of a
policy under the code of this problem are known from where the reference is offered. -/

namespace LevelCheck

/-! ## Rules for other nodes -/

namespace Rule

variable {offer : Offer} {p : Problem}

theorem code_of_pruneFor {problem? : Option Problem} (others : ∀ p ∈ problem?, p.code ≠ 1004)
    (raised : p ∈ (pruneFor problem?).raised) : p.code ≠ 1004 := by
  cases problem? with
  | none => cases raised
  | some q =>
    obtain rfl := List.mem_singleton.1 raised
    exact others p rfl

theorem code_of_bitwise (op : BinaryOp) : ∀ p ∈ bitwiseProblem? op, p.code ≠ 1004 := by
  intro p isProblem
  cases op <;> cases isProblem <;> decide

theorem code_of_bitwiseBinary (raised : p ∈ (noBitwiseBinary offer).raised) : p.code ≠ 1004 := by
  rw [noBitwiseBinary] at raised
  split at raised
  · exact code_of_pruneFor (code_of_bitwise _) raised
  · cases raised

theorem code_of_bitwiseNot (raised : p ∈ (noBitwiseNot offer).raised) : p.code ≠ 1004 := by
  rw [noBitwiseNot] at raised
  split at raised
  · obtain rfl := List.mem_singleton.1 raised
    decide
  · cases raised

theorem code_of_bitwiseAssignment (raised : p ∈ (noBitwiseAssignment offer).raised) :
    p.code ≠ 1004 := by
  rw [noBitwiseAssignment] at raised
  split at raised
  · refine code_of_pruneFor (fun q isProblem => ?_) raised
    obtain ⟨op, -, isProblem⟩ := Option.bind_eq_some_iff.1 isProblem
    exact code_of_bitwise op q isProblem
  · cases raised

theorem code_of_onlyFinalOnLocals (raised : p ∈ (onlyFinalOnLocals offer).raised) :
    p.code ≠ 1004 := by
  rw [onlyFinalOnLocals] at raised
  split at raised
  · split at raised
    · cases raised
    · obtain rfl := List.mem_singleton.1 raised
      exact (by decide : (1002 : UInt32) ≠ 1004)
  · cases raised

theorem code_of_noModifiersOnLocals (raised : p ∈ (noModifiersOnLocals offer).raised) :
    p.code ≠ 1004 := by
  rw [noModifiersOnLocals] at raised
  split at raised
  · simp only at raised
    split at raised
    · cases raised
    · obtain rfl := List.mem_singleton.1 raised
      exact (by decide : (1002 : UInt32) ≠ 1004)
  · cases raised

end Rule

/-! ## Tables and chains -/

/-- No rule but the one for references to the object objects to them. -/
theorem Level.kind_of_objection {l : Level} {e : RuleEntry} (entered : e ∈ l.rules) {offer : Offer}
    {p : Problem} (raised : p ∈ (e.rule offer).raised) (isCode : p.code = 1004) :
    e.kind = .thisReference := by
  have pruned {q : Problem} {goal : Prop} (is : e.rule offer = .prune q) (others : q.code ≠ 1004) :
      goal := by
    rw [is] at raised
    obtain rfl := List.mem_singleton.1 raised
    exact absurd isCode others
  cases l with
  | full =>
    obtain rfl := List.mem_singleton.1 entered
    exact pruned rfl (by decide)
  | advanced =>
    simp only [rules, List.mem_cons, List.not_mem_nil, or_false] at entered
    obtain rfl | rfl | rfl | rfl | rfl := entered
    · exact absurd isCode (Rule.code_of_bitwiseBinary raised)
    · exact absurd isCode (Rule.code_of_bitwiseNot raised)
    · exact absurd isCode (Rule.code_of_bitwiseAssignment raised)
    · exact absurd isCode (Rule.code_of_onlyFinalOnLocals raised)
    · exact pruned rfl (by decide)
  | intermediate =>
    simp only [rules, List.mem_cons, List.not_mem_nil, or_false] at entered
    obtain rfl | rfl | rfl | rfl := entered
    · exact absurd isCode (Rule.code_of_noModifiersOnLocals raised)
    · rfl
    · cases raised
    · exact pruned rfl (by decide)
  | elementary =>
    simp only [rules, List.mem_cons, List.not_mem_nil, or_false] at entered
    obtain rfl | rfl | rfl := entered
    all_goals exact pruned rfl (by exact (by decide : (1010 : UInt32) ≠ 1004))

namespace Policy

theorem kind_of_objection {levels : List Level} {offer : Offer} {p : Problem}
    (raised : p ∈ (rulingOf levels offer).raised) (isCode : p.code = 1004) :
    offer.node.kind = .thisReference := by
  induction levels with
  | nil => cases raised
  | cons l rest ih =>
    rw [rulingOf] at raised
    split at raised
    · exact ih raised
    · next rule found =>
      obtain ⟨e, entered, kind, rfl⟩ := Level.ruleFor_mem found
      simp only at raised
      have own (raised : p ∈ (e.rule offer).raised) : offer.node.kind = .thisReference :=
        kind.symm.trans (Level.kind_of_objection entered raised isCode)
      split at raised
      · exact (List.mem_append.1 raised).elim own ih
      · exact own raised

/-- At the two most restricted levels a policy objects to a reference to the object if it is offered in
the body of a constructor, and to nothing else under the code. -/
theorem objections {l : Level} (low : l = .elementary ∨ l = .intermediate) (offer : Offer)
    (name : String) (pos : Position) :
    ((ruling l offer).records name pos).filter (·.code == 1004)
      = if offer.node.kind = .thisReference ∧ offer.scope = .body ∧ offer.inConstructor = true
        then [.ofProblem name pos (.thisInConstructor offer.level)] else [] := by
  by_cases isObject : offer.node.kind = .thisReference
  · obtain ⟨⟨place, data⟩, scope, level, inConstructor⟩ := offer
    cases data with
    | thisReference qualifier =>
      rcases low with rfl | rfl <;> cases scope <;> cases inConstructor <;> rfl
    | _ => cases isObject
  · rw [if_neg fun is => isObject is.1, List.filter_eq_nil_iff]
    intro d isRecord isCode
    have raised : ∃ p ∈ (ruling l offer).raised, p.code = d.code := by
      unfold Ruling.records at isRecord
      split at isRecord
      · next first rest _ raised =>
        rw [raised]
        rcases List.mem_cons.1 isRecord with rfl | later
        · exact ⟨first, List.mem_cons_self, rfl⟩
        · obtain ⟨p, isIn, rfl⟩ := List.mem_map.1 later
          exact ⟨p, List.mem_cons_of_mem _ isIn, rfl⟩
      · obtain ⟨p, isIn, rfl⟩ := List.mem_map.1 isRecord
        exact ⟨p, isIn, rfl⟩
    obtain ⟨p, raised, is⟩ := raised
    exact isObject (kind_of_objection raised (is.trans (beq_iff_eq.1 isCode)))

end Policy

end LevelCheck
