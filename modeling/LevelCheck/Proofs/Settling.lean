import LevelCheck.Proofs.Growth
set_option autoImplicit false

/-! # Settling a run

At the end of a run, what waits is resumed pass after pass until a pass finds nothing. Linking a
reference completes no class, so what a reference denotes is the same in every pass: the first pass
finds everything that can be found, and a second one tells that nothing is left. Settling therefore
comes to one walk over the waiting references that denote a visited class, and one over the
others. -/

namespace LevelCheck

namespace Pending

/-- The waiting references that denote a visited class, each with that class. -/
def ready (p : Pending) (t : SymbolTable) : List (PendingReference × SymbolId) :=
  p.all.filterMap fun r => (r.target? t).map fun id => (r, id)

/-- The waiting references that denote no visited class. -/
def stuck (p : Pending) (t : SymbolTable) : List PendingReference :=
  p.all.filter fun r => (r.target? t).isNone

/-- A reference denotes a class of the table, one of its names. -/
theorem target_some {r : PendingReference} {t : SymbolTable} {id : SymbolId}
    (found : r.target? t = some id) :
    id.val < t.size ∧ (t.symbol id).isComplete ∧ (t.symbol id).name ∈ r.name :: r.alternatives := by
  rw [PendingReference.target?] at found
  obtain ⟨name, isName, found⟩ := List.exists_of_findSome?_eq_some found
  obtain ⟨denoted, complete⟩ := Option.filter_eq_some_iff.1 found
  obtain ⟨known, named⟩ := SymbolTable.lookup_eq_some denoted
  rw [named]
  exact ⟨known, complete, isName⟩

theorem ready_known {p : Pending} {t : SymbolTable} {e : PendingReference × SymbolId}
    (ready : e ∈ p.ready t) : e.2.val < t.size := by
  obtain ⟨r, _, is⟩ := List.mem_filterMap.1 ready
  obtain ⟨id, found, rfl⟩ := Option.map_eq_some_iff.1 is
  exact (target_some found).1

theorem takeReady_fst (p : Pending) (t : SymbolTable) : (p.takeReady t).1 = p.ready t := rfl

theorem takeReady_all (p : Pending) (t : SymbolTable) : (p.takeReady t).2.all = p.stuck t := by
  obtain ⟨groups⟩ := p
  simp only [takeReady, stuck, all]
  induction groups with
  | nil => rfl
  | cons group rest ih =>
    rw [List.map_cons, List.flatMap_cons, List.filter_append, ← ih, List.filter_cons]
    -- a group that nothing is left of is dropped
    cases left : group.2.filter fun r => (r.target? t).isNone with
    | nil => simp
    | cons r others => simp

theorem ready_eq_nil {p : Pending} {t : SymbolTable} (none : ∀ r ∈ p.all, r.target? t = none) :
    p.ready t = [] := by
  rw [ready, List.filterMap_eq_nil_iff]
  intro r waits
  rw [none r waits, Option.map_none]

theorem stuck_eq_all {p : Pending} {t : SymbolTable} (none : ∀ r ∈ p.all, r.target? t = none) :
    p.stuck t = p.all := by
  rw [stuck, List.filter_eq_self]
  intro r waits
  rw [none r waits, Option.isNone_none]

/-- Whether a reference denotes a visited class depends on which names do. -/
theorem target_isSome_congr {t u : SymbolTable}
    (same : ∀ name, (u.lookupComplete? name).isSome = (t.lookupComplete? name).isSome)
    (r : PendingReference) : (r.target? u).isSome = (r.target? t).isSome := by
  simp only [PendingReference.target?, List.isSome_findSome?, same]

section

variable {σ : Type} {table : σ → SymbolTable} {resume : PendingReference → SymbolId → σ → σ}
  (keeps : ∀ r target s name, ((table (resume r target s)).lookupComplete? name).isSome
    = ((table s).lookupComplete? name).isSome)
include keeps

/-- If resuming a reference changes nothing about which names denote visited classes, then two passes
do. -/
theorem settleWithin_eq (passes : Nat) (p : Pending) (s : σ) :
    settleWithin table resume (passes + 2) p s
      = (p.stuck (table s), (p.ready (table s)).foldl (fun s e => resume e.1 e.2 s) s) := by
  -- whether a reference denotes a class is the same after a whole pass
  have keepsAll (ready : List (PendingReference × SymbolId)) (s : σ) (other : PendingReference) :
      (other.target? (table (ready.foldl (fun s e => resume e.1 e.2 s) s))).isSome
        = (other.target? (table s)).isSome := by
    induction ready generalizing s with
    | nil => rfl
    | cons e rest ih => rw [List.foldl_cons, ih, target_isSome_congr (keeps e.1 e.2 s)]
  have found := p.takeReady_fst (table s)
  have left := p.takeReady_all (table s)
  rw [settleWithin]
  generalize p.takeReady (table s) = entry at *
  obtain ⟨ready, rest⟩ := entry
  simp only at found left
  rw [← found, ← left]
  cases ready with
  | nil => rfl
  | cons e more =>
    generalize after : (e :: more).foldl (fun s e => resume e.1 e.2 s) s = s'
    -- what the first pass leaves denotes nothing in the second
    have none : ∀ r ∈ rest.all, r.target? (table s') = none := by
      intro r waits
      rw [left, stuck, List.mem_filter, ← Option.not_isSome] at waits
      have same := keepsAll (e :: more) s r
      rw [after] at same
      rw [← Option.not_isSome_iff_eq_none, same]
      simpa using waits.2
    have found := rest.takeReady_fst (table s')
    have left := rest.takeReady_all (table s')
    rw [ready_eq_nil none] at found
    rw [stuck_eq_all none] at left
    simp only
    rw [after, settleWithin]
    generalize rest.takeReady (table s') = entry at *
    obtain ⟨ready, last⟩ := entry
    simp only at found left
    rw [found, ← left]

theorem settle_eq (p : Pending) (s : σ) :
    p.settle table resume s
      = (p.stuck (table s), (p.ready (table s)).foldl (fun s e => resume e.1 e.2 s) s) :=
  settleWithin_eq keeps 254 p s

end

end Pending

/-! ## Settling the state of a run -/

theorem SymbolTable.target_of_roll {t t' : SymbolTable} (same : t'.roll = t.roll)
    (r : PendingReference) : r.target? t' = r.target? t := by
  have complete : t'.lookupComplete? = t.lookupComplete? :=
    funext fun name => lookupComplete_of_roll same name
  rw [PendingReference.target?, PendingReference.target?, complete]

namespace Context

theorem apply_table (cx : Context) (file : FileId) (pos : Position) (link : Link)
    (target : SymbolId) : (cx.apply file pos link target).table = cx.table.fill link target := by
  rw [apply]
  split <;> rfl

theorem resume_table (r : PendingReference) (target : SymbolId) (cx : Context) :
    (resume r target cx).table = cx.table.fill r.link target :=
  apply_table _ _ _ _ _

/-- The waiting references that denote a visited class are linked to it, and then the others are
recorded as unresolved. -/
theorem settle_eq (cx : Context) :
    cx.settle = (cx.pending.stuck cx.table).foldl abandon
      ((cx.pending.ready cx.table).foldl (fun cx e => resume e.1 e.2 cx)
        { cx with pending := .empty }) := by
  have keeps (r : PendingReference) (target : SymbolId) (cx : Context) (name : String) :
      ((resume r target cx).table.lookupComplete? name).isSome
        = (cx.table.lookupComplete? name).isSome := by
    rw [resume_table, SymbolTable.lookupComplete_of_roll (SymbolTable.Quiet.fill _ _ _).roll]
  rw [settle, Pending.settle_eq keeps]

end Context

end LevelCheck
