import LevelCheck.Proofs.References
set_option autoImplicit false

/-! # What settling hands out

Each reference that waits at the end of a run is handed out once, to be resumed or to be returned as
unresolved. Which of the two it is, and with which class it is resumed, is decided by the table that
settling begins with: a callback that changes nothing about which names denote visited classes
cannot change it. -/

namespace LevelCheck

/-- The class that a waiting reference is resumed with: the visited class of its own name, or else
that of the first of its alternatives that has one. -/
inductive PendingReference.Selects (r : PendingReference) (t : SymbolTable) : SymbolId → Prop where
  | own {id : SymbolId} (visited : t.lookupComplete? r.name = some id) : r.Selects t id
  | alternative {id : SymbolId} {before : List String} {name : String} {after : List String}
      (ownNone : t.lookupComplete? r.name = none)
      (split : r.alternatives = before ++ name :: after)
      (earlierNone : ∀ other ∈ before, t.lookupComplete? other = none)
      (visited : t.lookupComplete? name = some id) : r.Selects t id

namespace PendingReference

variable {r : PendingReference} {t : SymbolTable}

theorem target_eq_some_iff {id : SymbolId} : r.target? t = some id ↔ r.Selects t id := by
  rw [target?, List.findSome?_cons]
  constructor
  · intro found
    cases own : t.lookupComplete? r.name with
    | some first =>
      rw [own] at found
      exact .own (own.trans found)
    | none =>
      rw [own] at found
      obtain ⟨before, name, after, split, visited, earlier⟩ := List.findSome?_eq_some_iff.1 found
      exact .alternative own split earlier visited
  · rintro (visited | ⟨ownNone, split, earlierNone, visited⟩)
    · rw [visited]
    · rw [ownNone]
      exact List.findSome?_eq_some_iff.2 ⟨_, _, _, split, visited, earlierNone⟩

theorem target_eq_none_iff : r.target? t = none
    ↔ t.lookupComplete? r.name = none ∧ ∀ name ∈ r.alternatives, t.lookupComplete? name = none := by
  rw [target?, List.findSome?_eq_none_iff, List.forall_mem_cons]

end PendingReference

namespace Pending

/-- The waiting references have been handed out, some to be resumed and the others as unresolved. -/
structure HandsOut (p : Pending) (t : SymbolTable) (resumed : List (PendingReference × SymbolId))
    (returned : List PendingReference) : Prop where
  /-- Each is handed out once, as often as it waits. -/
  once : (resumed.map (·.1) ++ returned).Perm p.all
  /-- What is resumed is resumed with the class that its names select. -/
  selects : ∀ e ∈ resumed, e.1.Selects t e.2
  /-- What is returned are the references none of whose names denotes a visited class. -/
  returns : ∀ r ∈ p.all, r ∈ returned ↔ t.lookupComplete? r.name = none
    ∧ ∀ name ∈ r.alternatives, t.lookupComplete? name = none
  count : resumed.length + returned.length = p.count

theorem mem_ready {p : Pending} {t : SymbolTable} {e : PendingReference × SymbolId} :
    e ∈ p.ready t ↔ e.1 ∈ p.all ∧ e.1.target? t = some e.2 := by
  rw [ready, List.mem_filterMap]
  constructor
  · rintro ⟨r, waits, is⟩
    obtain ⟨id, found, rfl⟩ := Option.map_eq_some_iff.1 is
    exact ⟨waits, found⟩
  · rintro ⟨waits, found⟩
    exact ⟨e.1, waits, by rw [found, Option.map_some]⟩

/-- Those that denote a visited class and those that denote none are together those that wait. -/
theorem handsOut (p : Pending) (t : SymbolTable) : p.HandsOut t (p.ready t) (p.stuck t) := by
  have once : ((p.ready t).map (·.1) ++ p.stuck t).Perm p.all := by
    have others : p.stuck t = p.all.filter fun r => !(r.target? t).isSome := by
      simp only [stuck, Option.not_isSome]
    rw [Context.ready_map_fst, others]
    exact List.filter_append_perm _ _
  refine ⟨once, fun e isReady => ?_, fun r waits => ?_, ?_⟩
  · exact PendingReference.target_eq_some_iff.1 (mem_ready.1 isReady).2
  · rw [stuck, List.mem_filter, and_iff_right waits, Option.isNone_iff_eq_none,
      PendingReference.target_eq_none_iff]
  · rw [count, ← once.length_eq, List.length_append, List.length_map]

end Pending

namespace Context

theorem settle_of_nothing_pending {cx : Context} (nothing : cx.pending = .empty) :
    cx.settle = cx := by
  rw [settle_eq, nothing]
  have same : { cx with pending := .empty } = cx := by rw [← nothing]
  exact same

/-- Settling hands out what waits to a callback that keeps which names denote visited classes. A run
is settled this way by linking and then abandoning references; nothing waits afterwards, and
settling it again changes nothing. -/
theorem settle_handsOut :
    (∀ {σ : Type} (table : σ → SymbolTable) (resume : PendingReference → SymbolId → σ → σ),
      (∀ r target s name, ((table (resume r target s)).lookupComplete? name).isSome
        = ((table s).lookupComplete? name).isSome) →
      ∀ (p : Pending) (s : σ), ∃ resumed returned, p.HandsOut (table s) resumed returned
        ∧ p.settle table resume s
          = (returned, resumed.foldl (fun s e => resume e.1 e.2 s) s))
    ∧ ∀ cx : Context,
      (∃ resumed returned, cx.pending.HandsOut cx.table resumed returned
        ∧ cx.settle = returned.foldl abandon
          (resumed.foldl (fun cx e => resume e.1 e.2 cx) { cx with pending := .empty }))
      ∧ cx.settle.pending = .empty ∧ cx.settle.settle = cx.settle := by
  refine ⟨fun table resume keeps p s => ?_, fun cx => ⟨?_, ?_, ?_⟩⟩
  · exact ⟨_, _, p.handsOut (table s), p.settle_eq keeps s⟩
  · exact ⟨_, _, cx.pending.handsOut cx.table, cx.settle_eq⟩
  · exact cx.settle_settles.pending
  · exact settle_of_nothing_pending cx.settle_settles.pending

/-- Two references to builtin classes, one of them by its second name, and one to no class. -/
def waitingThree : Pending where
  groups := [
    ("q.String",
      [⟨"q.String", ["q.Text", "java.lang.String", "java.lang.Math"], ⟨1, 1⟩, ⟨0⟩, .existence⟩]),
    ("java.lang.Object", [⟨"java.lang.Object", [], ⟨2, 1⟩, ⟨0⟩, .existence⟩]),
    ("q.Text", [⟨"q.Text", ["Text"], ⟨3, 1⟩, ⟨0⟩, .existence⟩])]

/-- A callback that fills the place of a reference and notes with which class. -/
def fillAndNote (r : PendingReference) (target : SymbolId)
    (s : SymbolTable × List (String × SymbolId)) : SymbolTable × List (String × SymbolId) :=
  (s.1.fill r.link target, s.2 ++ [(r.name, target)])

theorem settle_handsOut_fillAndNote :
    (∀ r target (s : SymbolTable × List (String × SymbolId)) name,
      ((fillAndNote r target s).1.lookupComplete? name).isSome = (s.1.lookupComplete? name).isSome)
    ∧ (∃ resumed returned, waitingThree.HandsOut .seeded resumed returned
      ∧ waitingThree.settle (·.1) fillAndNote (.seeded, [])
        = (returned, resumed.foldl (fun s e => fillAndNote e.1 e.2 s) (.seeded, [])))
    ∧ (waitingThree.settle (·.1) fillAndNote (.seeded, [])).1.map (·.name) = ["q.Text"]
    ∧ (waitingThree.settle (·.1) fillAndNote (.seeded, [])).2.2
      = [("q.String", ⟨10⟩), ("java.lang.Object", ⟨9⟩)] := by
  have keeps : ∀ r target (s : SymbolTable × List (String × SymbolId)) name,
      ((fillAndNote r target s).1.lookupComplete? name).isSome
        = (s.1.lookupComplete? name).isSome := by
    intro r target s name
    rw [fillAndNote, SymbolTable.lookupComplete_of_roll (SymbolTable.Quiet.fill _ _ _).roll]
  exact ⟨keeps, settle_handsOut.1 (·.1) fillAndNote keeps waitingThree (.seeded, []),
    by decide +kernel, by decide +kernel⟩

end Context

end LevelCheck
