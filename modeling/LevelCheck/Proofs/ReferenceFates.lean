import LevelCheck.Proofs.Landings
set_option autoImplicit false

/-! # The fate of each type that is used

At each use of a type that refers to a class, a run meets one reference, with the names that the type
may denote just then. By the end of the run this reference has had one of three fates: it was linked as
soon as it was met, it waited and was linked once, or it waited and was recorded as unresolved. Which of
them, is a matter of whether a class of one of the names has been visited by then. -/

namespace LevelCheck

namespace Context

/-- What becomes of a reference that the run has met by the event. -/
inductive Ends (cx : Context) (r : Reference) : Event → Prop where
  | linked {target : SymbolId} (isClass : cx.IsClassOf target r.candidates)
      (resolves : cx.resolves r = true) : Ends cx r (.linked r target)
  /-- The reference has been linked as often as it began to wait, and has never been given up. -/
  | resumed (resolves : cx.resolves r = true)
      (once : (cx.resumedRefs.map (·.1)).count r.waiting
        = (cx.deferredRefs.map Reference.waiting).count r.waiting)
      (isClass : ∀ target, (r.waiting, target) ∈ cx.resumedRefs → cx.IsClassOf target r.candidates)
      (notAbandoned : r.waiting ∉ cx.abandonedRefs) : Ends cx r (.deferred r)
  /-- The reference has been given up as often as it began to wait, each time with a record for its own
  file and position, and has never been linked. -/
  | abandoned (unresolved : cx.resolves r = false)
      (once : cx.abandonedRefs.count r.waiting
        = (cx.deferredRefs.map Reference.waiting).count r.waiting)
      (recorded : .ofProblem (cx.fileName r.file) r.position (.unresolved r.key)
        ∈ cx.unresolvedRecords)
      (notResumed : r.waiting ∉ cx.resumedRefs.map (·.1)) : Ends cx r (.deferred r)

/-- What is alike is all of a kind or not at all, if likeness tells the kind. -/
theorem count_map_filter {α β : Type} [DecidableEq β] {xs : List α} {keep : α → Bool} {f : α → β} {x : α}
    (told : ∀ y ∈ xs, f y = f x → keep y = keep x) :
    ((xs.filter keep).map f).count (f x) = if keep x then (xs.map f).count (f x) else 0 := by
  simp only [List.count_eq_countP, List.countP_map, List.countP_filter]
  split
  · next kept =>
    refine List.countP_congr fun y isIn => ?_
    simp only [Function.comp_apply, Bool.and_eq_true, beq_iff_eq, and_iff_left_iff_imp]
    exact fun same => (told y isIn same).trans kept
  · next dropped =>
    refine List.countP_eq_zero.2 fun y isIn counted => ?_
    simp only [Function.comp_apply, Bool.and_eq_true, beq_iff_eq] at counted
    exact dropped ((told y isIn counted.1).symm.trans counted.2)

namespace Settled

variable {cx : Context} (settled : cx.Settled)
include settled

/-- Whether a reference is resolved is told by the names that it waits with. -/
theorem resolves_eq {r r' : Reference} (deferred : r ∈ cx.deferredRefs)
    (deferred' : r' ∈ cx.deferredRefs) (same : r'.waiting = r.waiting) :
    cx.resolves r' = cx.resolves r := by
  have names (name : String) : name ∈ r'.candidates ↔ name ∈ r.candidates := by
    rw [← settled.candidates r' deferred' name, same, settled.candidates r deferred name]
  rw [Bool.eq_iff_iff, resolves, resolves, List.any_eq_true, List.any_eq_true]
  exact exists_congr fun name => and_congr_left' (names name)

/-- A reference that began to wait has been linked as often, or given up as often. -/
theorem ends_deferred {r : Reference} (deferred : r ∈ cx.deferredRefs) : cx.Ends r (.deferred r) := by
  have told (r' : Reference) (deferred' : r' ∈ cx.deferredRefs) (same : r'.waiting = r.waiting) :
      cx.resolves r' = cx.resolves r := settled.resolves_eq deferred deferred' same
  have resumed := settled.resumed.count_eq r.waiting
  have abandoned := settled.abandoned.count_eq r.waiting
  rw [count_map_filter told] at resumed
  rw [count_map_filter fun r' deferred' same => congrArg not (told r' deferred' same)] at abandoned
  cases resolves : cx.resolves r with
  | true =>
    rw [if_pos resolves] at resumed
    rw [resolves, if_neg (by decide)] at abandoned
    refine .resumed resolves resumed (fun target isIn => ?_) (List.count_eq_zero.1 abandoned)
    obtain ⟨known, complete, named⟩ := settled.target _ isIn
    exact ⟨known, complete, (settled.candidates r deferred _).1 named⟩
  | false =>
    rw [resolves, if_neg (by decide)] at resumed
    rw [resolves, if_pos (by decide)] at abandoned
    refine .abandoned resolves abandoned ?_ (List.count_eq_zero.1 resumed)
    have isIn : r.waiting ∈ cx.abandonedRefs := by
      rw [← List.count_pos_iff, abandoned]
      exact List.count_pos_iff.2 (List.mem_map_of_mem deferred)
    rw [settled.records]
    exact List.mem_map.2 ⟨r.waiting, isIn, rfl⟩

/-- Whatever reference the run has met has come to an end. -/
theorem ends (unique : cx.table.UniqueNames) {e : Event} (happened : e ∈ cx.history.toList)
    {r : Reference} (met : e.met? = some r) : cx.Ends r e := by
  cases e with
  | linked r' target =>
    obtain rfl := Option.some.inj met
    have isClass := settled.linked _ (List.mem_filterMap.2 ⟨_, happened, rfl⟩)
    exact .linked isClass (List.any_eq_true.2 ⟨_, isClass.2.2, isClass.visits unique⟩)
  | deferred r' =>
    obtain rfl := Option.some.inj met
    exact settled.ends_deferred (List.mem_filterMap.2 ⟨_, happened, rfl⟩)
  | began | resumed | abandoned => cases met

end Settled

/-- The use of a type comes before the end of the batch. -/
theorem Uses.goesOn_ofUnits {units : List SourceUnit} {options : Options} {w : Walk} {u : TypeUse}
    {a : Context} (uses : (start options).Uses (units.map .analyze) w u a) :
    w.file.val < a.files.size ∧ (w.linkUse u a).GoesOn (ofUnits units options) := by
  obtain ⟨inFile, -, after⟩ := uses.goesOn (lifecycle_start options)
  rw [← analyzeFiles_eq_performAll] at after
  exact ⟨inFile, after.trans (.perform _ .settle)⟩

/-- Whatever reference has been met in a batch, is one of a type that was used just then. -/
theorem ofUnits_met {units : List SourceUnit} {options : Options} (before after : List Event)
    {e : Event} (is : (ofUnits units options).history.toList = before ++ e :: after) {r : Reference}
    (met : e.met? = some r) : ∃ w u a, (start options).Uses (units.map .analyze) w u a
      ∧ w.Refers u a r ∧ a.history.toList = before := by
  have accrues := performAll_accrues (start options) (lifecycle_start options) (units.map .analyze)
  rw [← analyzeFiles_eq_performAll] at accrues
  have settled : Accrues ((start options).Uses (units.map .analyze)) (start options)
      (ofUnits units options) := accrues.trans (.settle _)
  exact settled.met before e after r is (Nat.zero_le _) met

/-- A type that is used is met once, by the event, as the reference, which comes to an end. -/
structure MeetsOnce (cx : Context) (w : Walk) (u : TypeUse) (a : Context) (r : Reference) (e : Event) :
    Prop where
  refers : w.Refers u a r
  meets : w.Meets u a r e
  history : (w.linkUse u a).history = a.history.push e
  kept : a.history.toList ++ [e] <+: cx.history.toList
  ends : cx.Ends r e

theorem Uses.meetsOnce {units : List SourceUnit} {options : Options} {w : Walk} {u : TypeUse}
    {a : Context} (uses : (start options).Uses (units.map .analyze) w u a)
    (names : u.namesNoClass a = false) : ∃ r e, (ofUnits units options).MeetsOnce w u a r e := by
  obtain ⟨inFile, after⟩ := uses.goesOn_ofUnits
  obtain ⟨r, e, refers, history, meets⟩ := w.linkUse_meets inFile names
  have isPrefix := after.history
  rw [history, Array.toList_push] at isPrefix
  have happened : e ∈ (ofUnits units options).history.toList :=
    isPrefix.subset (List.mem_append_right _ List.mem_cons_self)
  exact ⟨r, e, refers, meets, history, isPrefix,
    (ofUnits_fates units options).ends (ofUnits_uniqueNames units options) happened meets.met⟩

/-- What is met where a type is used is met by that use. -/
theorem MeetsOnce.eq {cx : Context} {w : Walk} {u : TypeUse} {a : Context} {r r' : Reference}
    {e e' : Event} (once : cx.MeetsOnce w u a r e) (refers : w.Refers u a r')
    {after : List Event} (is : cx.history.toList = a.history.toList ++ e' :: after) :
    r = r' ∧ e = e' := by
  obtain ⟨rest, whole⟩ := once.kept
  rw [is, List.append_assoc, List.append_cancel_left_eq, List.singleton_append] at whole
  exact ⟨once.refers.unique refers, (List.cons.inj whole).1⟩

/-- What happens to references in a batch is what fills the places of its table. -/
theorem ofUnits_unfolds (units : List SourceUnit) (options : Options) :
    (start options).Unfolds (ofUnits units options) := by
  obtain ⟨inPlace, inOrder⟩ := inPlace_performAll options (units.map .analyze)
  rw [← analyzeFiles_eq_performAll] at inPlace inOrder
  exact (inPlace.settle inOrder).accounted.unfolds

/-- Nothing waits at the end of a batch, and each reference is accounted for. Places are filled whenever
a reference is linked, at once or later, and not otherwise. A type that is used, and refers to a class,
is met once: at its use the history gets a single event, of a reference with the names that the type may
denote just then, whose place is filled at once or which begins to wait; and the reference comes to one
of its three ends. No other references are met. -/
theorem ofUnits_settled (units : List SourceUnit) (options : Options) :
    (ofUnits units options).Settled
      ∧ (start options).Unfolds (ofUnits units options)
      ∧ (∀ w u a, (start options).Uses (units.map .analyze) w u a → u.namesNoClass a = false →
        ∃ r e, (ofUnits units options).MeetsOnce w u a r e)
      ∧ ∀ before e after r, (ofUnits units options).history.toList = before ++ e :: after →
        e.met? = some r → ∃ w u a, (start options).Uses (units.map .analyze) w u a
          ∧ w.Refers u a r ∧ a.history.toList = before :=
  ⟨ofUnits_fates units options, ofUnits_unfolds units options,
    fun _ _ _ uses names => uses.meetsOnce names,
    fun before _ after _ is met => ofUnits_met before after is met⟩

/-- A class with fields of its own type, of that of a later class, and of a type that nothing declares. -/
def usesThree : SourceUnit where
  level := .full
  tree :=
    { fileName := "A.java", root := ⟨0⟩
      arena :=
        { nodes := #[
            ⟨.nowhere, .sourceFile none [] [⟨1⟩, ⟨8⟩]⟩,
            ⟨⟨1, 1⟩, .classDef [] "A" [] none [] [⟨2⟩, ⟨4⟩, ⟨6⟩]⟩,
            ⟨⟨2, 3⟩, .variableDeclaration [] [⟨3⟩]⟩,
            ⟨⟨2, 5⟩, .variableDeclarator "A" "a" none⟩,
            ⟨⟨3, 3⟩, .variableDeclaration [] [⟨5⟩]⟩,
            ⟨⟨3, 5⟩, .variableDeclarator "B" "b" none⟩,
            ⟨⟨4, 3⟩, .variableDeclaration [] [⟨7⟩]⟩,
            ⟨⟨4, 5⟩, .variableDeclarator "C" "c" none⟩,
            ⟨⟨6, 1⟩, .classDef [] "B" [] none [] []⟩] } }

/-- The reference to the type of a field of the class. -/
def fieldRef (line : UInt32) (index : Nat) (key : String) (candidates : List String) : Reference :=
  { file := ⟨0⟩, position := ⟨line, 5⟩, link := .variableType ⟨index⟩, candidates, key }

/-- The types of the fields come to the three ends: the first is linked as soon as it is met, the second
when its class has been visited, and the last is recorded as unresolved. -/
theorem ofUnits_settled_usesThree :
    (∃ w u a, (start .usual).Uses [.analyze usesThree] w u a
      ∧ (ofUnits [usesThree] .usual).MeetsOnce w u a
        (fieldRef 2 0 "A" ["A", "A$A", "java.lang.A"])
        (.linked (fieldRef 2 0 "A" ["A", "A$A", "java.lang.A"]) ⟨25⟩))
      ∧ (∃ w u a, (start .usual).Uses [.analyze usesThree] w u a
        ∧ (ofUnits [usesThree] .usual).MeetsOnce w u a
          (fieldRef 3 1 "B" ["A$B", "B", "java.lang.B"])
          (.deferred (fieldRef 3 1 "B" ["A$B", "B", "java.lang.B"])))
      ∧ (∃ w u a, (start .usual).Uses [.analyze usesThree] w u a
        ∧ (ofUnits [usesThree] .usual).MeetsOnce w u a
          (fieldRef 4 2 "C" ["A$C", "C", "java.lang.C"])
          (.deferred (fieldRef 4 2 "C" ["A$C", "C", "java.lang.C"])))
      ∧ (ofUnits [usesThree] .usual).resumedRefs
        = [((fieldRef 3 1 "B" ["A$B", "B", "java.lang.B"]).waiting, ⟨26⟩)]
      ∧ (ofUnits [usesThree] .usual).abandonedRefs
        = [(fieldRef 4 2 "C" ["A$C", "C", "java.lang.C"]).waiting]
      ∧ (ofUnits [usesThree] .usual).unresolvedRecords
        = [.ofProblem "A.java" ⟨4, 5⟩ (.unresolved "C")] := by
  obtain ⟨-, -, once, only⟩ := ofUnits_settled [usesThree] .usual
  have history : (ofUnits [usesThree] .usual).history.toList
      = [.began "A", .linked (fieldRef 2 0 "A" ["A", "A$A", "java.lang.A"]) ⟨25⟩,
        .deferred (fieldRef 3 1 "B" ["A$B", "B", "java.lang.B"]),
        .deferred (fieldRef 4 2 "C" ["A$C", "C", "java.lang.C"]), .began "B",
        .resumed (fieldRef 3 1 "B" ["A$B", "B", "java.lang.B"]).waiting ⟨26⟩,
        .abandoned (fieldRef 4 2 "C" ["A$C", "C", "java.lang.C"]).waiting] := by decide +kernel
  -- each of the references that have been met is one of a type that is used, which is met once
  have isMet (before : List Event) (e : Event) (after : List Event) (r : Reference)
      (is : (ofUnits [usesThree] .usual).history.toList = before ++ e :: after)
      (met : e.met? = some r) : ∃ w u a, (start .usual).Uses [.analyze usesThree] w u a
        ∧ (ofUnits [usesThree] .usual).MeetsOnce w u a r e := by
    obtain ⟨w, u, a, uses, refers, rfl⟩ := only before e after r is met
    obtain ⟨r', e', meets⟩ := once w u a uses refers.names
    obtain ⟨rfl, rfl⟩ := meets.eq refers is
    exact ⟨w, u, a, uses, meets⟩
  exact ⟨isMet [_] _ _ _ history rfl, isMet [_, _] _ _ _ history rfl, isMet [_, _, _] _ _ _ history rfl,
    by decide +kernel, by decide +kernel, by decide +kernel⟩

end Context

end LevelCheck
