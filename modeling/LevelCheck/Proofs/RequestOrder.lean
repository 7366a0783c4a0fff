import LevelCheck.Proofs.HandedOut
import LevelCheck.Proofs.Lifecycle
set_option autoImplicit false

/-! # The order of unresolved references

References wait in groups, one to a name. A request joins the group of its name, however many other
names have been asked for since that group began, so what is left in the end comes out group by
group: in the order of the requests as far as one name goes, and the names in the order in which
they were first asked for among what is left. It is not the order of the requests if those for
different names take turns. -/

namespace LevelCheck

namespace Pending

/-! ## Requests and releases -/

/-- What happens to the waiting references before the end: another one is requested, or a name is
declared. -/
inductive Call where
  | request (r : PendingReference)
  | release (name : String)
  deriving DecidableEq, Repr

/-- The reference that a call requests. -/
def Call.request? : Call → Option PendingReference
  | .request r => some r
  | .release _ => none

def call (p : Pending) : Call → Pending
  | .request r => p.request r
  | .release name => (p.release name).2

def callAll (p : Pending) (calls : List Call) : Pending := calls.foldl call p

/-- The references that a call leaves of those requested before it, with the one it requests. -/
def outstandingAfter (rs : List PendingReference) : Call → List PendingReference
  | .request r => rs ++ [r]
  | .release name => rs.filter (·.name != name)

/-- The references that were requested and not released since, in the order of their requests. -/
def outstanding (calls : List Call) : List PendingReference := calls.foldl outstandingAfter []

/-! ## Grouping by name -/

/-- The references of each name, the names in the order in which they first come. -/
def byName (rs : List PendingReference) : List (String × List PendingReference) :=
  (rs.map (·.name)).eraseDups.map fun name => (name, rs.filter (·.name == name))

theorem eraseDups_concat (names : List String) (name : String) :
    (names ++ [name]).eraseDups
      = if name ∈ names then names.eraseDups else names.eraseDups ++ [name] := by
  rw [List.eraseDups_append]
  by_cases isIn : name ∈ names
  · simp [List.removeAll, isIn]
  · simp [List.removeAll, isIn, List.eraseDups_cons]

theorem nodup_eraseDups (names : List String) : names.eraseDups.Nodup := by
  induction names using List.reverseRecOn with
  | nil => exact List.nodup_nil
  | append_singleton names name ih =>
    rw [eraseDups_concat]
    split
    · exact ih
    · next isNew =>
      rw [List.nodup_append_comm, List.singleton_append, List.nodup_cons, List.mem_eraseDups]
      exact ⟨isNew, ih⟩

theorem eraseDups_filter (names : List String) (keep : String → Bool) :
    (names.filter keep).eraseDups = names.eraseDups.filter keep := by
  induction names using List.reverseRecOn with
  | nil => rfl
  | append_singleton names name ih =>
    rw [List.filter_append, List.filter_singleton, eraseDups_concat]
    cases kept : keep name with
    | true =>
      rw [cond_true, eraseDups_concat, ih]
      by_cases isIn : name ∈ names <;> simp [isIn, kept]
    | false =>
      rw [cond_false, List.append_nil, ih]
      by_cases isIn : name ∈ names <;> simp [isIn, kept]

section

variable {r : PendingReference} {names : List String} {group : String → List PendingReference}

theorem requestIn_new (isNew : r.name ∉ names) :
    requestIn r (names.map fun name => (name, group name))
      = (names.map fun name => (name, group name)) ++ [(r.name, [r])] := by
  induction names with
  | nil => rfl
  | cons name rest ih =>
    rw [List.mem_cons, not_or] at isNew
    obtain ⟨other, isNew⟩ := isNew
    rw [List.map_cons, requestIn, if_neg (Ne.symm other), ih isNew, List.cons_append]

theorem requestIn_known (distinct : names.Nodup) (known : r.name ∈ names) :
    requestIn r (names.map fun name => (name, group name))
      = names.map fun name => (name, group name ++ if r.name == name then [r] else []) := by
  induction names with
  | nil => cases known
  | cons name rest ih =>
    obtain ⟨notIn, distinct⟩ := List.nodup_cons.1 distinct
    rw [List.map_cons, List.map_cons, requestIn]
    by_cases same : name = r.name
    · subst same
      -- the groups after the one of the name are those of other names
      have others : rest.map (fun name => (name, group name))
          = rest.map fun name => (name, group name ++ if r.name == name then [r] else []) := by
        refine List.map_congr_left fun name isIn => ?_
        have other : ¬ r.name = name := fun same => notIn (same ▸ isIn)
        simp [other]
      simp [others]
    · have later : r.name ∈ rest := by
        rcases List.mem_cons.1 known with is | later
        · exact absurd is.symm same
        · exact later
      have other : ¬ r.name = name := fun is => same is.symm
      simp [same, other, ih distinct later]

end

theorem requestIn_byName (r : PendingReference) (rs : List PendingReference) :
    requestIn r (byName rs) = byName (rs ++ [r]) := by
  have grown (name : String) : (rs ++ [r]).filter (·.name == name)
      = rs.filter (·.name == name) ++ if r.name == name then [r] else [] := by
    rw [List.filter_append, List.filter_singleton]
    cases r.name == name <;> rfl
  simp only [byName, grown, List.map_append, List.map_cons, List.map_nil, eraseDups_concat]
  by_cases known : r.name ∈ rs.map (·.name)
  · rw [if_pos known, requestIn_known (nodup_eraseDups _) (List.mem_eraseDups.2 known)]
  · rw [if_neg known, requestIn_new (mt List.mem_eraseDups.1 known), List.map_append]
    -- no reference of the name has waited, and none of the others is of that name
    have nothing : rs.filter (·.name == r.name) = [] := by
      refine List.filter_eq_nil_iff.2 fun other waits same => known ?_
      exact List.mem_map.2 ⟨other, waits, beq_iff_eq.1 same⟩
    congr 1
    · refine List.map_congr_left fun name isIn => ?_
      have other : ¬ r.name = name := fun same => known (List.mem_eraseDups.1 (same ▸ isIn))
      simp [other]
    · simp [nothing]

theorem byName_filter (rs : List PendingReference) (name : String) :
    (byName rs).filter (·.1 != name) = byName (rs.filter (·.name != name)) := by
  have names : (rs.filter (·.name != name)).map (·.name) = (rs.map (·.name)).filter (· != name) := by
    rw [List.filter_map]
    rfl
  rw [byName, byName, names, eraseDups_filter, List.filter_map]
  refine List.map_congr_left fun other isIn => ?_
  have isOther : (other != name) = true := (List.mem_filter.1 isIn).2
  rw [List.filter_filter]
  refine congrArg (Prod.mk other) (List.filter_congr fun r _ => ?_)
  by_cases same : r.name = other
  · simp [same, isOther]
  · simp [same]

theorem release_groups (p : Pending) (name : String) :
    (p.release name).2.groups = p.groups.filter (·.1 != name) := by
  rw [release]
  cases found : p.groups.find? (·.1 == name) with
  | some group => rfl
  | none =>
    refine (List.filter_eq_self.2 fun group isGroup => ?_).symm
    simpa using List.find?_eq_none.1 found group isGroup

/-- The groups after any calls are those of the references that are outstanding. -/
theorem callAll_groups (calls : List Call) :
    (empty.callAll calls).groups = byName (outstanding calls) := by
  induction calls using List.reverseRecOn with
  | nil => rfl
  | append_singleton calls c ih =>
    rw [callAll, outstanding, List.foldl_concat, List.foldl_concat, ← callAll, ← outstanding]
    cases c with
    | request r => rw [call, request, ih, requestIn_byName, outstandingAfter]
    | release name => rw [call, release_groups, ih, byName_filter, outstandingAfter]

theorem callAll_all (calls : List Call) :
    (empty.callAll calls).all = (byName (outstanding calls)).flatMap (·.2) := by
  rw [all, callAll_groups]

/-! ## Requests that come in groups -/

/-- No reference of another name stands between two of one name. -/
def Together (rs : List PendingReference) : Prop :=
  ∀ a b c, [a, b, c].Sublist rs → a.name = c.name → b.name = a.name

/-- References stand as they do with those of one name in front, if none of another name comes
before one of these. -/
theorem filter_append_filter {rs : List PendingReference} {name : String}
    (inFront : ∀ b c, [b, c].Sublist rs → c.name = name → b.name = name) :
    rs.filter (·.name == name) ++ rs.filter (·.name != name) = rs := by
  induction rs with
  | nil => rfl
  | cons r rest ih =>
    by_cases same : r.name = name
    · have later := ih fun b c within => inFront b c (within.cons r)
      simp [same, later]
    · -- from here on no reference is of the name
      have none (c : PendingReference) (isIn : c ∈ rest) : c.name ≠ name := fun is =>
        same (inFront r c ((List.singleton_sublist.2 isIn).cons_cons r) is)
      have others : rest.filter (·.name != name) = rest := by simpa using none
      have nothing : rest.filter (·.name == name) = [] := by simpa using none
      simp [same, others, nothing]

theorem byName_cons (r : PendingReference) (rest : List PendingReference) :
    byName (r :: rest)
      = (r.name, r :: rest.filter (·.name == r.name)) :: byName (rest.filter (·.name != r.name)) := by
  have names : ((rest.map (·.name)).filter fun name => !name == r.name).eraseDups
      = (rest.map (·.name)).eraseDups.filter (· != r.name) :=
    eraseDups_filter _ fun name => !name == r.name
  rw [← byName_filter, byName, List.map_cons, List.eraseDups_cons, names, List.map_cons,
    List.filter_cons, if_pos (beq_self_eq_true r.name), byName, List.filter_map]
  refine congrArg (List.cons _) (List.map_congr_left fun name isIn => ?_)
  have other : ¬ r.name = name := fun same => by simp [← same] at isIn
  simp [other]

/-- If the references of each name come together, grouping them leaves them in order. -/
theorem byName_together {rs : List PendingReference} (together : Together rs) :
    (byName rs).flatMap (·.2) = rs := by
  induction len : rs.length using Nat.strong_induction_on generalizing rs with
  | _ n ih =>
    cases rs with
    | nil => rfl
    | cons r rest =>
      have fewer : (rest.filter (·.name != r.name)).length < n := by
        have := List.length_filter_le (fun other => other.name != r.name) rest
        rw [List.length_cons] at len
        omega
      have others : Together (rest.filter (·.name != r.name)) := fun a b c within =>
        together a b c ((within.trans List.filter_sublist).cons r)
      have inFront : ∀ b c, [b, c].Sublist rest → c.name = r.name → b.name = r.name :=
        fun b c within same => together r b c (within.cons_cons r) same.symm
      rw [byName_cons, List.flatMap_cons, ih _ fewer others rfl, List.cons_append,
        filter_append_filter inFront]

/-! ## What settling returns -/

/-- Settling returns what waits in the order in which it waits, whatever the callback does. -/
theorem settleWithin_sublist {σ : Type} (table : σ → SymbolTable)
    (resume : PendingReference → SymbolId → σ → σ) (passes : Nat) (p : Pending) (s : σ) :
    (settleWithin table resume passes p s).1.Sublist p.all := by
  induction passes generalizing p s with
  | zero => exact .refl _
  | succ passes ih =>
    have left : (p.takeReady (table s)).2.all.Sublist p.all := by
      rw [takeReady_all]
      exact List.filter_sublist
    rw [settleWithin]
    split
    · next is => rwa [is] at left
    · next is =>
      rw [is] at left
      exact (ih _ _).trans left

end Pending

/-! ## The requests of a run -/

open Pending (Call)

namespace Context

/-- What waits comes from calls that requested the references that had to wait, in the order in
which the walk met them. -/
def Requested (cx : Context) : Prop :=
  ∃ calls : List Call, cx.pending = Pending.empty.callAll calls
    ∧ calls.filterMap Call.request? = cx.deferredRefs.map Reference.waiting

namespace Requested

variable {cx : Context}

theorem same (requested : cx.Requested) {next : Context} (pending : next.pending = cx.pending)
    (deferred : next.deferredRefs = cx.deferredRefs) : next.Requested := by
  rw [Requested, pending, deferred]
  exact requested

theorem act (requested : cx.Requested) {next : Context} (act : Act cx next) : next.Requested := by
  cases act with
  | note | report | prune | refuse | header | enter => exact requested
  | link file isOpen written pos hasPlace =>
    cases cx.linkType_linking file _ written pos _ with
    | none is =>
      rw [is]
      exact requested
    | now inRun found is =>
      obtain ⟨pending, history, -⟩ := apply_records (cx.happened (.linked _ _)) file pos _ _
      rw [is]
      refine requested.same pending ?_
      rw [deferredRefs, history, filterMap_happened]
      exact List.append_nil _
    | @later f r inRun met waits undeclared is =>
      obtain ⟨calls, pending, requests⟩ := requested
      refine ⟨calls ++ [.request r.waiting], ?_, ?_⟩
      · rw [is, Pending.callAll, List.foldl_concat, ← Pending.callAll, ← pending]
        rfl
      · rw [is, List.filterMap_append, requests, deferredRefs, deferredRefs, filterMap_happened,
          List.map_append]
        rfl

theorem opens (requested : cx.Requested) {next : Context} {id : SymbolId} (opens : Opens cx id next) :
    next.Requested := by
  obtain ⟨begun, -, -, -⟩ := opens
  obtain ⟨t, -, rfl⟩ := beginClass_some begun
  refine requested.same rfl ?_
  rw [deferredRefs, filterMap_happened]
  exact List.append_nil _

/-- The completion of a class releases the references that wait for its name. -/
theorem defineComplete (requested : cx.Requested) (id : SymbolId) :
    (cx.defineComplete id).Requested := by
  obtain ⟨calls, pending, requests⟩ := requested
  have resumed := cx.defineComplete_resumed id
  refine ⟨calls ++ [.release ((cx.table.finishDefinition id).symbol id).name], ?_, ?_⟩
  · rw [resumed.pending, waitingFor, Pending.callAll, List.foldl_concat, ← Pending.callAll, ← pending]
    rfl
  · rw [List.filterMap_append, requests, deferredRefs, deferredRefs, resumed.history]
    simp [List.filterMap_map, Function.comp_def, Event.deferred?, Call.request?]

theorem analyzeFile (requested : cx.Requested) (unit : SourceUnit) :
    (cx.analyzeFile unit).2.Requested := by
  have known : (cx.addFile unit.tree.fileName unit.level).2.Requested := requested.same rfl rfl
  exact (cx.analyzeFile_run unit).keeps (P := Requested) (fun step requested => requested.act step)
    (fun begins requested => requested.opens begins)
    (fun _ requested => requested.defineComplete _) known

theorem analyzeFiles (requested : cx.Requested) (units : List SourceUnit) :
    (cx.analyzeFiles units).Requested := by
  induction units generalizing cx with
  | nil => exact requested
  | cons unit rest ih => exact ih (requested.analyzeFile unit)

end Requested

/-- What settling returns comes in the order of the groups of what is outstanding, which is the
order of the requests if those for each name come together. In a run, the requests are the
references that had to wait, as the walk met them, and those that nothing resolves are recorded
group by group. -/
theorem ofUnits_unresolved_byName {σ : Type} (table : σ → SymbolTable)
    (resume : PendingReference → SymbolId → σ → σ) (calls : List Call) (s : σ)
    (units : List SourceUnit) (options : Options) :
    ((Pending.empty.callAll calls).settle table resume s).1.Sublist
        ((Pending.byName (Pending.outstanding calls)).flatMap (·.2))
    ∧ (Pending.Together (Pending.outstanding calls) →
        ((Pending.empty.callAll calls).settle table resume s).1.Sublist (Pending.outstanding calls))
    ∧ ∃ calls : List Call,
      calls.filterMap Call.request?
          = (ofUnits units options).deferredRefs.map Reference.waiting
        ∧ (ofUnits units options).unresolvedRecords
          = (((Pending.byName (Pending.outstanding calls)).flatMap (·.2)).filter fun r =>
              (r.target? (ofUnits units options).table).isNone).map fun r =>
              r.unresolvedDiagnostic ((ofUnits units options).fileName r.file) := by
  have inGroups : ((Pending.empty.callAll calls).settle table resume s).1.Sublist
      ((Pending.byName (Pending.outstanding calls)).flatMap (·.2)) := by
    rw [← Pending.callAll_all]
    exact Pending.settleWithin_sublist table resume _ _ s
  refine ⟨inGroups, fun together => ?_, ?_⟩
  · rwa [Pending.byName_together together] at inGroups
  · have started : (start options).Requested := ⟨[], rfl, rfl⟩
    obtain ⟨calls, pending, requests⟩ := started.analyzeFiles units
    have settles := ((start options).analyzeFiles units).settle_settles
    have before := ((ledger_start options).analyzeFiles units).unresolvedRecords_eq
    have stuck : ((start options).analyzeFiles units).pending.stuck
          ((start options).analyzeFiles units).table
        = ((Pending.byName (Pending.outstanding calls)).flatMap (·.2)).filter fun r =>
          (r.target? (ofUnits units options).table).isNone := by
      rw [Pending.stuck, pending, Pending.callAll_all]
      refine List.filter_congr fun r _ => ?_
      rw [ofUnits, settles.target_eq]
    refine ⟨calls, ?_, ?_⟩
    · rw [requests, ofUnits, settles.deferredRefs_eq]
    · rw [ofUnits, settles.records, before, List.nil_append, stuck]
      rfl

end Context

namespace Pending

/-- A reference that waits for a name. -/
def waitsFor (name : String) (line : UInt32) : PendingReference :=
  { name, alternatives := [], position := ⟨line, 1⟩, file := ⟨0⟩, link := .existence }

/-- What settling returns need not come in the order of the requests: a second request for a name
comes before one for another name that was made in between. -/
theorem settle_not_inRequestOrder : ¬ ∀ calls : List Call,
    ((empty.callAll calls).settle (fun _ : Unit => SymbolTable.empty) (fun _ _ s => s) ()).1.Sublist
      (outstanding calls) := by
  intro inOrder
  have taken := inOrder [.request (waitsFor "A" 1), .request (waitsFor "B" 2),
    .request (waitsFor "A" 3)]
  exact absurd taken (by decide +kernel)

end Pending

end LevelCheck
