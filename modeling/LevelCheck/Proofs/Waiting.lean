import LevelCheck.Pending
import Mathlib.Tactic
set_option autoImplicit false

/-! # References that wait, as one list

The waiting references are grouped by the name they wait for, one group to a name. Taken together,
a request adds one reference, and the declaration of a name takes out those that wait for it. -/

namespace LevelCheck

namespace Pending

/-- The groups are those of different names, and each holds references that wait for its name. -/
structure Keyed (p : Pending) : Prop where
  names : p.names.Nodup
  members : ∀ group ∈ p.groups, ∀ r ∈ group.2, r.name = group.1

theorem keyed_empty : empty.Keyed := ⟨List.nodup_nil, nofun⟩

/-! ## Requests -/

theorem requestIn_perm (r : PendingReference) (groups : List (String × List PendingReference)) :
    ((requestIn r groups).flatMap (·.2)).Perm (r :: groups.flatMap (·.2)) := by
  induction groups with
  | nil => exact .refl _
  | cons group rest ih =>
    rw [requestIn]
    split
    · rw [List.flatMap_cons, List.flatMap_cons, List.append_assoc]
      exact List.perm_middle
    · rw [List.flatMap_cons, List.flatMap_cons]
      exact (ih.append_left group.2).trans List.perm_middle

/-- A request adds one reference to those that wait. -/
theorem request_perm (p : Pending) (r : PendingReference) :
    (p.request r).all.Perm (r :: p.all) := requestIn_perm r p.groups

theorem requestIn_names (r : PendingReference) (groups : List (String × List PendingReference)) :
    (requestIn r groups).map (·.1)
      = if r.name ∈ groups.map (·.1) then groups.map (·.1) else groups.map (·.1) ++ [r.name] := by
  induction groups with
  | nil => rfl
  | cons group rest ih =>
    rw [requestIn]
    by_cases same : group.1 = r.name
    · rw [if_pos same, if_pos (by simp [same])]
      rfl
    · -- the name is looked for in the groups after this one
      rw [if_neg same, List.map_cons, List.map_cons, ih]
      have other : ¬ r.name = group.1 := fun h => same h.symm
      by_cases asked : r.name ∈ rest.map (·.1)
      · rw [if_pos asked, if_pos (List.mem_cons_of_mem _ asked)]
      · rw [if_neg asked, if_neg (by simpa [other] using asked), List.cons_append]

theorem requestIn_members {r : PendingReference} {groups : List (String × List PendingReference)}
    (members : ∀ group ∈ groups, ∀ r ∈ group.2, r.name = group.1) :
    ∀ group ∈ requestIn r groups, ∀ r ∈ group.2, r.name = group.1 := by
  induction groups with
  | nil =>
    intro group isGroup other waits
    obtain rfl := List.mem_singleton.1 isGroup
    rw [List.mem_singleton.1 waits]
  | cons first rest ih =>
    intro group isGroup other waits
    rw [requestIn] at isGroup
    split at isGroup
    · next same =>
      rcases List.mem_cons.1 isGroup with rfl | later
      · rcases List.mem_append.1 waits with before | last
        · exact members first List.mem_cons_self other before
        · rw [List.mem_singleton.1 last, same]
      · exact members group (List.mem_cons_of_mem _ later) other waits
    · rcases List.mem_cons.1 isGroup with rfl | later
      · exact members group List.mem_cons_self other waits
      · exact ih (fun g isIn => members g (List.mem_cons_of_mem _ isIn)) group later other waits

theorem Keyed.request {p : Pending} (keyed : p.Keyed) (r : PendingReference) :
    (p.request r).Keyed := by
  refine ⟨?_, requestIn_members keyed.members⟩
  rw [Pending.names, Pending.request, requestIn_names]
  split
  · exact keyed.names
  · next asked =>
    refine List.Nodup.append keyed.names (List.nodup_singleton _) fun name isIn isNew => ?_
    rw [List.mem_singleton.1 isNew] at isIn
    exact asked isIn

/-! ## Releases -/

/-- The groups that a release leaves are among those there were. -/
theorem mem_release {p : Pending} {name : String} {r : PendingReference} :
    r ∈ (p.release name).1 ∨ r ∈ (p.release name).2.all → r ∈ p.all := by
  rw [release, all]
  cases found : p.groups.find? (·.1 == name) with
  | none =>
    rintro (released | left)
    · cases released
    · exact left
  | some group =>
    rintro (released | left)
    · exact List.mem_flatMap.2 ⟨group, List.mem_of_find?_eq_some found, released⟩
    · obtain ⟨other, isGroup, waits⟩ := List.mem_flatMap.1 left
      exact List.mem_flatMap.2 ⟨other, (List.mem_filter.1 isGroup).1, waits⟩

namespace Keyed

variable {p : Pending} (keyed : p.Keyed) (name : String)
include keyed

/-- The references that wait for the names of some groups. -/
theorem filter_all (keep : String → Bool) :
    p.all.filter (fun r => keep r.name) = (p.groups.filter fun g => keep g.1).flatMap (·.2) := by
  have members := keyed.members
  rw [all]
  generalize p.groups = groups at *
  induction groups with
  | nil => rfl
  | cons group rest ih =>
    -- the references of a group wait for the same name, so all of them are kept or none
    have here : group.2.filter (fun r => keep r.name) = if keep group.1 then group.2 else [] := by
      split
      · next kept =>
        refine List.filter_eq_self.2 fun r waits => ?_
        rw [members group List.mem_cons_self r waits, kept]
      · next dropped =>
        refine List.filter_eq_nil_iff.2 fun r waits => ?_
        rw [members group List.mem_cons_self r waits]
        exact dropped
    rw [List.flatMap_cons, List.filter_append, here,
      ih fun g isIn => members g (List.mem_cons_of_mem _ isIn), List.filter_cons]
    split
    · rw [List.flatMap_cons]
    · rfl

/-- A name has at most one group. -/
theorem filter_groups {group : String × List PendingReference}
    (found : p.groups.find? (·.1 == name) = some group) :
    p.groups.filter (fun g => g.1 == name) = [group] := by
  have names := keyed.names
  rw [Pending.names] at names
  generalize p.groups = groups at *
  induction groups with
  | nil => cases found
  | cons first rest ih =>
    obtain ⟨notIn, names⟩ := List.nodup_cons.1 names
    rw [List.filter_cons]
    rw [List.find?_cons] at found
    cases isIt : first.1 == name with
    | false =>
      rw [isIt] at found
      exact ih found names
    | true =>
      rw [isIt] at found
      obtain rfl := Option.some.inj found
      -- the groups after the one of the name have other names
      have none : rest.filter (fun g => g.1 == name) = [] := by
        refine List.filter_eq_nil_iff.2 fun g isIn same => notIn ?_
        have isSame : g.1 = first.1 := (beq_iff_eq.1 same).trans (beq_iff_eq.1 isIt).symm
        exact List.mem_map.2 ⟨g, isIn, isSame⟩
      rw [if_pos rfl, none]

/-- A declaration releases exactly the references that wait for its name. -/
theorem release_fst : (p.release name).1 = p.all.filter fun r => r.name == name := by
  rw [keyed.filter_all (· == name), release]
  cases found : p.groups.find? (·.1 == name) with
  | none =>
    have none : p.groups.filter (fun g => g.1 == name) = [] :=
      List.filter_eq_nil_iff.2 (List.find?_eq_none.1 found)
    rw [none]
    rfl
  | some group =>
    rw [keyed.filter_groups name found]
    exact (List.append_nil _).symm

theorem release_snd : (p.release name).2.all = p.all.filter fun r => r.name != name := by
  rw [keyed.filter_all (· != name), release]
  cases found : p.groups.find? (·.1 == name) with
  | none =>
    have all : p.groups.filter (fun g => g.1 != name) = p.groups := by
      refine List.filter_eq_self.2 fun g isIn => ?_
      have other := List.find?_eq_none.1 found g isIn
      simpa using other
    rw [all]
    rfl
  | some group => rfl

theorem release : (p.release name).2.Keyed := by
  rw [Pending.release]
  cases found : p.groups.find? (·.1 == name) with
  | none => exact keyed
  | some group =>
    refine ⟨keyed.names.sublist (List.filter_sublist.map _), fun g isIn => ?_⟩
    exact keyed.members g (List.mem_filter.1 isIn).1

end Keyed

end Pending

end LevelCheck
