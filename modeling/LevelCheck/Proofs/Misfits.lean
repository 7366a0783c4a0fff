import LevelCheck.Proofs.Progress
set_option autoImplicit false

/-! # Supertypes that are unfit

A class may extend no interface, and only interfaces may be implemented. The supertypes of a class
stand in places of their own, one for its superclass and one for each interface that it writes, and
`SymbolTable.misfits` lists what is wrong with those that have been linked. Linking one more adds what
is wrong with that one. Whether a class is an interface is settled when its declaration begins, and
none is linked before that, so what was wrong stays wrong and what was right stays right. -/

namespace LevelCheck

/-- A function that is changed at one element, where it gave nothing, picks one more from a list. -/
theorem filterMap_update_perm {α β : Type} {f g : α → Option β} {xs : List α} (nodup : xs.Nodup)
    {x : α} (isIn : x ∈ xs) (before : f x = none) (others : ∀ y, y ≠ x → g y = f y) :
    (xs.filterMap g).Perm ((g x).toList ++ xs.filterMap f) := by
  obtain ⟨front, back, rfl⟩ := List.append_of_mem isIn
  have apart := List.nodup_middle.1 nodup
  have same (ys : List α) (sub : ys ⊆ front ++ back) : ys.filterMap g = ys.filterMap f := by
    refine List.filterMap_congr fun y here => others y ?_
    rintro rfl
    exact (List.nodup_cons.1 apart).1 (sub here)
  rw [List.filterMap_append, List.filterMap_append, List.filterMap_cons, List.filterMap_cons, before,
    same front (List.subset_append_left _ _), same back (List.subset_append_right _ _)]
  cases g x with
  | none => exact .refl _
  | some b => exact List.perm_middle

/-- The class that the place of a supertype belongs to. -/
def Link.subclass? : Link → Option SymbolId
  | .superclass id | .interface id _ => some id
  | _ => none

/-- Elements that give nothing may be left out. -/
theorem flatMap_perm_of_subset {α β : Type} {f : α → List β} {xs ys : List α} (nodup : xs.Nodup)
    (nodup' : ys.Nodup) (sub : ys ⊆ xs) (none : ∀ x ∈ xs, x ∉ ys → f x = []) :
    (xs.flatMap f).Perm (ys.flatMap f) := by
  obtain ⟨ys', reordered, sublist⟩ := List.subperm_of_subset nodup' sub
  obtain ⟨rest, split⟩ := sublist.exists_perm_append
  have same : xs.Perm (ys ++ rest) := split.trans (reordered.append_right rest)
  have apart := List.nodup_append.1 (same.nodup_iff.1 nodup)
  have nothing : rest.flatMap f = [] := by
    refine List.flatMap_eq_nil_iff.2 fun x isIn => none x ?_ fun within => ?_
    · exact same.mem_iff.2 (List.mem_append_right ys isIn)
    · exact apart.2.2 x within x isIn rfl
  refine (same.flatMap_right f).trans (.of_eq ?_)
  rw [List.flatMap_append, nothing, List.append_nil]

namespace SymbolTable

variable {t u : SymbolTable} {link : Link} {id target : SymbolId} {type : TypeRef}

/-! ## Places of supertypes -/

/-- The supertype that stands at a place. -/
def supertype? (t : SymbolTable) : Link → Option TypeRef
  | .superclass id => (t.symbol id).superclass
  | .interface id index => (t.symbol id).interfaces[index]?
  | _ => none

/-- A supertype stands at the place and has not been linked. -/
def IsVacant (t : SymbolTable) (link : Link) : Prop :=
  ∃ type, t.supertype? link = some type ∧ type.resolved = none

/-- What is wrong with the class that the supertype at a place is linked to. -/
def misfit? (t : SymbolTable) (link : Link) : Option Problem :=
  (t.supertype? link).bind fun type => type.resolved.bind (t.linkProblem? link)

/-- The places of the supertypes of a class. -/
def supertypeLinks (t : SymbolTable) (id : SymbolId) : List Link :=
  .superclass id :: (List.range (t.symbol id).interfaces.length).map (.interface id)

/-- What is wrong with the supertypes of a class. -/
def misfits (t : SymbolTable) (id : SymbolId) : List Problem :=
  (t.supertypeLinks id).filterMap t.misfit?

theorem subclass_of_supertype (written : t.supertype? link = some type) :
    ∃ id, link.subclass? = some id := by
  cases link with
  | superclass id | interface id index => exact ⟨id, rfl⟩
  | _ => cases written

theorem IsVacant.misfit? (vacant : t.IsVacant link) : t.misfit? link = none := by
  obtain ⟨type, written, open'⟩ := vacant
  simp [SymbolTable.misfit?, written, open']

theorem misfit?_of_none (absent : t.supertype? link = none) : t.misfit? link = none := by
  simp [SymbolTable.misfit?, absent]

/-- Places beyond those of a class hold nothing that could be wrong. -/
theorem misfits_upTo {n : Nat} (bound : (t.symbol id).interfaces.length ≤ n) : t.misfits id
    = (Link.superclass id :: (List.range n).map (.interface id)).filterMap t.misfit? := by
  obtain ⟨more, rfl⟩ := Nat.exists_eq_add_of_le bound
  have beyond : ((List.range more).map fun i =>
      Link.interface id ((t.symbol id).interfaces.length + i)).filterMap t.misfit? = [] := by
    refine List.filterMap_eq_nil_iff.2 fun link isIn => ?_
    obtain ⟨i, -, rfl⟩ := List.mem_map.1 isIn
    exact misfit?_of_none (List.getElem?_eq_none (Nat.le_add_right _ _))
  rw [misfits, supertypeLinks, List.range_add, List.map_append, List.map_map, ← List.cons_append,
    List.filterMap_append]
  exact (List.append_nil _).symm.trans (congrArg _ beyond.symm)

theorem misfits_congr (same : ∀ link, link.subclass? = some id → u.misfit? link = t.misfit? link) :
    u.misfits id = t.misfits id := by
  rw [misfits_upTo (le_max_left (u.symbol id).interfaces.length (t.symbol id).interfaces.length),
    misfits_upTo (le_max_right (u.symbol id).interfaces.length (t.symbol id).interfaces.length)]
  refine List.filterMap_congr fun link isIn => same link ?_
  rcases List.mem_cons.1 isIn with rfl | isIn
  · rfl
  · obtain ⟨i, -, rfl⟩ := List.mem_map.1 isIn
    rfl

theorem misfits_eq_nil_iff :
    t.misfits id = [] ↔ ∀ link, link.subclass? = some id → t.misfit? link = none := by
  rw [misfits, List.filterMap_eq_nil_iff]
  constructor
  · intro none link isPlace
    by_cases isIn : link ∈ t.supertypeLinks id
    · exact none link isIn
    · refine misfit?_of_none ?_
      cases link with
      | superclass other =>
        obtain rfl := Option.some.inj isPlace
        exact absurd List.mem_cons_self isIn
      | interface other index =>
        obtain rfl := Option.some.inj isPlace
        refine List.getElem?_eq_none (Nat.not_lt.1 fun below => isIn ?_)
        exact List.mem_cons_of_mem _ (List.mem_map_of_mem (List.mem_range.2 below))
      | _ => cases isPlace
  · intro none link isIn
    rcases List.mem_cons.1 isIn with rfl | isIn
    · exact none _ rfl
    · obtain ⟨i, -, rfl⟩ := List.mem_map.1 isIn
      exact none _ rfl

/-- The supertype at a vacant place is linked, and the others are as they were. -/
theorem misfits_perm (vacant : t.IsVacant link) (isPlace : link.subclass? = some id)
    (others : ∀ other, other ≠ link → u.misfit? other = t.misfit? other) :
    (u.misfits id).Perm ((u.misfit? link).toList ++ t.misfits id) := by
  let bound := max (u.symbol id).interfaces.length (t.symbol id).interfaces.length
  rw [misfits_upTo (t := u) (le_max_left _ _ : _ ≤ bound),
    misfits_upTo (t := t) (le_max_right _ _ : _ ≤ bound)]
  have nodup : (Link.superclass id :: (List.range bound).map (.interface id)).Nodup := by
    refine List.nodup_cons.2 ⟨by simp, List.Nodup.map (fun _ _ same => ?_) List.nodup_range⟩
    exact (Link.interface.inj same).2
  refine filterMap_update_perm nodup ?_ vacant.misfit? others
  obtain ⟨type, written, -⟩ := vacant
  cases link with
  | superclass other =>
    obtain rfl := Option.some.inj isPlace
    exact List.mem_cons_self
  | interface other index =>
    obtain rfl := Option.some.inj isPlace
    have below : index < (t.symbol other).interfaces.length := (List.getElem?_eq_some_iff.1 written).1
    have within := below.trans_le (le_max_right (u.symbol other).interfaces.length _)
    exact List.mem_cons_of_mem _ (List.mem_map_of_mem (List.mem_range.2 within))
  | _ => cases isPlace

/-! ## Kinds of classes -/

/-- A declared class is an interface exactly if it was. -/
structure KeepsKinds (t u : SymbolTable) : Prop where
  grows : t.Grows u
  kind : ∀ id, t.IsOpen (.symbol id) → (u.symbol id).isInterface = (t.symbol id).isInterface

/-- Only declared classes have supertypes, and what these are linked to is declared. -/
def OpenSupertypes (t : SymbolTable) : Prop := ∀ link type, t.supertype? link = some type →
  (∀ id ∈ link.subclass?, t.IsOpen (.symbol id)) ∧ ∀ target ∈ type.resolved, t.IsOpen (.symbol target)

/-- The root class is declared, and no interface. -/
def RootIsClass (t : SymbolTable) : Prop := ∃ id, t.IsOpen (.symbol id)
  ∧ (t.symbol id).name = Builtin.object ∧ (t.symbol id).isInterface = false

theorem KeepsKinds.rootIsClass (keeps : t.KeepsKinds u) (root : t.RootIsClass) : u.RootIsClass := by
  obtain ⟨id, isOpen, name, isClass⟩ := root
  exact ⟨id, keeps.grows.isOpen isOpen, (keeps.grows.name id isOpen.1).trans name,
    (keeps.kind id isOpen).trans isClass⟩

/-- What the root class denotes is the root class. -/
theorem RootIsClass.objectRef (root : t.RootIsClass) (unique : t.UniqueNames) :
    ∀ target ∈ t.objectRef.resolved, t.IsOpen (.symbol target)
      ∧ (t.symbol target).isInterface = false := by
  obtain ⟨id, isOpen, name, isClass⟩ := root
  intro target denoted
  obtain ⟨known, named⟩ := SymbolTable.lookup_eq_some denoted
  obtain rfl := unique target id known isOpen.1 (named.trans name.symm)
  exact ⟨isOpen, isClass⟩

/-- Whether a declared class may stand at a place of a declared class is settled. -/
theorem KeepsKinds.linkProblem? (keeps : t.KeepsKinds u) (isPlace : link.subclass? = some id)
    (isOpen : t.IsOpen (.symbol id)) (targetOpen : t.IsOpen (.symbol target)) :
    u.linkProblem? link target = t.linkProblem? link target := by
  have name {id : SymbolId} (isOpen : t.IsOpen (.symbol id)) :
      (u.symbol id).simpleName = (t.symbol id).simpleName :=
    congrArg (Text.afterLast '.') (keeps.grows.name id isOpen.1)
  cases link with
  | superclass child | interface child index =>
    obtain rfl := Option.some.inj isPlace
    simp only [SymbolTable.linkProblem?, keeps.kind _ isOpen, keeps.kind _ targetOpen, name isOpen,
      name targetOpen]
  | _ => cases isPlace

theorem KeepsKinds.misfit? (keeps : t.KeepsKinds u) (known : t.OpenSupertypes)
    (same : u.supertype? link = t.supertype? link) : u.misfit? link = t.misfit? link := by
  rw [SymbolTable.misfit?, SymbolTable.misfit?, same]
  cases written : t.supertype? link with
  | none => rfl
  | some type =>
    obtain ⟨id, isPlace⟩ := subclass_of_supertype written
    obtain ⟨isOpen, targets⟩ := known link type written
    simp only [Option.bind_some]
    cases linked : type.resolved with
    | none => rfl
    | some target =>
      exact keeps.linkProblem? isPlace (isOpen id isPlace) (targets target linked)

theorem OpenSupertypes.grow (known : t.OpenSupertypes) (grows : t.Grows u)
    (same : ∀ link, u.supertype? link = t.supertype? link) : u.OpenSupertypes := by
  intro link type written
  rw [same] at written
  obtain ⟨isOpen, targets⟩ := known link type written
  exact ⟨fun id isPlace => grows.isOpen (isOpen id isPlace),
    fun target linked => grows.isOpen (targets target linked)⟩

/-! ## Linking supertypes -/

/-- The supertype at the place of a class of the table is linked. -/
theorem supertype?_fill (isPlace : link.subclass? = some id) (known : id.val < t.size)
    (target : SymbolId) (other : Link) : (t.fill link target).supertype? other
      = if other = link then (t.supertype? link).map fun type => { type with resolved := some target }
        else t.supertype? other := by
  cases link with
  | superclass child =>
    obtain rfl := Option.some.inj isPlace
    cases other with
    | superclass other =>
      simp only [fill, supertype?, view_modifySymbol_known t known _ Symbol.superclass,
        Link.superclass.injEq]
      split
      · next is => rw [is]; rfl
      · rfl
    | interface other index =>
      have same := view_modifySymbol t child other Symbol.interfaces
        (f := fun s => { s with superclass := resolveOptional s.superclass target }) fun _ => rfl
      simp only [fill, supertype?, same, reduceCtorEq, if_false]
    | _ => rfl
  | interface child index =>
    obtain rfl := Option.some.inj isPlace
    cases other with
    | superclass other =>
      have same := view_modifySymbol t child other Symbol.superclass
        (f := fun s => { s with interfaces := resolveAt s.interfaces index target }) fun _ => rfl
      simp only [fill, supertype?, same, reduceCtorEq, if_false]
    | interface other i =>
      simp only [fill, supertype?, view_modifySymbol_known t known _ Symbol.interfaces,
        Link.interface.injEq]
      by_cases is : other = child
      · subst is
        simp only [if_true, true_and, resolveAt, List.getElem?_modify]
        by_cases here : i = index
        · subst here
          simp
        · rw [if_neg here]
          simp [Ne.symm here]
      · rw [if_neg is, if_neg fun both => is both.1]
    | _ => rfl
  | _ => cases isPlace

/-- Whether a class is an interface has no part in linking. -/
theorem fill_isInterface (t : SymbolTable) (link : Link) (target id : SymbolId) :
    ((t.fill link target).symbol id).isInterface = (t.symbol id).isInterface := by
  cases link with
  | superclass child | interface child index =>
    exact view_modifySymbol t child id Symbol.isInterface fun _ => rfl
  | anonymousBase child =>
    rw [fill]
    split <;> exact view_modifySymbol t child id Symbol.isInterface fun _ => rfl
  | _ => rfl

theorem KeepsKinds.fill (t : SymbolTable) (link : Link) (target : SymbolId) :
    t.KeepsKinds (t.fill link target) :=
  ⟨(SymbolTable.Quiet.fill t link target).grows, fun id _ => t.fill_isInterface link target id⟩

section

variable (known : t.OpenSupertypes) (isPlace : link.subclass? = some id)
  (isOpen : t.IsOpen (.symbol id)) (targetOpen : t.IsOpen (.symbol target))
include known isPlace isOpen targetOpen

theorem OpenSupertypes.fill : (t.fill link target).OpenSupertypes := by
  have grows := (SymbolTable.Quiet.fill t link target).grows
  intro other type written
  rw [supertype?_fill isPlace isOpen.1] at written
  split at written
  · next is =>
    subst is
    obtain ⟨before, -, rfl⟩ := Option.map_eq_some_iff.1 written
    refine ⟨fun owner isOwner => ?_, fun linked is => ?_⟩
    · obtain rfl := Option.some.inj (isPlace.symm.trans isOwner)
      exact grows.isOpen isOpen
    · obtain rfl := Option.some.inj is
      exact grows.isOpen targetOpen
  · obtain ⟨owners, targets⟩ := known other type written
    exact ⟨fun owner isOwner => grows.isOpen (owners owner isOwner),
      fun linked is => grows.isOpen (targets linked is)⟩

omit targetOpen in
/-- A supertype is linked: what is wrong with it comes to what was wrong before. -/
theorem misfits_fill (vacant : t.IsVacant link) (other : SymbolId) :
    ((t.fill link target).misfits other).Perm
      ((if other = id then ((t.fill link target).linkProblem? link target).toList else [])
        ++ t.misfits other) := by
  have keeps := KeepsKinds.fill t link target
  have others (o : Link) (isOther : o ≠ link) :
      (t.fill link target).misfit? o = t.misfit? o :=
    keeps.misfit? known (by rw [supertype?_fill isPlace isOpen.1, if_neg isOther])
  have here : (t.fill link target).misfit? link = (t.fill link target).linkProblem? link target := by
    obtain ⟨type, written, -⟩ := vacant
    rw [misfit?, supertype?_fill isPlace isOpen.1, if_pos rfl, written]
    rfl
  split
  · next is =>
    subst is
    rw [← here]
    exact misfits_perm vacant isPlace others
  · next isOther =>
    refine .of_eq (misfits_congr fun o isPlace' => others o ?_)
    rintro rfl
    exact isOther (Option.some.inj (isPlace'.symm.trans isPlace))

end

/-! ## Supertypes that suit -/

/-- The supertype may stand at the place, as far as it is linked. -/
def Suits (t : SymbolTable) (link : Link) (type : TypeRef) : Prop :=
  ∀ target ∈ type.resolved, t.IsOpen (.symbol target) ∧ t.linkProblem? link target = none

/-- The second table differs from the first in supertypes of one class, and these suit. -/
structure Suited (t u : SymbolTable) (id : SymbolId) : Prop where
  keeps : t.KeepsKinds u
  places : ∀ link, u.supertype? link = t.supertype? link
    ∨ link.subclass? = some id ∧ ∃ type, u.supertype? link = some type ∧ t.Suits link type

namespace Suited

variable (suited : t.Suited u id)
include suited

theorem supertype? (other : link.subclass? ≠ some id) : u.supertype? link = t.supertype? link :=
  (suited.places link).resolve_right fun changed => other changed.1

theorem openSupertypes (known : t.OpenSupertypes) (isOpen : t.IsOpen (.symbol id)) :
    u.OpenSupertypes := by
  have grows := suited.keeps.grows
  intro link type written
  rcases suited.places link with same | ⟨isPlace, changed, is, suits⟩
  · rw [same] at written
    obtain ⟨owners, targets⟩ := known link type written
    exact ⟨fun owner isOwner => grows.isOpen (owners owner isOwner),
      fun target linked => grows.isOpen (targets target linked)⟩
  · obtain rfl := Option.some.inj (is.symm.trans written)
    refine ⟨fun owner isOwner => ?_, fun target linked => grows.isOpen (suits target linked).1⟩
    obtain rfl := Option.some.inj (isPlace.symm.trans isOwner)
    exact grows.isOpen isOpen

/-- Nothing is wrong with a supertype that suits. -/
theorem misfit? (known : t.OpenSupertypes) (isOpen : t.IsOpen (.symbol id)) (link : Link) :
    u.misfit? link = t.misfit? link
      ∨ u.supertype? link ≠ t.supertype? link ∧ u.misfit? link = none := by
  by_cases same : u.supertype? link = t.supertype? link
  · exact .inl (suited.keeps.misfit? known same)
  · obtain ⟨isPlace, type, is, suits⟩ := (suited.places link).resolve_left same
    refine .inr ⟨same, ?_⟩
    rw [SymbolTable.misfit?, is, Option.bind_some]
    cases linked : type.resolved with
    | none => rfl
    | some target =>
      obtain ⟨targetOpen, fits⟩ := suits target linked
      exact (suited.keeps.linkProblem? isPlace isOpen targetOpen).trans fits

/-- If nothing was wrong with the supertypes that are changed, what is wrong is what was. -/
theorem misfits (known : t.OpenSupertypes) (isOpen : t.IsOpen (.symbol id))
    (before : ∀ link, u.supertype? link ≠ t.supertype? link → t.misfit? link = none)
    (other : SymbolId) : u.misfits other = t.misfits other := by
  refine misfits_congr fun link _ => ?_
  rcases suited.misfit? known isOpen link with same | ⟨changed, none⟩
  · exact same
  · rw [none, before link changed]

end Suited

/-- A class comes to have a superclass that suits, and the superclasses of all others stay. -/
theorem superclass_modifySymbol (known : id.val < t.size) {f : Symbol → Symbol} {type : TypeRef}
    (given : ∀ s, (f s).superclass = some type)
    (fits : ∀ target ∈ type.resolved,
      t.IsOpen (.symbol target) ∧ (t.symbol target).isInterface = false) (other : SymbolId) :
    (t.modifySymbol id f).supertype? (.superclass other) = t.supertype? (.superclass other)
      ∨ (Link.superclass other).subclass? = some id
        ∧ ∃ type, (t.modifySymbol id f).supertype? (.superclass other) = some type
          ∧ t.Suits (.superclass other) type := by
  simp only [SymbolTable.supertype?, view_modifySymbol_known t known _ Symbol.superclass]
  split
  · next is =>
    refine .inr ⟨congrArg some is, type, given _, fun target linked => ?_⟩
    obtain ⟨isOpen, isClass⟩ := fits target linked
    exact ⟨isOpen, by simp [SymbolTable.linkProblem?, isClass]⟩
  · exact .inl rfl

/-- An anonymous class is linked to its base, which becomes its superclass, or its only interface, as
it has to be. -/
theorem Suited.fill_anonymousBase (root : t.RootIsClass) (unique : t.UniqueNames)
    (known : id.val < t.size) (targetOpen : t.IsOpen (.symbol target)) :
    t.Suited (t.fill (.anonymousBase id) target) id := by
  refine ⟨.fill t _ target, fun link => ?_⟩
  have isInterface {index : Nat} (kind : (t.symbol target).isInterface = true) :
      t.linkProblem? (.interface id index) target = none := by
    simp [SymbolTable.linkProblem?, kind]
  cases kind : (t.symbol target).isInterface with
  | false =>
    have fills : t.fill (.anonymousBase id) target = t.modifySymbol id fun s =>
        { s with superclass := some { name := (t.symbol target).name, resolved := some target } } := by
      simp [fill, kind]
    rw [fills]
    cases link with
    | superclass other =>
      refine superclass_modifySymbol known (fun _ => rfl) (fun linked is => ?_) other
      obtain rfl := Option.some.inj is
      exact ⟨targetOpen, kind⟩
    | interface other index =>
      exact .inl (view_modifySymbol t id other (fun s => s.interfaces[index]?) fun _ => rfl)
    | _ => exact .inl rfl
  | true =>
    have fills : t.fill (.anonymousBase id) target = t.modifySymbol id fun s =>
        { s with
          interfaces := s.interfaces ++ [{ name := (t.symbol target).name, resolved := some target }]
          superclass := some t.objectRef } := by
      simp [fill, kind]
    rw [fills]
    cases link with
    | superclass other =>
      exact superclass_modifySymbol known (fun _ => rfl) (root.objectRef unique) other
    | interface other index =>
      simp only [SymbolTable.supertype?, view_modifySymbol_known t known _ Symbol.interfaces]
      split
      · next is =>
        subst is
        by_cases below : index < (t.symbol other).interfaces.length
        · rw [List.getElem?_append_left below]
          exact .inl rfl
        · rw [List.getElem?_append_right (Nat.not_lt.1 below), List.getElem?_singleton]
          split
          · refine .inr ⟨rfl, _, rfl, fun linked is => ?_⟩
            obtain rfl := Option.some.inj is
            exact ⟨targetOpen, isInterface kind⟩
          · exact .inl (List.getElem?_eq_none (Nat.not_lt.1 below)).symm
      · exact .inl rfl
    | _ => exact .inl rfl

/-! ## Writing supertypes -/

/-- A superclass is written. -/
theorem supertype?_superclass (known : id.val < t.size) (type : TypeRef) (other : Link) :
    (t.modifySymbol id fun s => { s with superclass := some type }).supertype? other
      = if other = .superclass id then some type else t.supertype? other := by
  cases other with
  | superclass other =>
    simp only [supertype?, view_modifySymbol_known t known _ Symbol.superclass, Link.superclass.injEq]
  | interface other index =>
    rw [if_neg nofun]
    exact view_modifySymbol t id other (fun s => s.interfaces[index]?) fun _ => rfl
  | _ => rfl

/-- An interface is written, after the others. -/
theorem supertype?_interface (known : id.val < t.size) (type : TypeRef) (other : Link) :
    (t.modifySymbol id fun s => { s with interfaces := s.interfaces ++ [type] }).supertype? other
      = if other = .interface id (t.symbol id).interfaces.length then some type
        else t.supertype? other := by
  cases other with
  | superclass other =>
    rw [if_neg nofun]
    exact view_modifySymbol t id other Symbol.superclass fun _ => rfl
  | interface other index =>
    simp only [supertype?, view_modifySymbol_known t known _ Symbol.interfaces, Link.interface.injEq]
    by_cases is : other = id
    · subst is
      simp only [if_true, true_and]
      split
      · next last => rw [last, List.getElem?_concat_length]
      · next isOther =>
        rcases Nat.lt_or_gt_of_ne isOther with below | beyond
        · exact List.getElem?_append_left below
        · rw [List.getElem?_eq_none (by simpa using beyond), List.getElem?_eq_none beyond.le]
    · rw [if_neg is, if_neg fun both => is both.1]
  | _ => rfl

/-- A supertype that suits is written at a place of a class. -/
theorem Suited.written {f : Symbol → Symbol} (isPlace : link.subclass? = some id)
    (kind : ∀ s, (f s).isInterface = s.isInterface) (grows : t.Grows (t.modifySymbol id f))
    (suits : t.Suits link type) (places : ∀ other, (t.modifySymbol id f).supertype? other
      = if other = link then some type else t.supertype? other) :
    t.Suited (t.modifySymbol id f) id := by
  have kinds (other : SymbolId) := view_modifySymbol t id other Symbol.isInterface kind
  refine ⟨⟨grows, fun other _ => kinds other⟩, fun other => ?_⟩
  rw [places]
  split
  · next is =>
    subst is
    exact .inr ⟨isPlace, type, rfl, suits⟩
  · exact .inl rfl

/-! ## How many supertypes are unfit -/

/-- The classes of the table. -/
def classIds (t : SymbolTable) : List SymbolId := (List.range t.size).map SymbolId.mk

/-- The class is no interface, and its superclass is known to be one. -/
def extendsInterface (t : SymbolTable) (id : SymbolId) : Bool :=
  !(t.symbol id).isInterface && ((t.symbol id).superclass.bind (·.resolved)).any fun target =>
    (t.symbol target).isInterface

/-- The supertype is known to be no interface. -/
def isKnownClass (t : SymbolTable) (type : TypeRef) : Bool :=
  type.resolved.any fun target => !(t.symbol target).isInterface

/-- The interfaces that classes implement and that are known to be none, each with its class. -/
def implementedClasses (t : SymbolTable) : List (SymbolId × TypeRef) :=
  t.classIds.flatMap fun id => ((t.symbol id).interfaces.filter t.isKnownClass).map (id, ·)

/-- What is wrong with the superclass comes first, and then what is wrong with the interfaces. -/
theorem misfits_eq (t : SymbolTable) (id : SymbolId) :
    t.misfits id = (t.misfit? (.superclass id)).toList ++ (t.symbol id).interfaces.filterMap
      fun type => type.resolved.bind (t.linkProblem? (.interface id 0)) := by
  have each (types : List TypeRef) (pick : TypeRef → Option Problem) :
      (List.range types.length).filterMap (fun i => types[i]?.bind pick) = types.filterMap pick := by
    induction types with
    | nil => rfl
    | cons type rest ih =>
      rw [List.length_cons, List.range_succ_eq_map, List.filterMap_cons, List.filterMap_map,
        List.filterMap_cons, ← ih]
      rfl
  rw [misfits, supertypeLinks, List.filterMap_cons, List.filterMap_map, ← each]
  cases t.misfit? (.superclass id) <;> rfl

/-- A place holds something wrong exactly if the class linked to it is of the wrong kind. -/
theorem linkProblem?_isSome (t : SymbolTable) (id target : SymbolId) (index : Nat) :
    (t.linkProblem? (.superclass id) target).isSome
        = (!(t.symbol id).isInterface && (t.symbol target).isInterface)
      ∧ (t.linkProblem? (.interface id index) target).isSome = !(t.symbol target).isInterface := by
  constructor
  · cases kind : (t.symbol id).isInterface <;> cases parent : (t.symbol target).isInterface
      <;> simp [linkProblem?, kind, parent]
  · cases parent : (t.symbol target).isInterface <;> simp [linkProblem?, parent]

theorem code_of_superclass {p : Problem} (found : t.linkProblem? (.superclass id) target = some p) :
    p.code = 1017 := by
  rw [linkProblem?] at found
  split at found <;> cases found
  rfl

theorem code_of_interface {index : Nat} {p : Problem}
    (found : t.linkProblem? (.interface id index) target = some p) : p.code = 1018 := by
  rw [linkProblem?] at found
  split at found <;> cases found
  rfl

theorem misfit?_superclass_isSome (t : SymbolTable) (id : SymbolId) :
    (t.misfit? (.superclass id)).isSome = t.extendsInterface id := by
  rw [misfit?, extendsInterface, supertype?]
  cases (t.symbol id).superclass with
  | none => simp
  | some type =>
    simp only [Option.bind_some]
    cases type.resolved with
    | none => simp
    | some target => exact (t.linkProblem?_isSome id target 0).1

/-- Of what is wrong with a class, one thing at most is its superclass. -/
theorem misfits_countP_extends (t : SymbolTable) (id : SymbolId) :
    (t.misfits id).countP (·.code == 1017) = if t.extendsInterface id then 1 else 0 := by
  have others : ((t.symbol id).interfaces.filterMap fun type =>
      type.resolved.bind (t.linkProblem? (.interface id 0))).countP (·.code == 1017) = 0 := by
    refine List.countP_eq_zero.2 fun p isIn => ?_
    obtain ⟨type, -, found⟩ := List.mem_filterMap.1 isIn
    obtain ⟨target, -, found⟩ := Option.bind_eq_some_iff.1 found
    rw [code_of_interface found]
    decide
  rw [misfits_eq, List.countP_append, others, Nat.add_zero, ← misfit?_superclass_isSome]
  cases found : t.misfit? (.superclass id) with
  | none => rfl
  | some p =>
    obtain ⟨type, -, linked⟩ := Option.bind_eq_some_iff.1 found
    obtain ⟨target, -, wrong⟩ := Option.bind_eq_some_iff.1 linked
    simp [code_of_superclass wrong]

/-- The rest of what is wrong with a class are the interfaces that are none. -/
theorem misfits_countP_implements (t : SymbolTable) (id : SymbolId) :
    (t.misfits id).countP (·.code == 1018)
      = ((t.symbol id).interfaces.filter t.isKnownClass).length := by
  have first : (t.misfit? (.superclass id)).toList.countP (·.code == 1018) = 0 := by
    refine List.countP_eq_zero.2 fun p isIn => ?_
    obtain ⟨type, -, found⟩ := Option.bind_eq_some_iff.1 (Option.mem_toList.1 isIn)
    obtain ⟨target, -, found⟩ := Option.bind_eq_some_iff.1 found
    rw [code_of_superclass found]
    decide
  have all : ∀ p ∈ (t.symbol id).interfaces.filterMap fun type =>
      type.resolved.bind (t.linkProblem? (.interface id 0)), (p.code == 1018) = true := by
    intro p isIn
    obtain ⟨type, -, found⟩ := List.mem_filterMap.1 isIn
    obtain ⟨target, -, found⟩ := Option.bind_eq_some_iff.1 found
    rw [code_of_interface found]
    rfl
  have known (type : TypeRef) :
      (type.resolved.bind (t.linkProblem? (.interface id 0))).isSome = t.isKnownClass type := by
    rw [isKnownClass]
    cases type.resolved with
    | none => rfl
    | some target => exact (t.linkProblem?_isSome id target 0).2
  rw [misfits_eq, List.countP_append, first, Nat.zero_add, List.countP_eq_length.2 all,
    List.length_filterMap_eq_countP, List.countP_eq_length_filter]
  simp only [known]

/-- A class with which nothing is wrong extends no interface and implements no class. -/
theorem fits_of_misfits (none : t.misfits id = []) : t.extendsInterface id = false
    ∧ ∀ type ∈ (t.symbol id).interfaces, t.isKnownClass type = false := by
  have extended := t.misfits_countP_extends id
  have implemented := t.misfits_countP_implements id
  rw [none, List.countP_nil] at extended implemented
  refine ⟨by simpa using extended, fun type isIn => ?_⟩
  have none := List.filter_eq_nil_iff.1 (List.length_eq_zero_iff.1 implemented.symm) type isIn
  exact Bool.eq_false_iff.2 none

theorem countP_extends (t : SymbolTable) (ids : List SymbolId) :
    (ids.flatMap t.misfits).countP (·.code == 1017) = (ids.filter t.extendsInterface).length := by
  induction ids with
  | nil => rfl
  | cons id rest ih =>
    rw [List.flatMap_cons, List.countP_append, ih, misfits_countP_extends, List.filter_cons]
    split
    · rw [List.length_cons, Nat.add_comm]
    · rw [Nat.zero_add]

theorem countP_implements (t : SymbolTable) (ids : List SymbolId) :
    (ids.flatMap t.misfits).countP (·.code == 1018)
      = (ids.flatMap fun id =>
          ((t.symbol id).interfaces.filter t.isKnownClass).map (id, ·)).length := by
  induction ids with
  | nil => rfl
  | cons id rest ih =>
    rw [List.flatMap_cons, List.countP_append, ih, misfits_countP_implements, List.flatMap_cons,
      List.length_append, List.length_map]

end SymbolTable

end LevelCheck
