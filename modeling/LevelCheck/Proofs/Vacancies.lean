import LevelCheck.Proofs.WrittenTypes
import LevelCheck.Proofs.Surroundings
set_option autoImplicit false

/-! # Vacant places

A place is vacant as long as no class has been found for the type in its slot; that of the base of an
anonymous class, as long as the class extends nothing. Filling a vacant place leaves all slots alone but
those that it bears: no type is written anew, no slot that is linked to a class is linked to another,
and whatever the table shows at other places stays. -/

namespace LevelCheck

/-- The slot may change when the place is filled: it is the slot of the place, or one of an anonymous
class whose base the place is for. -/
def Link.Bears (place link : Link) : Prop :=
  link = place ∨ ∃ id, place = .anonymousBase id ∧ link.IsParentOf id

theorem Link.direct_or_base (place : Link) : place.IsDirect ∨ ∃ id, place = .anonymousBase id := by
  cases place with
  | anonymousBase id => exact .inr ⟨id, rfl⟩
  | _ => exact .inl trivial

theorem Link.IsDirect.of_bears {place link : Link} (direct : place.IsDirect)
    (bears : place.Bears link) : link = place := by
  rcases bears with is | ⟨id, rfl, -⟩
  · exact is
  · exact direct.elim

theorem Link.IsParentOf.isDirect {link : Link} {id : SymbolId} (isParent : link.IsParentOf id) :
    link.IsDirect := by
  cases link with
  | superclass | interface => trivial
  | _ => exact isParent.elim

theorem Link.IsParentOf.unique {link : Link} {id other : SymbolId} (isParent : link.IsParentOf id)
    (isParent' : link.IsParentOf other) : id = other := by
  cases link with
  | superclass | interface => exact isParent.symm.trans isParent'
  | _ => exact isParent.elim

namespace SymbolTable

variable {t u v : SymbolTable}

/-! ## The types that a class extends, as slots -/

/-- Only a place that is its own slot has one. -/
theorem isDirect_of_slot? {place : Link} {slot : Slot} (is : t.slot? place = some slot) :
    place.IsDirect := by
  cases place with
  | anonymousBase => cases is
  | _ => trivial

theorem ne_existence_of_slot? {place : Link} {slot : Slot} (is : t.slot? place = some slot) :
    place ≠ .existence := by
  rintro rfl
  cases is

/-- The types that a class extends are those of its slots. -/
theorem parents_eq (id : SymbolId)
    (same : ∀ link, link.IsParentOf id → u.slot? link = t.slot? link) :
    (u.symbol id).parents = (t.symbol id).parents := by
  have injective : Function.Injective fun type : TypeRef => Slot.mk type (.symbol id) :=
    fun _ _ is => congrArg Slot.type is
  have superclass : (u.symbol id).superclass = (t.symbol id).superclass :=
    Option.map_injective injective (same (.superclass id) rfl)
  have interfaces : (u.symbol id).interfaces = (t.symbol id).interfaces :=
    List.ext_getElem? fun i => Option.map_injective injective (same (.interface id i) rfl)
  rw [Symbol.parents, Symbol.parents, superclass, interfaces]

/-- A slot of a class holds one of the types that the class extends. -/
theorem mem_parents_of_slot {id : SymbolId} {link : Link} (isParent : link.IsParentOf id) {slot : Slot}
    (is : t.slot? link = some slot) :
    slot.type ∈ (t.symbol id).parents.1.toList ++ (t.symbol id).parents.2 := by
  cases link with
  | superclass child =>
    obtain rfl : child = id := isParent
    obtain ⟨type, isSuperclass, rfl⟩ := Option.map_eq_some_iff.1 is
    exact List.mem_append_left _ (Option.mem_toList.2 isSuperclass)
  | interface child index =>
    obtain rfl : child = id := isParent
    obtain ⟨type, isIn, rfl⟩ := Option.map_eq_some_iff.1 is
    exact List.mem_append_right _ (List.mem_of_getElem? isIn)
  | _ => exact isParent.elim

theorem slot?_of_bare {id : SymbolId} (bare : (t.symbol id).parents = (none, [])) {link : Link}
    (isParent : link.IsParentOf id) : t.slot? link = none := by
  by_contra present
  obtain ⟨slot, is⟩ := Option.ne_none_iff_exists'.1 present
  have isIn := mem_parents_of_slot isParent is
  simp [bare] at isIn

/-- The class extends what was found for its base: nothing, or the base itself, or the base besides the
root class. -/
inductive Extends (t : SymbolTable) (id : SymbolId) : Option SymbolId → Prop where
  | bare (is : (t.symbol id).parents = (none, [])) : Extends t id none
  | base {target : SymbolId} (known : target.val < t.size)
      (is : (t.symbol id).parents = (some ⟨(t.symbol target).name, some target⟩, [])) :
      Extends t id (some target)
  | besidesRoot {target : SymbolId} (known : target.val < t.size)
      (is : (t.symbol id).parents
        = (some t.objectRef, [⟨(t.symbol target).name, some target⟩])) :
      Extends t id (some target)

/-- The types that a class extends by its base are linked to classes. -/
theorem Extends.resolved {id : SymbolId} {resolved : Option SymbolId}
    (extends' : t.Extends id resolved) (root : t.objectRef.resolved.isSome) {link : Link}
    (isParent : link.IsParentOf id) {slot : Slot} (is : t.slot? link = some slot) :
    slot.type.resolved.isSome := by
  have isIn := mem_parents_of_slot isParent is
  cases extends' with
  | bare bare => simp [bare] at isIn
  | base known parents =>
    simp only [parents, Option.toList_some, List.append_nil, List.mem_singleton] at isIn
    rw [isIn]
    rfl
  | besidesRoot known parents =>
    simp only [parents, Option.toList_some, List.singleton_append, List.mem_cons, List.not_mem_nil,
      or_false] at isIn
    rcases isIn with isRoot | isBase
    · rwa [isRoot]
    · rw [isBase]
      rfl

/-! ## What the table shows -/

/-- The table shows what was found for the type: its slot holds it as it is written, linked to that
class, or, if it is the base of an anonymous class, the class extends it. -/
def Shows (t : SymbolTable) (m : Mention) (resolved : Option SymbolId) : Prop :=
  match m.link with
  | .anonymousBase id => t.Extends id resolved
  | link => t.slot? link = some { type := { name := m.written, resolved }, scope := m.scope }

theorem shows_iff {m : Mention} (direct : m.link.IsDirect) {resolved : Option SymbolId} :
    t.Shows m resolved
      ↔ t.slot? m.link = some { type := { name := m.written, resolved }, scope := m.scope } := by
  obtain ⟨link, scope, written, pos⟩ := m
  cases link with
  | anonymousBase => exact direct.elim
  | _ => exact Iff.rfl

/-- There is a place, and nothing has been found for it yet. -/
def Vacant (t : SymbolTable) : Link → Prop
  | .existence => True
  | .anonymousBase id => (t.symbol id).parents = (none, [])
  | link => ∃ slot, t.slot? link = some slot ∧ slot.type.resolved = none

theorem Vacant.unresolved {place link : Link} (vacant : t.Vacant place) (bears : place.Bears link)
    {slot : Slot} (is : t.slot? link = some slot) : slot.type.resolved = none := by
  rcases bears with rfl | ⟨id, rfl, isParent⟩
  · cases link with
    | existence | anonymousBase => cases is
    | _ =>
      obtain ⟨vacantSlot, isSlot, unresolved⟩ := vacant
      obtain rfl := Option.some.inj (isSlot.symm.trans is)
      exact unresolved
  · rw [slot?_of_bare vacant isParent] at is
    cases is

/-- A slot that shows what was found at a place is borne by no vacant place but that place itself. -/
theorem Shows.apart {m : Mention} {resolved : Option SymbolId} (shown : t.Shows m resolved)
    (root : t.objectRef.resolved.isSome) {place : Link} (vacant : t.Vacant place)
    (differs : m.link ≠ place) {link : Link} (bears : m.link.Bears link) : ¬ place.Bears link := by
  rintro (rfl | ⟨child, rfl, isParent⟩)
  · rcases bears with rfl | ⟨id, isBase, isParent⟩
    · exact differs rfl
    · -- the place is a slot of an anonymous class, where all slots are linked
      have extends' : t.Extends id resolved := by
        rw [Shows, isBase] at shown
        exact shown
      have present : ∃ slot, t.slot? link = some slot ∧ slot.type.resolved = none := by
        cases link with
        | superclass | interface => exact vacant
        | _ => exact isParent.elim
      obtain ⟨slot, is, unresolved⟩ := present
      have linked := extends'.resolved root isParent is
      rw [unresolved] at linked
      cases linked
  · rcases bears with rfl | ⟨id, isBase, isParent'⟩
    · have direct : m.link.IsDirect := by
        cases is : m.link with
        | anonymousBase =>
          rw [is] at isParent
          exact isParent.elim
        | _ => trivial
      rw [shows_iff direct, slot?_of_bare vacant isParent] at shown
      cases shown
    · exact differs (isBase.trans (congrArg Link.anonymousBase (isParent'.unique isParent)))

/-- The table still shows what it has shown, as long as the slots stay. -/
theorem Shows.keeps {m : Mention} {resolved : Option SymbolId} (shown : t.Shows m resolved)
    (grows : t.Grows u) (root : u.objectRef = t.objectRef)
    (same : ∀ link, m.link.Bears link → u.slot? link = t.slot? link) : u.Shows m resolved := by
  obtain ⟨link, scope, written, pos⟩ := m
  cases link with
  | anonymousBase id =>
    have parents := parents_eq (u := u) (t := t) id fun link isParent =>
      same link (.inr ⟨id, rfl, isParent⟩)
    cases (show t.Extends id resolved from shown) with
    | bare is => exact Extends.bare (parents.trans is)
    | base known is =>
      refine Extends.base (known.trans_le grows.symbols) ?_
      rw [parents, is, grows.name _ known]
    | besidesRoot known is =>
      refine Extends.besidesRoot (known.trans_le grows.symbols) ?_
      rw [parents, is, grows.name _ known, root]
  | _ => exact (same _ (.inl rfl)).trans shown

/-! ## Filling a vacant place -/

/-- The types that are written stay as they are written, and those that are linked stay linked to the
same classes. -/
def Keeps (t u : SymbolTable) : Prop :=
  ∀ link slot, t.slot? link = some slot → ∃ slot', u.slot? link = some slot'
    ∧ slot'.type.name = slot.type.name ∧ slot'.scope = slot.scope
    ∧ ∀ target ∈ slot.type.resolved, slot'.type.resolved = some target

theorem Keeps.refl (t : SymbolTable) : t.Keeps t :=
  fun _ slot is => ⟨slot, is, rfl, rfl, fun _ linked => linked⟩

theorem Keeps.trans (first : t.Keeps u) (second : u.Keeps v) : t.Keeps v := by
  intro link slot is
  obtain ⟨slot', is', name, scope, linked⟩ := first link slot is
  obtain ⟨slot'', is'', name', scope', linked'⟩ := second link slot' is'
  exact ⟨slot'', is'', name'.trans name, scope'.trans scope,
    fun target isLinked => linked' target (linked target isLinked)⟩

/-- Only the slots that the place bears change. -/
theorem fill_slot?_other {place link : Link} (vacant : t.Vacant place) (apart : ¬ place.Bears link)
    (target : SymbolId) : (t.fill place target).slot? link = t.slot? link := by
  rcases place.direct_or_base with direct | ⟨id, rfl⟩
  · exact (t.fill_filled direct target link).trans (if_neg fun is => apart (.inl is))
  · obtain ⟨parents, types, vars⟩ := t.fill_anonymousBase_others vacant target
    have differs {child : SymbolId} (isParent : link.IsParentOf child) : child ≠ id := by
      rintro rfl
      exact apart (.inr ⟨child, rfl, isParent⟩)
    cases link with
    | superclass child =>
      have same : ((t.fill (.anonymousBase id) target).symbol child).superclass = _ :=
        congrArg Prod.fst (parents child (differs rfl))
      simp only [slot?, same, Symbol.parents]
    | interface child index =>
      have same : ((t.fill (.anonymousBase id) target).symbol child).interfaces = _ :=
        congrArg Prod.snd (parents child (differs rfl))
      simp only [slot?, same, Symbol.parents]
    | variableType declared =>
      have same := congrArg (·[declared.val]?) vars
      simpa only [slot?, Array.getElem?_map] using same
    | returnType method =>
      have same : ((t.fill (.anonymousBase id) target).method method).returnType = _ :=
        congrArg Prod.fst (types method)
      simp only [slot?, same, Method.types]
    | thrownType method index =>
      have same : ((t.fill (.anonymousBase id) target).method method).thrown = _ :=
        congrArg Prod.snd (types method)
      simp only [slot?, same, Method.types]
    | existence | anonymousBase => rfl

/-- Nothing in the table changes but the slot of the place, which is linked to the class. An anonymous
class, which has extended nothing, gets its base, and nothing else changes. -/
def FillsOnly (t : SymbolTable) (place : Link) (target : SymbolId) : Prop :=
  match place with
  | .anonymousBase id => (t.symbol id).parents = (none, [])
      ∧ t.fill (.anonymousBase id) target = t.modifySymbol id fun s =>
        { s with superclass := (t.parentsOf target).1, interfaces := (t.parentsOf target).2 }
  | place => (t.fill place target).written = t.written ∧ t.Filled place target

theorem Vacant.fillsOnly {place : Link} (vacant : t.Vacant place) (target : SymbolId) :
    t.FillsOnly place target := by
  rcases place.direct_or_base with direct | ⟨id, rfl⟩
  · have written := t.written_fill direct target
    have filled := t.fill_filled direct target
    cases place with
    | anonymousBase => exact direct.elim
    | _ => exact ⟨written, filled⟩
  · exact ⟨vacant, t.fill_anonymousBase vacant target⟩

theorem Keeps.fill {place : Link} (vacant : t.Vacant place) (target : SymbolId) :
    t.Keeps (t.fill place target) := by
  intro link slot is
  by_cases bears : place.Bears link
  · have unresolved := vacant.unresolved bears is
    rcases place.direct_or_base with direct | ⟨id, rfl⟩
    · obtain rfl := direct.of_bears bears
      refine ⟨slot.resolve target, ?_, rfl, rfl, by simp [unresolved]⟩
      rw [t.fill_filled direct target, if_pos rfl, is, Option.map_some]
    · -- an anonymous class has no slots before its base is found
      rcases bears with rfl | ⟨child, isBase, isParent⟩
      · cases is
      · obtain rfl := Link.anonymousBase.inj isBase
        rw [slot?_of_bare vacant isParent] at is
        cases is
  · exact ⟨slot, (fill_slot?_other vacant bears target).trans is, rfl, rfl, fun _ linked => linked⟩

theorem Shows.vacant {m : Mention} (shown : t.Shows m none) : t.Vacant m.link := by
  obtain ⟨link, scope, written, pos⟩ := m
  cases link with
  | anonymousBase id =>
    cases (show t.Extends id none from shown) with
    | bare is => exact is
  | existence => trivial
  | _ => exact ⟨_, shown, rfl⟩

/-- The base of an anonymous class becomes the superclass, or an interface besides the root class. -/
theorem Extends.fill {id target : SymbolId} (bare : (t.symbol id).parents = (none, []))
    (isOpen : t.IsOpen (.symbol id)) (known : target.val < t.size) :
    (t.fill (.anonymousBase id) target).Extends id (some target) := by
  have quiet := Quiet.fill t (.anonymousBase id) target
  have known' := known.trans_le quiet.grows.symbols
  have named := quiet.grows.name target known
  have root : (t.fill (.anonymousBase id) target).objectRef = t.objectRef := by
    rw [objectRef, objectRef, lookup_of_roll quiet.roll]
  have filled : ((t.fill (.anonymousBase id) target).symbol id).parents = t.parentsOf target := by
    rw [t.fill_anonymousBase bare]
    exact (view_modifySymbol_known t isOpen.1 _ Symbol.parents id).trans (if_pos rfl)
  unfold parentsOf at filled
  by_cases isInterface : (t.symbol target).isInterface = true
  · refine .besidesRoot known' ?_
    rw [filled, if_pos isInterface, named, root]
  · refine .base known' ?_
    rw [filled, if_neg isInterface, named]

/-- The table shows what the place has been filled with. -/
theorem Shows.fill {m : Mention} {target : SymbolId} (shown : t.Shows m none)
    (openPlace : t.OpenPlace m.link) (known : target.val < t.size) :
    (t.fill m.link target).Shows m (some target) := by
  rcases m.link.direct_or_base with direct | ⟨id, isBase⟩
  · rw [shows_iff direct] at shown ⊢
    rw [t.fill_filled direct target, if_pos rfl, shown]
    rfl
  · have bare := shown.vacant
    rw [isBase] at bare openPlace
    rw [Shows, isBase]
    exact Extends.fill bare openPlace known

/-! ## How slots come about and are filled -/

end SymbolTable

/-- The place that the event tells to have been filled, and the class. -/
def Event.filled? : Event → Option (Link × SymbolId)
  | .linked r target => some (r.link, target)
  | .resumed r target => some (r.link, target)
  | _ => none

namespace SymbolTable

variable {t u v : SymbolTable}

/-- Slots are added, for types that are not linked to a class, or are linked to the root class from the
start. The others stay. -/
structure AddsSlots (t u : SymbolTable) : Prop where
  kept : ∀ link slot, t.slot? link = some slot → u.slot? link = some slot
  added : ∀ link slot, t.slot? link = none → u.slot? link = some slot →
    slot.type.resolved = none ∨ slot.type = u.objectRef

theorem AddsSlots.of_same (same : ∀ link, u.slot? link = t.slot? link) : t.AddsSlots u where
  kept link _ is := (same link).trans is
  added link slot empty is := by
    rw [same link, empty] at is
    cases is

theorem SameSlots.addsSlots (same : t.SameSlots u) : t.AddsSlots u := .of_same same.slot?

/-- The second table comes of the first by the events: slots are added in between, and a vacant place is
filled whenever an event says so, and not otherwise. -/
inductive Unfolds (t : SymbolTable) : List Event → SymbolTable → Prop where
  | rest : Unfolds t [] t
  | adds {events : List Event} {u v : SymbolTable} (before : Unfolds t events u)
      (adds : u.AddsSlots v) : Unfolds t events v
  | fills {events : List Event} {u : SymbolTable} {e : Event} {place : Link} {target : SymbolId}
      (before : Unfolds t events u) (filled : e.filled? = some (place, target))
      (vacant : u.Vacant place) : Unfolds t (events ++ [e]) (u.fill place target)
  | passes {events : List Event} {u : SymbolTable} {e : Event} (before : Unfolds t events u)
      (notFilled : e.filled? = none) : Unfolds t (events ++ [e]) u

theorem Unfolds.trans {events more : List Event} (first : t.Unfolds events u)
    (second : u.Unfolds more v) : t.Unfolds (events ++ more) v := by
  induction second with
  | rest => simpa using first
  | adds _ adds ih => exact .adds ih adds
  | fills _ filled vacant ih =>
    rw [← List.append_assoc]
    exact .fills ih filled vacant
  | passes _ notFilled ih =>
    rw [← List.append_assoc]
    exact .passes ih notFilled

/-- Whatever happens, what is written stays as it is written, and what is linked stays linked. -/
theorem Unfolds.keeps {events : List Event} (unfolds : t.Unfolds events u) : t.Keeps u := by
  induction unfolds with
  | rest => exact .refl t
  | adds _ adds ih =>
    refine ih.trans fun link slot is => ?_
    exact ⟨slot, adds.kept link slot is, rfl, rfl, fun _ linked => linked⟩
  | fills _ _ vacant ih => exact ih.trans (.fill vacant _)
  | passes _ _ ih => exact ih

end SymbolTable

namespace Context

variable {a b c : Context}

/-- The second state comes after the first: its table comes of the first one by what has happened
since. -/
def Unfolds (a b : Context) : Prop :=
  ∃ events, b.history.toList = a.history.toList ++ events ∧ a.table.Unfolds events b.table

theorem Unfolds.refl (cx : Context) : cx.Unfolds cx := ⟨[], (List.append_nil _).symm, .rest⟩

theorem Unfolds.trans (first : a.Unfolds b) (second : b.Unfolds c) : a.Unfolds c := by
  obtain ⟨events, history, table⟩ := first
  obtain ⟨more, history', table'⟩ := second
  exact ⟨events ++ more, by rw [history', history, List.append_assoc], table.trans table'⟩

theorem Unfolds.adds (history : b.history = a.history) (adds : a.table.AddsSlots b.table) :
    a.Unfolds b := ⟨[], by rw [history, List.append_nil], .adds .rest adds⟩

theorem Unfolds.passes {e : Event} (history : b.history = a.history.push e)
    (notFilled : e.filled? = none) (adds : a.table.AddsSlots b.table) : a.Unfolds b := by
  have before : a.table.Unfolds [] a.table := .rest
  exact ⟨[e], by rw [history, Array.toList_push], .adds (before.passes notFilled) adds⟩

theorem Unfolds.fills {e : Event} {place : Link} {target : SymbolId}
    (history : b.history = a.history.push e) (filled : e.filled? = some (place, target))
    (vacant : a.table.Vacant place) (table : b.table = a.table.fill place target) : a.Unfolds b := by
  have before : a.table.Unfolds [] a.table := .rest
  refine ⟨[e], by rw [history, Array.toList_push], ?_⟩
  rw [table]
  exact before.fills filled vacant

end Context

end LevelCheck
