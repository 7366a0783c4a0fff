import LevelCheck.Proofs.TreeFormat
set_option autoImplicit false

/-! # Objects that are written otherwise

The members of an object have no order, and those under names that are not known are passed over. So any
object within a value may be written otherwise, whatever it is an object of, and what is read of the value
stays the same. Two things limit what may be added: an object that stands for a word has one member only,
and values that are read whole before it is known what they are must not hold what cannot be read. -/

namespace LevelCheck

/-! ## Changes within values -/

namespace Json

/-- The value is neither an array nor an object. -/
def isScalar : Json → Bool
  | .array _ => false
  | .object _ => false
  | _ => true

/-- A value without parts that can be read whole: a number is not too great for a double, a string has
a text. -/
def IsSoundScalar (j : Json) : Prop := j.isScalar = true ∧ j.isSound 0 = true

/-- One object within the value, at any depth, has its members changed. -/
inductive Within (change : List (String × Json) → List (String × Json) → Prop) :
    Json → Json → Prop where
  | here {members others : List (String × Json)} (changed : change members others) :
      Within change (.object members) (.object others)
  | member {before after : List (String × Json)} {name : String} {value value' : Json}
      (inner : Within change value value') :
      Within change (.object (before ++ (name, value) :: after))
        (.object (before ++ (name, value') :: after))
  | item {before after : List Json} {value value' : Json} (inner : Within change value value') :
      Within change (.array (before ++ value :: after)) (.array (before ++ value' :: after))

/-- There is one more member. -/
inductive Adds (fits : Json → Prop) : List (String × Json) → List (String × Json) → Prop where
  | add {members : List (String × Json)} (name : String) {value : Json} (allowed : fits value) :
      Adds fits members ((name, value) :: members)

/-- The names of the members that some object of the format has. -/
def formatNames : List String :=
  ["file_name", "arena", "root", "pos", "kind", "line", "column", "on_demand", "type"]
    ++ Kind.all.flatMap Kind.memberNames

/-- An object with the members may stand for a word, or for the null within one. -/
def MayBeWord (members : List (String × Json)) : Prop :=
  members = [] ∨ (memberTag? (.object members)).isSome = true

/-- The members of an object are written otherwise, whatever it is an object of: in another order, or
with one more, under a name that no object of the format has. An object that may stand for a word has no
room for more. -/
inductive Rewrites : List (String × Json) → List (String × Json) → Prop where
  | reorder {members others : List (String × Json)} (reordered : members.Perm others) :
      Rewrites members others
  | add {members : List (String × Json)} {name : String} {value : Json} (unused : name ∉ formatNames)
      (isNoWord : ¬ MayBeWord members) (allowed : value.IsSoundScalar) :
      Rewrites members ((name, value) :: members)

/-- One object within the value is written otherwise. -/
def Rewritten : Json → Json → Prop := Within Rewrites

/-! ## Values read whole -/

theorem IsSoundScalar.isSound {j : Json} (scalar : j.IsSoundScalar) (limit : Nat) :
    j.isSound limit = true := by
  obtain ⟨isScalar, sound⟩ := scalar
  cases j with
  | array => cases isScalar
  | object => cases isScalar
  | unpaired => rw [Json.isSound] at sound; cases sound
  | number n => rw [Json.isSound] at sound ⊢; exact sound
  | _ => rw [Json.isSound]

theorem isSound_object_iff {limit : Nat} {members : List (String × Json)} :
    (Json.object members).isSound limit = true
      ↔ 0 < limit ∧ ∀ m ∈ members, m.2.isSound (limit - 1) = true := by
  cases limit with
  | zero => simp [Json.isSound]
  | succ limit => simp [Json.isSound, membersSound_iff]

theorem isSound_array_iff {limit : Nat} {items : List Json} :
    (Json.array items).isSound limit = true
      ↔ 0 < limit ∧ ∀ item ∈ items, item.isSound (limit - 1) = true := by
  cases limit with
  | zero => simp [Json.isSound]
  | succ limit => simp [Json.isSound, itemsSound_iff]

/-- A change of members keeps what holds of each, if it holds of all values that can be read whole. -/
def KeepsMembers (change : List (String × Json) → List (String × Json) → Prop) : Prop :=
  ∀ ⦃members others⦄, change members others → ∀ P : String × Json → Prop,
    (∀ name value, IsSoundScalar value → P (name, value)) → (∀ m ∈ members, P m) → ∀ m ∈ others, P m

theorem Adds.keepsMembers : KeepsMembers (Adds IsSoundScalar) := by
  rintro _ _ ⟨name, allowed⟩ P added each
  exact List.forall_mem_cons.2 ⟨added name _ allowed, each⟩

theorem Rewrites.keepsMembers : KeepsMembers Rewrites := by
  intro members others rewrites P added each
  cases rewrites with
  | reorder reordered => exact fun m isIn => each m (reordered.mem_iff.2 isIn)
  | add _ _ allowed => exact List.forall_mem_cons.2 ⟨added _ _ allowed, each⟩

/-- A change keeps values that can be read whole. -/
def KeepsSound (change : Json → Json → Prop) : Prop :=
  ∀ ⦃j j'⦄, change j j' → ∀ limit, j.isSound limit = true → j'.isSound limit = true

theorem Within.keepsSound {change : List (String × Json) → List (String × Json) → Prop}
    (keeps : KeepsMembers change) : KeepsSound (Within change) := by
  intro j j' changed
  induction changed with
  | here changed =>
    intro limit sound
    rw [isSound_object_iff] at sound ⊢
    exact ⟨sound.1, keeps changed (fun m => m.2.isSound (limit - 1) = true)
      (fun _ _ allowed => allowed.isSound _) sound.2⟩
  | member _ ih =>
    intro limit sound
    rw [isSound_object_iff, List.forall_mem_append, List.forall_mem_cons] at sound ⊢
    exact ⟨sound.1, sound.2.1, ih _ sound.2.2.1, sound.2.2.2⟩
  | item _ ih =>
    intro limit sound
    rw [isSound_array_iff, List.forall_mem_append, List.forall_mem_cons] at sound ⊢
    exact ⟨sound.1, sound.2.1, ih _ sound.2.2.1, sound.2.2.2⟩

theorem Rewritten.keepsSound : KeepsSound Rewritten := Within.keepsSound Rewrites.keepsMembers

end Json

/-! ## What is read of a value -/

namespace Json

variable {α β : Type}

/-- The second reading has the result of the first, if that has any. -/
def Keeps (first second : Option α) : Prop := ∀ a, first = some a → second = some a

theorem Keeps.refl (x : Option α) : Keeps x x := fun _ is => is

theorem Keeps.of_none {x y : Option α} (none : x = none) : Keeps x y := by
  intro a is
  rw [none] at is
  cases is

theorem Keeps.bind {x y : Option α} {f g : α → Option β} (first : Keeps x y)
    (next : ∀ a, Keeps (f a) (g a)) : Keeps (x >>= f) (y >>= g) := by
  intro b is
  obtain ⟨a, read, result⟩ := Option.bind_eq_some_iff.1 is
  exact Option.bind_eq_some_iff.2 ⟨a, first a read, next a b result⟩

theorem Keeps.map {x y : Option α} (f : α → β) (first : Keeps x y) : Keeps (x.map f) (y.map f) := by
  intro b is
  obtain ⟨a, read, result⟩ := Option.map_eq_some_iff.1 is
  exact Option.map_eq_some_iff.2 ⟨a, first a read, result⟩

/-- What is read of a value is read of it when one of its objects is written otherwise. -/
def Respects (read : Json → Option α) : Prop := ∀ ⦃j j'⦄, Rewritten j j' → Keeps (read j) (read j')

/-- A value that is the same, or is written otherwise. -/
def Form (j j' : Json) : Prop := j' = j ∨ Rewritten j j'

theorem Respects.form {read : Json → Option α} (respects : Respects read) {j j' : Json}
    (form : Form j j') : Keeps (read j) (read j') := by
  obtain rfl | rewritten := form
  · exact .refl _
  · exact respects rewritten

/-- Nothing can be written otherwise where neither arrays nor objects are read. -/
theorem Respects.of_none {read : Json → Option α} (array : ∀ items, read (.array items) = none)
    (object : ∀ members, read (.object members) = none) : Respects read := by
  intro j j' rewritten
  cases rewritten with
  | here => exact .of_none (object _)
  | member => exact .of_none (object _)
  | item => exact .of_none (array _)

@[simp] theorem respects_text : Respects text? := .of_none (fun _ => rfl) fun _ => rfl

@[simp] theorem respects_bool : Respects bool? := .of_none (fun _ => rfl) fun _ => rfl

@[simp] theorem respects_word : Respects word? := .of_none (fun _ => rfl) fun _ => rfl

@[simp] theorem respects_index : Respects index? := .of_none (fun _ => rfl) fun _ => rfl

theorem respects_wordOf (words : List String) : Respects (wordOf? words) :=
  .of_none (fun _ => rfl) fun _ => rfl

theorem respects_kind : Respects Kind.decode? := .of_none (fun _ => rfl) fun _ => rfl

/-- The items of an array that is written otherwise are the same, or written otherwise. -/
theorem Rewritten.items {items : List Json} {j' : Json} (rewritten : Rewritten (.array items) j') :
    ∃ items', j' = .array items' ∧ List.Forall₂ Form items items' := by
  cases rewritten with
  | @item before after value value' inner =>
    have same (items : List Json) : List.Forall₂ Form items items :=
      List.forall₂_same.2 fun _ _ => .inl rfl
    exact ⟨_, rfl, List.rel_append (same before) (.cons (.inr inner) (same after))⟩

@[simp] theorem respects_list {read : Json → Option α} (each : Respects read) :
    Respects (list? read) := by
  intro j j' rewritten
  cases j with
  | array items =>
    obtain ⟨items', rfl, forms⟩ := rewritten.items
    rw [list?, list?]
    clear rewritten
    induction forms with
    | nil => exact .refl _
    | cons form _ ih =>
      rw [List.mapM_cons, List.mapM_cons]
      exact (each.form form).bind fun _ => ih.bind fun _ => .refl _
  | _ => exact .of_none rfl

/-- An object that stands for a word has one member. -/
theorem memberTag?_object {members : List (String × Json)} {word : String}
    (is : memberTag? (.object members) = some word) :
    members = [(word, .null)] ∨ members = [(word, .object [])] := by
  rcases members with _ | ⟨⟨name, value⟩, _ | ⟨second, rest⟩⟩
  · cases is
  · cases value with
    | null => exact .inl (by simpa [memberTag?, tag?] using is)
    | object inner =>
      cases inner with
      | nil => exact .inr (by simpa [memberTag?, tag?] using is)
      | cons => cases is
    | _ => cases is
  · simp [memberTag?, tag?] at is

/-- An object that may stand for a word is written in one way only. -/
theorem Rewrites.eq_of_mayBeWord {members others : List (String × Json)}
    (rewrites : Rewrites members others) (isWord : MayBeWord members) : others = members := by
  cases rewrites with
  | reorder reordered =>
    obtain rfl | isSome := isWord
    · exact List.nil_perm.1 reordered
    · obtain ⟨word, is⟩ := Option.isSome_iff_exists.1 isSome
      obtain rfl | rfl := memberTag?_object is
      all_goals exact (List.singleton_perm.1 reordered).symm
  | add _ isNoWord => exact absurd isWord isNoWord

theorem Rewritten.eq_empty {j' : Json} (rewritten : Rewritten (.object []) j') : j' = .object [] := by
  generalize empty : Json.object [] = j at rewritten
  cases rewritten with
  | here changed =>
    cases empty
    rw [changed.eq_of_mayBeWord (.inl rfl)]
  | member => simp at empty
  | item => cases empty

@[simp] theorem respects_memberTag : Respects memberTag? := by
  intro j j' rewritten word is
  cases rewritten with
  | @here members others changed =>
    have isWord : MayBeWord members := .inr (Option.isSome_iff_exists.2 ⟨word, is⟩)
    rw [changed.eq_of_mayBeWord isWord]
    exact is
  | @member before after name value value' inner =>
    -- the only member of the object is null or empty, in which nothing can be written otherwise
    have single {content : Json} (only : before ++ (name, value) :: after = [(word, content)]) :
        before = [] ∧ name = word ∧ value = content ∧ after = [] := by
      obtain ⟨rfl, only⟩ | ⟨-, none⟩ := List.append_eq_singleton_iff.1 only
      · cases only
        exact ⟨rfl, rfl, rfl, rfl⟩
      · cases none
    obtain null | empty := memberTag?_object is
    · obtain ⟨-, -, rfl, -⟩ := single null
      cases inner
    · obtain ⟨-, -, rfl, -⟩ := single empty
      rw [Rewritten.eq_empty inner]
      exact is
  | item => cases is

@[simp] theorem respects_memberNamed (all : List α) (word : α → String) :
    Respects (memberNamed? all word) := by
  intro j j' rewritten
  exact (respects_memberTag rewritten).bind fun _ => .refl _

end Json

end LevelCheck
