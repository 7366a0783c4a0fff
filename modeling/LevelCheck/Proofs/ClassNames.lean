import LevelCheck.Proofs.Surroundings
set_option autoImplicit false

/-! # How classes are named

A class at file scope is named by its package and its simple name, a member by the class around it and
its simple name, and a class in a body or an anonymous one by the class around it and a number. The
parts are put together without quoting, so a name tells them apart only as long as the parts hold no
separator and no simple name starts with a digit. -/

namespace LevelCheck

/-! ## Cutting a name -/

namespace Text

theorem afterLast_append {sep : Char} (front : String) {back : String} (absent : sep ∉ back.toList) :
    afterLast sep (front ++ back) = afterLast sep front ++ back := by
  have passes : ∀ c ∈ back.toList.reverse, (c != sep) = true := fun c isIn =>
    bne_iff_ne.2 fun is => absent (is ▸ List.mem_reverse.1 isIn)
  rw [afterLast, String.toList_append, List.reverse_append, List.takeWhile_append_of_pos passes,
    List.reverse_append, List.reverse_reverse, String.ofList_append, String.ofList_toList, afterLast]

theorem afterLast_of_absent {sep : Char} {text : String} (absent : sep ∉ text.toList) :
    afterLast sep text = text := by
  have cut := afterLast_append "" absent
  rwa [String.empty_append, show afterLast sep "" = "" from rfl, String.empty_append] at cut

/-- What follows a separator is cut off at it, if it holds no other. -/
theorem afterLast_separated {sep : Char} (front : String) {back : String}
    (absent : sep ∉ back.toList) : afterLast sep (front ++ String.singleton sep ++ back) = back := by
  have here : afterLast sep (front ++ String.singleton sep) = "" := by
    simp [afterLast]
  rw [afterLast_append _ absent, here, String.empty_append]

theorem beforeLast_separated {sep : Char} (front : String) {back : String}
    (absent : sep ∉ back.toList) : beforeLast sep (front ++ String.singleton sep ++ back) = front := by
  have passes : ∀ c ∈ back.toList.reverse, (c != sep) = true := fun c isIn =>
    bne_iff_ne.2 fun is => absent (is ▸ List.mem_reverse.1 isIn)
  rw [beforeLast, String.toList_append, List.reverse_append, List.dropWhile_append_of_pos passes]
  simp

theorem beforeLast_of_absent {sep : Char} {text : String} (absent : sep ∉ text.toList) :
    beforeLast sep text = "" := by
  have passes : ∀ c ∈ text.toList.reverse, (c != sep) = true := fun c isIn =>
    bne_iff_ne.2 fun is => absent (is ▸ List.mem_reverse.1 isIn)
  have all : (text.toList.reverse ++ []).dropWhile (· != sep) = [] :=
    List.dropWhile_append_of_pos passes
  rw [List.append_nil] at all
  rw [beforeLast, all]
  rfl

end Text

/-! ## Own names -/

/-- The text holds no separator of the parts of a qualified name, and does not start with a digit. -/
structure IsPlainName (name : String) : Prop where
  noDollar : '$' ∉ name.toList
  noDot : '.' ∉ name.toList
  noDigit : ∀ c ∈ name.toList.head?, c.isDigit = false

instance (name : String) : Decidable (IsPlainName name) :=
  -- the first character is looked at, and not every character there is
  decidable_of_iff ('$' ∉ name.toList ∧ '.' ∉ name.toList
      ∧ name.toList.head?.all (fun c => !c.isDigit) = true) <| by
    have first : name.toList.head?.all (fun c => !c.isDigit) = true
        ↔ ∀ c ∈ name.toList.head?, c.isDigit = false := by
      cases name.toList.head? <;> simp
    rw [first]
    exact ⟨fun ⟨noDollar, noDot, noDigit⟩ => ⟨noDollar, noDot, noDigit⟩,
      fun plain => ⟨plain.noDollar, plain.noDot, plain.noDigit⟩⟩

/-- The own name of a class in a body: its number, and its simple name unless it is anonymous. -/
def numberedName (n : Nat) (simple : String) : String := toString n ++ simple

theorem numberedName_toList (n : Nat) (simple : String) :
    (numberedName n simple).toList = Nat.toDigits 10 n ++ simple.toList := by
  rw [numberedName, String.toList_append]
  exact congrArg (· ++ simple.toList) String.toList_ofList

theorem isDigit_of_mem_number {n : Nat} {c : Char} (isIn : c ∈ Nat.toDigits 10 n) : c.isDigit :=
  Nat.isDigit_of_mem_toDigits (by decide) (by decide) isIn

/-- A number adds no separator. -/
theorem not_mem_numberedName {sep : Char} (notDigit : sep.isDigit = false) {n : Nat} {simple : String}
    (absent : sep ∉ simple.toList) : sep ∉ (numberedName n simple).toList := by
  rw [numberedName_toList, List.mem_append]
  rintro (isIn | isIn)
  · rw [isDigit_of_mem_number isIn] at notDigit
    cases notDigit
  · exact absent isIn

namespace IsPlainName

variable {simple other : String} (plain : IsPlainName simple)
include plain

/-- A numbered name starts with its number, which can be read off. -/
theorem digits_numberedName (n : Nat) :
    (numberedName n simple).toList.takeWhile Char.isDigit = Nat.toDigits 10 n := by
  have none : simple.toList.takeWhile Char.isDigit = [] := by
    have noDigit := plain.noDigit
    cases is : simple.toList with
    | nil => rfl
    | cons c rest =>
      rw [is] at noDigit
      rw [List.takeWhile_cons, noDigit c rfl]
      rfl
  rw [numberedName_toList, List.takeWhile_append_of_pos fun c => isDigit_of_mem_number, none,
    List.append_nil]

theorem number_inj (plain' : IsPlainName other) {n m : Nat}
    (same : numberedName n simple = numberedName m other) : n = m := by
  have digits := plain.digits_numberedName n
  rw [same, plain'.digits_numberedName m] at digits
  have read := congrArg (Nat.ofDigitChars 10 · 0) digits
  rw [Nat.ofDigitChars_ten_toDigits, Nat.ofDigitChars_ten_toDigits] at read
  exact read.symm

/-- A plain name is not a numbered one. -/
theorem ne_numberedName (n : Nat) : simple ≠ numberedName n other := by
  intro same
  have noDigit := plain.noDigit
  rw [same, numberedName_toList] at noDigit
  cases is : Nat.toDigits 10 n with
  | nil => exact Nat.toDigits_ne_nil is
  | cons c rest =>
    rw [is] at noDigit
    have digit := isDigit_of_mem_number (n := n) (c := c) (by rw [is]; exact List.mem_cons_self)
    rw [noDigit c rfl] at digit
    cases digit

end IsPlainName

/-! ## Qualified names -/

namespace Resolution

theorem memberName_eq (outer own : String) :
    memberName outer own = outer ++ String.singleton '$' ++ own := rfl

/-- A name in a class gives the class and the own name away, if the own name holds no separator. -/
theorem memberName_inj {outer outer' own own' : String} (plain : '$' ∉ own.toList)
    (plain' : '$' ∉ own'.toList) (same : memberName outer own = memberName outer' own') :
    outer = outer' ∧ own = own' := by
  rw [memberName_eq, memberName_eq] at same
  constructor
  · have front := congrArg (Text.beforeLast '$') same
    rwa [Text.beforeLast_separated _ plain, Text.beforeLast_separated _ plain'] at front
  · have back := congrArg (Text.afterLast '$') same
    rwa [Text.afterLast_separated _ plain, Text.afterLast_separated _ plain'] at back

theorem dollar_mem_memberName (outer own : String) : '$' ∈ (memberName outer own).toList := by
  simp [memberName]

end Resolution

namespace Symbol

variable {s : Symbol} {own : String}

/-- The constructors of a class in a class carry its own name. -/
theorem constructorName_member {outer : String} (named : s.name = Resolution.memberName outer own)
    (noDollar : '$' ∉ own.toList) (noDot : '.' ∉ own.toList) : s.constructorName = own := by
  have absent : '.' ∉ (String.singleton '$' ++ own).toList := by simpa using noDot
  rw [constructorName, simpleName, named, Resolution.memberName_eq, String.append_assoc,
    Text.afterLast_append _ absent, ← String.append_assoc, Text.afterLast_separated _ noDollar]

end Symbol

namespace FileScope

variable (f : FileScope) {simple : String} (noDot : '.' ∉ simple.toList)
include noDot

/-- A type at file scope has the package of its file and its simple name. -/
theorem package_qualify : Text.beforeLast '.' (f.qualify simple) = f.package := by
  rw [qualify]
  split
  · next isEmpty =>
    rw [Text.beforeLast_of_absent noDot]
    exact (String.isEmpty_iff.1 isEmpty).symm
  · exact Text.beforeLast_separated f.package noDot

theorem simpleName_qualify : Text.afterLast '.' (f.qualify simple) = simple := by
  rw [qualify]
  split
  · exact Text.afterLast_of_absent noDot
  · exact Text.afterLast_separated f.package noDot

end FileScope

end LevelCheck
