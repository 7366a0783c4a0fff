import LevelCheck.Proofs.SimpleNames
set_option autoImplicit false

/-! # What a dotted name may denote

A member of a type of the file is written with dots, `Outer.Inner.Most`, and its class is named with
dollars behind the qualified name of the type. So a dotted name may denote two classes: the one that is
literally named so, and that member. What is written can be told by what a reference may denote, since
no name without dots is tried as that member as well. -/

namespace LevelCheck

/-! ## Texts -/

namespace Text

theorem toList_joinWith (sep first : String) (rest : List String) :
    (joinWith sep (first :: rest)).toList
      = first.toList ++ rest.flatMap fun s => sep.toList ++ s.toList := by
  induction rest generalizing first with
  | nil => simp [joinWith]
  | cons next rest ih =>
    rw [joinWith, String.toList_append, String.toList_append, ih next, List.flatMap_cons,
      List.append_assoc, List.append_assoc]
    exact List.cons_ne_nil next rest

/-- A text is cut where the first separator stands. -/
theorem cutFirst?_separated {sep : Char} {front : String} (absent : sep ∉ front.toList)
    (back : String) :
    cutFirst? sep (front ++ String.singleton sep ++ back) = some (front, back) := by
  have passes : ∀ c ∈ front.toList, (c != sep) = true := fun c isIn =>
    bne_iff_ne.2 fun is => absent (is ▸ isIn)
  have text : (front ++ String.singleton sep ++ back).toList = front.toList ++ sep :: back.toList := by
    simp
  have drops : (sep :: back.toList).dropWhile (· != sep) = sep :: back.toList := by simp
  have takes : (sep :: back.toList).takeWhile (· != sep) = [] := by simp
  rw [cutFirst?, text, List.dropWhile_append_of_pos passes, List.takeWhile_append_of_pos passes,
    drops, takes]
  simp

/-- What follows the last separator is no longer than what follows the first. -/
theorem length_afterLast_le {sep : Char} {text front back : String}
    (cut : cutFirst? sep text = some (front, back)) :
    (afterLast sep text).toList.length ≤ back.toList.length := by
  rw [cutFirst?] at cut
  split at cut
  · cases cut
  · next c rest dropped =>
    obtain ⟨-, rfl⟩ := Prod.mk.inj (Option.some.inj cut)
    have isSep : c = sep := by
      have stops := List.head?_dropWhile_not (· != sep) text.toList
      rw [dropped] at stops
      simpa using stops
    have split : text.toList = text.toList.takeWhile (· != sep) ++ sep :: rest := by
      rw [isSep] at dropped
      rw [← dropped, List.takeWhile_append_dropWhile]
    rw [afterLast, split]
    simp only [String.toList_ofList, List.length_reverse, List.reverse_append, List.reverse_cons,
      List.append_assoc, List.singleton_append]
    rw [List.takeWhile_append]
    split
    · simp
    · exact (List.takeWhile_sublist _).length_le.trans (List.length_reverse).le

theorem replaceFrom_single (c d : Char) (text : List Char) :
    replaceFrom [c] [d] 0 text = text.map fun x => if x = c then d else x := by
  induction text with
  | nil => rfl
  | cons x rest ih =>
    rw [replaceFrom, List.map_cons]
    by_cases is : x = c
    · subst is
      simp [ih]
    · have other : [c].isPrefixOf (x :: rest) = false := by
        rw [List.isPrefixOf, beq_eq_false_iff_ne.2 (Ne.symm is), Bool.false_and]
      rw [other, if_neg Bool.false_ne_true, if_neg is, ih]

theorem toList_replace_single (c d : Char) (text : String) :
    (replace (String.singleton c) (String.singleton d) text).toList
      = text.toList.map fun x => if x = c then d else x := by
  rw [replace, String.toList_ofList, String.toList_singleton, String.toList_singleton,
    replaceFrom_single]

theorem trim_eq_self {text : String} (noBlank : ∀ c ∈ text.toList, isBlank c = false) :
    trim text = text := by
  have keeps {cs : List Char} (noBlank : ∀ c ∈ cs, isBlank c = false) :
      cs.dropWhile isBlank = cs := by
    cases cs with
    | nil => rfl
    | cons c rest =>
      rw [List.dropWhile_cons, noBlank c List.mem_cons_self, if_neg Bool.false_ne_true]
  rw [trim, keeps noBlank, dropEndWhile,
    keeps fun c isIn => noBlank c (List.mem_reverse.1 isIn), List.reverse_reverse,
    String.ofList_toList]

end Text

/-! ## Dotted names -/

/-- The text can stand as one part of a dotted name: nothing in it ends a part, and nothing in it ends
the name of a written type. -/
def IsNamePart (name : String) : Prop :=
  ∀ c ∈ name.toList, c ≠ '.' ∧ c ≠ '<' ∧ c ≠ '[' ∧ Text.isBlank c = false

instance (name : String) : Decidable (IsNamePart name) :=
  -- the characters of the name are looked at, and not every character there is
  decidable_of_iff (name.toList.all fun c => c != '.' && c != '<' && c != '[' && !Text.isBlank c) <| by
    simp [IsNamePart, and_assoc]

theorem IsNamePart.noDot {name : String} (isPart : IsNamePart name) : '.' ∉ name.toList :=
  fun isIn => (isPart _ isIn).1 rfl

/-- The name that a member of a type is written by: the type, and the classes from there down to the
member. -/
def dottedName (top : String) (members : List String) : String := Text.joinWith "." (top :: members)

/-- The class that is reached from a class by the names of its members, one in the other. -/
def nestedName (outer : String) (members : List String) : String :=
  members.foldl Resolution.memberName outer

theorem toList_dottedName (top : String) (members : List String) :
    (dottedName top members).toList
      = top.toList ++ members.flatMap fun name => '.' :: name.toList :=
  Text.toList_joinWith "." top members

theorem toList_nestedName (outer : String) (members : List String) :
    (nestedName outer members).toList
      = outer.toList ++ members.flatMap fun name => '$' :: name.toList := by
  induction members generalizing outer with
  | nil => simp [nestedName]
  | cons name rest ih =>
    rw [show nestedName outer (name :: rest) = nestedName (Resolution.memberName outer name) rest from
      rfl, ih, Resolution.memberName_eq]
    simp

theorem nestedName_concat (outer : String) (members : List String) (name : String) :
    nestedName outer (members ++ [name]) = Resolution.memberName (nestedName outer members) name := by
  simp [nestedName]

section

variable {top : String} {members : List String} (areParts : ∀ name ∈ top :: members, IsNamePart name)
include areParts

/-- A written type is cut off where its arguments or brackets start. -/
theorem baseTypeName_dottedName {arguments : String}
    (apart : ∀ c ∈ arguments.toList.head?, c = '<' ∨ c = '[') :
    baseTypeName (dottedName top members ++ arguments) = dottedName top members := by
  have inName : ∀ c ∈ (dottedName top members).toList,
      c ≠ '<' ∧ c ≠ '[' ∧ Text.isBlank c = false := by
    intro c isIn
    rw [toList_dottedName, List.mem_append, List.mem_flatMap] at isIn
    rcases isIn with isTop | ⟨name, isMember, isIn⟩
    · exact (areParts top List.mem_cons_self c isTop).2
    · rcases List.mem_cons.1 isIn with rfl | isIn
      · decide
      · exact (areParts name (List.mem_cons_of_mem _ isMember) c isIn).2
  have passes : ∀ c ∈ (dottedName top members).toList, (c != '<' && c != '[') = true := by
    intro c isIn
    obtain ⟨noArguments, noBrackets, -⟩ := inName c isIn
    simp [noArguments, noBrackets]
  have stops : arguments.toList.takeWhile (fun c => c != '<' && c != '[') = [] := by
    cases is : arguments.toList with
    | nil => rfl
    | cons c rest =>
      rcases apart c (by rw [is]; rfl) with rfl | rfl <;> rfl
  rw [baseTypeName, String.toList_append, List.takeWhile_append_of_pos passes, stops, List.append_nil,
    String.ofList_toList]
  exact Text.trim_eq_self fun c isIn => (inName c isIn).2.2

/-- A member is written with dots where its class is named with dollars. -/
theorem memberName_replace (outer : String) :
    Resolution.memberName outer (Text.replace "." "$" (dottedName top members))
      = nestedName outer (top :: members) := by
  have plain : ∀ name ∈ top :: members,
      name.toList.map (fun c => if c = '.' then '$' else c) = name.toList := by
    intro name isPart
    refine (List.map_congr_left fun c isIn => ?_).trans (List.map_id _)
    exact if_neg (areParts name isPart c isIn).1
  have replaced : (Text.replace "." "$" (dottedName top members)).toList
      = (dottedName top members).toList.map fun c => if c = '.' then '$' else c :=
    Text.toList_replace_single '.' '$' _
  refine String.toList_inj.1 ?_
  rw [toList_nestedName, Resolution.memberName, String.toList_append, String.toList_append, replaced,
    toList_dottedName, List.map_append, plain top List.mem_cons_self, List.map_flatMap,
    List.flatMap_cons, List.append_assoc]
  refine congrArg (fun rest => outer.toList ++ '$' :: (top.toList ++ rest))
    (List.flatMap_congr fun name isMember => ?_)
  rw [List.map_cons, if_pos rfl, plain name (List.mem_cons_of_mem _ isMember)]

end

/-! ## Candidates -/

namespace Resolution

variable {t : SymbolTable} {f : FileScope} {enclosing : Option SymbolId} {name : String}

theorem isDotted_iff : isDotted name = true ↔ '.' ∈ name.toList := List.contains_iff_mem

theorem isDotted_dottedName (top first : String) (rest : List String) :
    isDotted (dottedName top (first :: rest)) = true :=
  isDotted_iff.2 (by simp [toList_dottedName])

section

variable (dotted : isDotted name = true)
include dotted

theorem waitingName_of_isDotted : waitingName f name = name := by rw [waitingName, if_pos dotted]

/-- A dotted name is tried as it is, and as a member of the type that stands before its first dot. -/
theorem mem_names_of_isDotted {c : String} : c ∈ names t f enclosing name ↔ c = name
    ∨ ∃ front back outer, Text.cutFirst? '.' name = some (front, back) ∧ f.class? front = some outer
      ∧ c = memberName outer (Text.replace "." "$" back) := by
  have notPrimitive : Builtin.isPrimitive name = false := by
    have noDot : ∀ primitive ∈ Builtin.primitives, '.' ∉ primitive.toList := by decide
    exact Bool.eq_false_iff.2 fun primitive =>
      noDot name (List.contains_iff_mem.1 primitive) (isDotted_iff.1 dotted)
  rw [names, notPrimitive, Bool.false_and, if_neg Bool.false_ne_true, candidates, dotted, if_pos rfl,
    List.mem_eraseDups, dottedCandidates, List.mem_cons]
  cases cut : Text.cutFirst? '.' name with
  | none => simp
  | some parts =>
    obtain ⟨front, back⟩ := parts
    cases found : f.class? front with
    | none => simp [found]
    | some outer => simp [found]

/-- What is tried for a dotted name and waits under it is that name: the class of a member is named with
more than what follows the last dot. -/
theorem eq_of_waitingName {g : FileScope} {other : String} (waits : waitingName g other = name)
    (tried : other ∈ names t f enclosing name) : other = name := by
  by_cases isDotted' : isDotted other = true
  · rwa [waitingName_of_isDotted isDotted'] at waits
  · have noDot : '.' ∉ other.toList := fun isIn => isDotted' (isDotted_iff.2 isIn)
    have ends : Text.afterLast '.' name = other := by
      rw [waitingName, if_neg isDotted'] at waits
      split at waits
      · next i found =>
        rw [← waits]
        simpa using List.find?_some found
      · rw [← waits]
        exact g.simpleName_qualify noDot
    rcases (mem_names_of_isDotted dotted).1 tried with is | ⟨front, back, outer, cut, -, is⟩
    · exact is
    · have shorter := Text.length_afterLast_le cut
      have same : (Text.replace "." "$" back).toList.length = back.toList.length := by
        rw [show Text.replace "." "$" back
          = Text.replace (String.singleton '.') (String.singleton '$') back from rfl,
          Text.toList_replace_single, List.length_map]
      have longer := congrArg (·.toList.length) (ends.trans is)
      simp only [memberName, String.toList_append, List.length_append, same] at longer
      have dollar : ("$").toList.length = 1 := rfl
      omega

end

/-- A member is tried under the name that is written, and as the class that it is in its file. -/
theorem mem_names_dottedName {top outer : String} {members : List String} (isMember : members ≠ [])
    (areParts : ∀ name ∈ top :: members, IsNamePart name) (declared : f.class? top = some outer)
    {c : String} : c ∈ names t f enclosing (dottedName top members)
      ↔ c = dottedName top members ∨ c = nestedName outer members := by
  obtain ⟨first, rest, rfl⟩ := List.exists_cons_of_ne_nil isMember
  have cut : Text.cutFirst? '.' (dottedName top (first :: rest))
      = some (top, dottedName first rest) :=
    Text.cutFirst?_separated (areParts top List.mem_cons_self).noDot _
  have member := memberName_replace (fun name isIn => areParts name (List.mem_cons_of_mem _ isIn)) outer
  rw [mem_names_of_isDotted (isDotted_dottedName top first rest), cut]
  refine or_congr_right ⟨?_, fun is => ⟨top, _, outer, rfl, declared, is.trans member.symm⟩⟩
  rintro ⟨front, back, outer', same, declared', rfl⟩
  obtain ⟨rfl, rfl⟩ := Prod.mk.inj (Option.some.inj same)
  obtain rfl := Option.some.inj (declared.symm.trans declared')
  exact member

end Resolution

/-! ## The types of a file -/

/-- The qualified name of a type at the top level of a file of the package. -/
def packagedName (package simple : String) : String :=
  if package.isEmpty then simple else package ++ "." ++ simple

namespace FileScope

/-- The file is in the package, and knows the type of its own by its simple name. -/
structure Declares (f : FileScope) (package simple : String) : Prop where
  inPackage : f.package = package
  known : f.class? simple = some (packagedName package simple)

variable {f : FileScope} {package : String} {simple : String}

theorem qualify_of_package (is : f.package = package) (simple : String) :
    f.qualify simple = packagedName package simple := by
  rw [qualify, is, packagedName]

theorem class?_declareClass (f : FileScope) (simple other : String) :
    (f.declareClass simple).class? other
      = if other = simple then some (f.qualify simple) else f.class? other := by
  rw [class?, class?, declareClass, List.find?_append, List.find?_filter]
  by_cases is : other = simple
  · subst is
    have none : f.classes.find? (fun a => decide (((a.1 != other) = true) ∧ (a.1 == other) = true))
        = none := by simp
    rw [none, if_pos rfl]
    simp
  · have same : f.classes.find? (fun a => decide (((a.1 != simple) = true) ∧ (a.1 == other) = true))
        = f.classes.find? (·.1 == other) := by
      refine congrArg (List.find? · f.classes) (funext fun a => ?_)
      by_cases here : a.1 = other
      · simp [here, is]
      · simp [here]
    rw [same, if_neg is]
    simp [Ne.symm is]

/-- After its header has been read, a file knows the types that the header lists. -/
theorem declares_header {types : List String} (listed : simple ∈ types) (f : FileScope)
    (package : Option String) (imports : List ImportDecl) :
    (types.foldl declareClass (f.recordHeader package imports)).Declares (package.getD "") simple := by
  refine ⟨f.header_package types package imports, ?_⟩
  have inPackage : (f.recordHeader package imports).package = package.getD "" :=
    f.header_package [] package imports
  generalize f.recordHeader package imports = g at *
  -- once a type is declared, it stays so
  suffices known : simple ∈ types ∨ g.class? simple = some (packagedName (package.getD "") simple) →
      (types.foldl declareClass g).class? simple = some (packagedName (package.getD "") simple) from
    known (.inl listed)
  clear listed
  induction types generalizing g with
  | nil => exact fun known => known.resolve_left List.not_mem_nil
  | cons first rest ih =>
    intro known
    refine ih (g.declareClass first) inPackage ?_
    rw [class?_declareClass]
    by_cases is : simple = first
    · rw [if_pos is, qualify_of_package inPackage, is]
      exact .inr rfl
    · rw [if_neg is]
      exact known.imp_left fun isIn => (List.mem_cons.1 isIn).resolve_left is

end FileScope

/-! ## References -/

/-- The reference is for a type that is written so: by the name, which type arguments or array brackets
may follow. -/
def Reference.IsWrittenAs (r : Reference) (name : String) : Prop :=
  ∃ (arguments : String) (cx : Context) (f : FileScope) (scope : Option ScopeRef),
    (∀ c ∈ arguments.toList.head?, c = '<' ∨ c = '[')
      ∧ r = cx.reference f r.file scope (baseTypeName (name ++ arguments)) r.position r.link

namespace Context

variable {cx : Context} {f : FileScope} {file : FileId} {scope : Option ScopeRef} {base : String}
  {pos : Position} {link : Link} {top : String} {members : List String} (isMember : members ≠ [])
  (areParts : ∀ name ∈ top :: members, IsNamePart name)
include isMember areParts

/-- Whether a member is written for a type is told by the reference. -/
theorem isWrittenAs_iff : (cx.reference f file scope base pos link).IsWrittenAs (dottedName top members)
    ↔ base = dottedName top members := by
  constructor
  · rintro ⟨arguments, cx', f', scope', apart, same⟩
    rw [baseTypeName_dottedName areParts apart] at same
    obtain ⟨first, rest, rfl⟩ := List.exists_cons_of_ne_nil isMember
    have dotted := Resolution.isDotted_dottedName top first rest
    have key : Resolution.waitingName f base = dottedName top (first :: rest) :=
      (congrArg Reference.key same).trans (Resolution.waitingName_of_isDotted dotted)
    have tried : base ∈ Resolution.names cx'.table f' (scope'.map cx'.table.enclosingSymbol)
        (dottedName top (first :: rest)) := by
      have candidates := congrArg Reference.candidates same
      exact (congrArg (base ∈ ·) candidates).mp Resolution.self_mem_names
    exact Resolution.eq_of_waitingName dotted key tried
  · rintro rfl
    have apart : ∀ c ∈ "".toList.head?, c = '<' ∨ c = '[' := by simp
    refine ⟨"", cx, f, scope, apart, ?_⟩
    rw [baseTypeName_dottedName areParts apart]
    rfl

end Context

/-- The reference is looked for in a file of the package that knows the type. -/
def Reference.Knows (r : Reference) (package simple : String) : Prop :=
  ∃ (cx : Context) (f : FileScope) (scope : Option ScopeRef) (base : String),
    f.Declares package simple ∧ r = cx.reference f r.file scope base r.position r.link

/-- A member that is written with dots is looked for under the dotted name, and as the class that it is
in its file. -/
theorem Reference.Knows.candidates {r : Reference} {package top : String} {members : List String}
    (knows : r.Knows package top) (isMember : members ≠ [])
    (areParts : ∀ name ∈ top :: members, IsNamePart name)
    (isWritten : r.IsWrittenAs (dottedName top members)) : r.key = dottedName top members
      ∧ ∀ c, c ∈ r.candidates ↔ c = dottedName top members
        ∨ c = nestedName (packagedName package top) members := by
  obtain ⟨cx, f, scope, base, declares, is⟩ := knows
  rw [is] at isWritten
  obtain rfl := (Context.isWrittenAs_iff isMember areParts).1 isWritten
  rw [is]
  refine ⟨?_, fun c => Resolution.mem_names_dottedName isMember areParts declares.known⟩
  obtain ⟨first, rest, rfl⟩ := List.exists_cons_of_ne_nil isMember
  exact Resolution.waitingName_of_isDotted (Resolution.isDotted_dottedName top first rest)

end LevelCheck
