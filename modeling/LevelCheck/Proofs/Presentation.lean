import LevelCheck.Proofs.Rewriting
set_option autoImplicit false

/-! # The presentation of trees

What is read of a tree does not depend on how it is written. Any object in it may be written otherwise, and
each object of the format has names, defaults and forms of its own (a record format): members under other
names are passed over, and members that say what holds anyway may be left out. A change of either sort
keeps what is found under each name, and every reader is a row of readings under names. -/

namespace LevelCheck

/-! ## Changes within objects of the format -/

namespace Json

/-- One item of an array is changed. -/
inductive ByItem (change : Json → Json → Prop) : Json → Json → Prop where
  | array {before after : List Json} {value value' : Json} (changed : change value value') :
      ByItem change (.array (before ++ value :: after)) (.array (before ++ value' :: after))

/-- The members of the object are changed. -/
inductive ByMembers (change : List (String × Json) → List (String × Json) → Prop) :
    Json → Json → Prop where
  | object {members others : List (String × Json)} (changed : change members others) :
      ByMembers change (.object members) (.object others)

end Json

/-- How the members of an object are read. -/
structure RecordFormat where
  /-- The members that are read; all others are passed over. -/
  names : List String
  /-- What a member says that may as well be left out. -/
  isDefault : String → Json → Prop := fun _ _ => False
  /-- How else the value of a member may be written. -/
  restyled : String → Json → Json → Prop := fun _ _ _ => False
  /-- The values of members that are passed over. -/
  fits : Json → Prop

/-- The members are written otherwise, as the format has it: with one more that is passed over, without
one that says what holds anyway, or with another form of the value of the first. -/
inductive RecordFormat.Restyled (f : RecordFormat) :
    List (String × Json) → List (String × Json) → Prop where
  | add {members : List (String × Json)} {name : String} {value : Json} (unknown : name ∉ f.names)
      (allowed : f.fits value) : Restyled f members ((name, value) :: members)
  | leaveOut {members : List (String × Json)} {name : String} {value : Json}
      (default : f.isDefault name value) : Restyled f ((name, value) :: members) members
  | known {members : List (String × Json)} {name : String} {value value' : Json}
      (inner : f.restyled name value value') :
      Restyled f ((name, value) :: members) ((name, value') :: members)
  | unknown {members : List (String × Json)} {name : String} {value value' : Json}
      (unknown : name ∉ f.names) (inner : Json.Within (Json.Adds f.fits) value value') :
      Restyled f ((name, value) :: members) ((name, value') :: members)

/-! ## The objects of the format -/

/-- The object of a position, of which members that are passed over are not read at all. -/
def Position.format : RecordFormat where
  names := ["line", "column"]
  fits j := j.isScalar = true

/-- The object of an import. -/
def ImportDecl.format : RecordFormat where
  names := ["name", "on_demand"]
  isDefault name value := name = "on_demand" ∧ value = .bool false
  fits := Json.IsSoundScalar

/-- The object of a literal. -/
def Literal.format : RecordFormat where
  names := ["type", "value"]
  isDefault name value := name = "value" ∧ value = .null
  fits := Json.IsSoundScalar

/-- The members of a node that may be left out, with what they hold then. -/
def Kind.defaults : Kind → List (String × Json)
  | .sourceFile => [("package", .null), ("imports", .array [])]
  | .classDef =>
    [("modifiers", .array []), ("type_params", .array []), ("superclass", .null),
      ("interfaces", .array [])]
  | .interfaceDef =>
    [("modifiers", .array []), ("type_params", .array []), ("extends", .array [])]
  | .methodDef =>
    [("modifiers", .array []), ("type_params", .array []), ("throws", .array []), ("body", .null)]
  | .constructorDef => [("modifiers", .array []), ("throws", .array [])]
  | .formalParameter => [("is_final", .bool false)]
  | .variableDeclaration => [("modifiers", .array [])]
  | .variableDeclarator => [("initializer", .null)]
  | .tryCatch => [("finally_block", .null)]
  | .returnStatement => [("value", .null)]
  | .ifStatement => [("else_branch", .null)]
  | .forStatement => [("init", .array []), ("condition", .null), ("update", .array [])]
  | .methodInvocation => [("receiver", .null)]
  | .thisReference => [("qualifier", .null)]
  | .instantiation => [("outer", .null)]
  | .anonymousClass => [("outer", .null)]
  | _ => []

/-- A position is written otherwise. -/
def Position.Restyled : Json → Json → Prop := Json.ByMembers Position.format.Restyled

/-- An import is written otherwise. -/
def ImportDecl.Restyled : Json → Json → Prop := Json.ByMembers ImportDecl.format.Restyled

/-- A literal is written otherwise. -/
def Literal.Restyled : Json → Json → Prop := Json.ByMembers Literal.format.Restyled

/-- The object of a node of the kind. A position that is nowhere need not be written. -/
def Node.format (k : Kind) : RecordFormat where
  names := "pos" :: "kind" :: k.memberNames
  isDefault name value :=
    name = "pos" ∧ Position.decode? value = some .nowhere ∨ (name, value) ∈ k.defaults
  restyled name value value' :=
    name = "pos" ∧ Position.Restyled value value'
      ∨ k = .sourceFile ∧ name = "imports" ∧ Json.ByItem ImportDecl.Restyled value value'
      ∨ k = .literal ∧ name = "value" ∧ Literal.Restyled value value'
  fits := Json.IsSoundScalar

/-- A node is written otherwise. Its kind says which of its members are read. -/
inductive Node.Restyled : Json → Json → Prop where
  | object {members others : List (String × Json)} {k : Kind}
      (kind : Json.required members "kind" Kind.decode? = some k)
      (changed : (Node.format k).Restyled members others) :
      Restyled (.object members) (.object others)

/-- A node of the arena is written otherwise. -/
def Arena.Restyled : Json → Json → Prop := Json.ByItem Node.Restyled

/-- The object of a tree. -/
def SyntaxTree.format : RecordFormat where
  names := ["file_name", "arena", "root"]
  restyled name value value' := name = "arena" ∧ Arena.Restyled value value'
  fits j := j.isScalar = true

/-- A tree is written otherwise in one of its objects: in any, or in one of the format, of a tree that
is an object or a list. -/
inductive SyntaxTree.Restyled : Json → Json → Prop where
  | anywhere {j j' : Json} (rewritten : Json.Rewritten j j') : Restyled j j'
  | object {members others : List (String × Json)} (changed : format.Restyled members others) :
      Restyled (.object members) (.object others)
  | list {fileName arena arena' root : Json} (changed : Arena.Restyled arena arena') :
      Restyled (.array [fileName, arena, root]) (.array [fileName, arena', root])

/-! ## Values read whole -/

namespace Json

theorem ByItem.keepsSound {change : Json → Json → Prop} (each : KeepsSound change) :
    KeepsSound (ByItem change) := by
  rintro _ _ ⟨changed⟩ limit sound
  rw [isSound_array_iff, List.forall_mem_append, List.forall_mem_cons] at sound ⊢
  exact ⟨sound.1, sound.2.1, each changed _ sound.2.2.1, sound.2.2.2⟩

end Json

/-- What holds of all members of a record still holds of them when they are written otherwise. -/
theorem RecordFormat.Restyled.forall_mem {f : RecordFormat} {P : String × Json → Prop}
    {members others : List (String × Json)} (restyled : f.Restyled members others)
    (added : ∀ name value, f.fits value → P (name, value))
    (known : ∀ name value value', f.restyled name value value' → P (name, value) → P (name, value'))
    (unknown : ∀ name value value', Json.Within (Json.Adds f.fits) value value' → P (name, value) →
      P (name, value'))
    (each : ∀ m ∈ members, P m) : ∀ m ∈ others, P m := by
  cases restyled with
  | add _ allowed => exact List.forall_mem_cons.2 ⟨added _ _ allowed, each⟩
  | leaveOut => exact (List.forall_mem_cons.1 each).2
  | known inner =>
    obtain ⟨first, others⟩ := List.forall_mem_cons.1 each
    exact List.forall_mem_cons.2 ⟨known _ _ _ inner first, others⟩
  | unknown _ inner =>
    obtain ⟨first, others⟩ := List.forall_mem_cons.1 each
    exact List.forall_mem_cons.2 ⟨unknown _ _ _ inner first, others⟩

theorem Json.ByMembers.keepsSound {f : RecordFormat} (fits : f.fits = IsSoundScalar)
    (known : ∀ name, KeepsSound (f.restyled name)) : KeepsSound (ByMembers f.Restyled) := by
  rintro _ _ ⟨changed⟩ limit sound
  have unknown : KeepsSound (Within (Adds f.fits)) := by
    rw [fits]
    exact Within.keepsSound Adds.keepsMembers
  rw [isSound_object_iff] at sound ⊢
  refine ⟨sound.1, changed.forall_mem (P := fun m => m.2.isSound (limit - 1) = true) ?_ ?_ ?_ sound.2⟩
  · exact fun name value allowed => (fits ▸ allowed : IsSoundScalar value).isSound _
  · exact fun name value value' inner => known name inner _
  · exact fun name value value' inner => unknown inner _

theorem ImportDecl.Restyled.keepsSound : Json.KeepsSound ImportDecl.Restyled :=
  Json.ByMembers.keepsSound rfl fun _ _ _ => False.elim

theorem Literal.Restyled.keepsSound : Json.KeepsSound Literal.Restyled :=
  Json.ByMembers.keepsSound rfl fun _ _ _ => False.elim

namespace Node

theorem isReadable_object_iff {members : List (String × Json)} : isReadable (.object members) = true
    ↔ ∀ m ∈ members, m.1 = "pos" ∨ m.2.isSound Json.memberNesting = true := by
  simp only [isReadable, List.all_eq_true, Bool.or_eq_true, beq_iff_eq]

theorem Restyled.isReadable {j j' : Json} (restyled : Node.Restyled j j')
    (readable : Node.isReadable j = true) : Node.isReadable j' = true := by
  obtain ⟨-, changed⟩ := restyled
  rw [isReadable_object_iff] at readable ⊢
  refine changed.forall_mem ?_ ?_ ?_ readable
  · exact fun name value allowed => .inr (allowed.isSound _)
  · rintro name value value' (⟨rfl, -⟩ | ⟨-, -, inner⟩ | ⟨-, -, inner⟩) sound
    · exact .inl rfl
    · exact sound.imp_right (Json.ByItem.keepsSound ImportDecl.Restyled.keepsSound inner _)
    · exact sound.imp_right (Literal.Restyled.keepsSound inner _)
  · exact fun name value value' inner sound =>
      sound.imp_right (Json.Within.keepsSound Json.Adds.keepsMembers inner _)

theorem isReadable_of_rewritten {j j' : Json} (rewritten : j.Rewritten j')
    (readable : isReadable j = true) : isReadable j' = true := by
  cases rewritten with
  | here changed =>
    rw [isReadable_object_iff] at readable ⊢
    exact Json.Rewrites.keepsMembers changed _ (fun _ _ allowed => .inr (allowed.isSound _)) readable
  | member inner =>
    rw [isReadable_object_iff, List.forall_mem_append, List.forall_mem_cons] at readable ⊢
    refine ⟨readable.1, ?_, readable.2.2⟩
    exact readable.2.1.imp_right (Json.Rewritten.keepsSound inner _)
  | item => cases readable

end Node

/-! ## What is found under a name -/

namespace RecordFormat

open Json

/-- What is found under a name when members are written otherwise: nothing still, the same value or
one of its other forms, or nothing any more where it was the default. -/
def AgreeOn (f : RecordFormat) (name : String) (values others : List Json) : Prop :=
  (values = [] → others = [])
    ∧ ∀ value, values = [value] → (others = [] ∧ f.isDefault name value)
      ∨ ∃ value', others = [value'] ∧ (Form value value' ∨ f.restyled name value value')

/-- Under each name of the format the same is found, or what has the same meaning. -/
def Agree (f : RecordFormat) (members others : List (String × Json)) : Prop :=
  ∀ name ∈ f.names, f.AgreeOn name (valuesOf name members) (valuesOf name others)

variable {α : Type} {f : RecordFormat} {name : String} {members others : List (String × Json)}

theorem AgreeOn.of_perm {values others : List Json} (perm : values.Perm others) :
    f.AgreeOn name values others := by
  refine ⟨fun none => ?_, fun value single => .inr ⟨value, ?_, .inl (.inl rfl)⟩⟩
  · exact List.nil_perm.1 (none ▸ perm)
  · exact (List.singleton_perm.1 (single ▸ perm)).symm

theorem AgreeOn.refl (values : List Json) : f.AgreeOn name values values := .of_perm (.refl _)

/-- One of the values found is written otherwise. -/
theorem AgreeOn.of_form (before after : List Json) {value value' : Json}
    (form : Form value value' ∨ f.restyled name value value') :
    f.AgreeOn name (before ++ value :: after) (before ++ value' :: after) := by
  refine ⟨fun none => by simp at none, fun only single => .inr ⟨value', ?_⟩⟩
  obtain ⟨rfl, single⟩ | ⟨-, none⟩ := List.append_eq_singleton_iff.1 single
  · cases single
    exact ⟨rfl, form⟩
  · cases none

theorem valuesOf_append (name : String) (before after : List (String × Json)) :
    valuesOf name (before ++ after) = valuesOf name before ++ valuesOf name after :=
  List.filterMap_append

/-- A member that is passed over is not found. -/
theorem valuesOf_cons_unknown {names : List String} {name' : String} (unknown : name' ∉ names)
    (isKnown : name ∈ names) (value : Json) :
    valuesOf name ((name', value) :: members) = valuesOf name members := by
  have other : ¬ (name' == name) = true := by
    rw [beq_iff_eq]
    rintro rfl
    exact unknown isKnown
  rw [valuesOf_cons, if_neg other]

theorem Restyled.agree (restyled : f.Restyled members others) : f.Agree members others := by
  intro name isKnown
  cases restyled with
  | add unknown =>
    rw [valuesOf_cons_unknown unknown isKnown]
    exact .refl _
  | @leaveOut _ name' value default =>
    rw [valuesOf_cons]
    split
    · next is =>
      obtain rfl : name' = name := beq_iff_eq.1 is
      refine ⟨nofun, fun value single => .inl ?_⟩
      obtain ⟨rfl, none⟩ := List.cons_eq_cons.1 single
      exact ⟨none, default⟩
    · exact .refl _
  | @known _ name' value value' inner =>
    rw [valuesOf_cons, valuesOf_cons]
    split
    · next is =>
      obtain rfl : name' = name := beq_iff_eq.1 is
      exact .of_form [] _ (.inr inner)
    · exact .refl _
  | unknown unknown =>
    rw [valuesOf_cons_unknown unknown isKnown, valuesOf_cons_unknown unknown isKnown]
    exact .refl _

theorem agree_of_rewritten (known : f.names ⊆ formatNames) {j' : Json}
    (rewritten : Rewritten (.object members) j') :
    ∃ others, j' = .object others ∧ f.Agree members others := by
  cases rewritten with
  | here changed =>
    refine ⟨_, rfl, fun name isKnown => ?_⟩
    cases changed with
    | reorder reordered => exact .of_perm (reordered.filterMap _)
    | add unused =>
      rw [valuesOf_cons_unknown unused (known isKnown)]
      exact .refl _
  | member inner =>
    refine ⟨_, rfl, fun name isKnown => ?_⟩
    rw [valuesOf_append, valuesOf_append, valuesOf_cons, valuesOf_cons]
    split
    · exact .of_form _ _ (.inl (.inr inner))
    · exact .refl _

theorem Agree.withDefault (agree : f.Agree members others) (isKnown : name ∈ f.names) (default : α)
    {read : Json → Option α} (respects : Respects read)
    (same : ∀ value, f.isDefault name value → Keeps (read value) (some default))
    (restyled : ∀ value value', f.restyled name value value' → Keeps (read value) (read value')) :
    Keeps (Json.withDefault members name default read) (Json.withDefault others name default read) := by
  intro a is
  rw [Json.withDefault] at is ⊢
  split at is
  · next none => rw [(agree name isKnown).1 none]; exact is
  · next value single =>
    obtain ⟨none, isDefault⟩ | ⟨value', single', form | inner⟩ := (agree name isKnown).2 value single
    · rw [none]; exact same value isDefault a is
    · rw [single']; exact respects.form form a is
    · rw [single']; exact restyled value value' inner a is
  · cases is

theorem Agree.required (agree : f.Agree members others) (isKnown : name ∈ f.names)
    {read : Json → Option α} (respects : Respects read) (needed : ∀ value, ¬ f.isDefault name value)
    (restyled : ∀ value value', f.restyled name value value' → Keeps (read value) (read value')) :
    Keeps (Json.required members name read) (Json.required others name read) := by
  intro a is
  rw [Json.required] at is ⊢
  split at is
  · next value single =>
    obtain ⟨-, isDefault⟩ | ⟨value', single', form | inner⟩ := (agree name isKnown).2 value single
    · exact absurd isDefault (needed value)
    · rw [single']; exact respects.form form a is
    · rw [single']; exact restyled value value' inner a is
  · cases is

/-- A reader of an object of the format keeps its result when any object is written otherwise, if it
does so for its own members, and for the items of a list that it may read instead. -/
theorem respects (f : RecordFormat) (known : f.names ⊆ formatNames) {read : Json → Option α}
    (object : ∀ members others, f.Agree members others →
      Keeps (read (.object members)) (read (.object others)))
    (array : ∀ items items', List.Forall₂ Form items items' →
      Keeps (read (.array items)) (read (.array items'))) : Respects read := by
  intro j j' rewritten
  cases j with
  | object members =>
    obtain ⟨others, rfl, agree⟩ := agree_of_rewritten known rewritten
    exact object members others agree
  | array items =>
    obtain ⟨items', rfl, forms⟩ := rewritten.items
    exact array items items' forms
  | _ => cases rewritten

/-- A reader of an object of the format keeps its result when the object is written otherwise. -/
theorem keeps_restyled (f : RecordFormat) {read : Json → Option α}
    (object : ∀ members others, f.Agree members others →
      Keeps (read (.object members)) (read (.object others)))
    {j j' : Json} (restyled : ByMembers f.Restyled j j') : Keeps (read j) (read j') := by
  obtain ⟨changed⟩ := restyled
  exact object _ _ changed.agree

end RecordFormat

/-! ## Parts of nodes -/

theorem Json.ByItem.list? {α : Type} {change : Json → Json → Prop} {read : Json → Option α}
    (each : ∀ value value', change value value' → Json.Keeps (read value) (read value')) {j j' : Json}
    (changed : Json.ByItem change j j') : Json.Keeps (Json.list? read j) (Json.list? read j') := by
  obtain ⟨changed⟩ := changed
  rw [Json.list?, Json.list?, List.mapM_append, List.mapM_append, List.mapM_cons, List.mapM_cons]
  exact (Json.Keeps.refl _).bind fun _ =>
    ((each _ _ changed).bind fun _ => .refl _).bind fun _ => .refl _

variable {members others : List (String × Json)}

namespace Position

theorem decode?_agree (agree : format.Agree members others) :
    Json.Keeps (decode? (.object members)) (decode? (.object others)) := by
  have word (name : String) (isKnown : name ∈ format.names) :=
    agree.required isKnown Json.respects_word (fun _ => id) fun _ _ => False.elim
  exact (word "line" (by decide)).bind fun _ => (word "column" (by decide)).bind fun _ => .refl _

theorem Restyled.decode? {j j' : Json} (restyled : Position.Restyled j j') :
    Json.Keeps (Position.decode? j) (Position.decode? j') :=
  format.keeps_restyled (fun _ _ => decode?_agree) restyled

theorem respects_decode : Json.Respects decode? := by
  refine format.respects (by decide) (fun _ _ => decode?_agree) fun items items' forms => ?_
  rcases forms with _ | ⟨line, _ | ⟨column, _ | _⟩⟩
  · exact .of_none rfl
  · exact .of_none rfl
  · exact (Json.respects_word.form line).bind fun _ =>
      (Json.respects_word.form column).bind fun _ => .refl _
  · exact .of_none rfl

end Position

namespace ImportDecl

theorem decode?_agree (agree : format.Agree members others) :
    Json.Keeps (decode? (.object members)) (decode? (.object others)) := by
  have name : Json.Keeps (Json.required members "name" Json.text?) (Json.required others "name" Json.text?) :=
    agree.required (by decide) Json.respects_text (fun _ is => absurd is.1 (by decide)) fun _ _ => False.elim
  have onDemand : Json.Keeps (Json.withDefault members "on_demand" false Json.bool?)
      (Json.withDefault others "on_demand" false Json.bool?) :=
    agree.withDefault (by decide) false Json.respects_bool (fun _ is => is.2 ▸ .refl _)
      fun _ _ => False.elim
  exact name.bind fun _ => onDemand.bind fun _ => .refl _

theorem Restyled.decode? {j j' : Json} (restyled : ImportDecl.Restyled j j') :
    Json.Keeps (ImportDecl.decode? j) (ImportDecl.decode? j') :=
  format.keeps_restyled (fun _ _ => decode?_agree) restyled

theorem respects_decode : Json.Respects decode? := by
  refine format.respects (by decide) (fun _ _ => decode?_agree) fun items items' forms => ?_
  rcases forms with _ | ⟨name, _ | ⟨onDemand, _ | _⟩⟩
  · exact .of_none rfl
  · exact (Json.respects_text.form name).bind fun _ => .refl _
  · exact (Json.respects_text.form name).bind fun _ =>
      (Json.respects_bool.form onDemand).bind fun _ => .refl _
  · exact .of_none rfl

end ImportDecl

namespace Literal

/-- The value of the literal that is null may be left out. -/
theorem ofParts?_null (type : String) : Json.Keeps (ofParts? type (some .null)) (ofParts? type none) := by
  by_cases isNull : type = "null"
  · subst isNull
    exact .refl (some Literal.null)
  · refine .of_none ?_
    unfold ofParts?
    split
    all_goals first
      | rfl
      | exact absurd rfl isNull
      | next same => cases same; rfl

/-- The value of a literal is a scalar. -/
theorem respects_ofParts (type : String) : Json.Respects fun value => ofParts? type (some value) := by
  refine .of_none (fun items => ?_) fun members => ?_
  all_goals
    unfold ofParts?
    split
    all_goals first
      | rfl
      | next same => cases same <;> rfl

theorem decode?_agree (agree : format.Agree members others) :
    Json.Keeps (decode? (.object members)) (decode? (.object others)) := by
  have type : Json.Keeps (Json.required members "type" Json.memberTag?)
      (Json.required others "type" Json.memberTag?) :=
    agree.required (by decide) Json.respects_memberTag (fun _ is => absurd is.1 (by decide))
      fun _ _ => False.elim
  have value := agree "value" (by decide)
  refine type.bind fun type literal is => ?_
  obtain ⟨given, found, parts⟩ := Option.bind_eq_some_iff.1 is
  rw [Json.withDefault] at found
  split at found
  · next none => simpa [Json.withDefault, value.1 none, none] using is
  · next v single =>
    cases found
    obtain ⟨none, -, rfl⟩ | ⟨v', single', form | restyled⟩ := value.2 v single
    · simpa [Json.withDefault, none] using ofParts?_null type literal parts
    · simpa [Json.withDefault, single'] using (respects_ofParts type).form form literal parts
    · exact restyled.elim
  · cases found

theorem Restyled.decode? {j j' : Json} (restyled : Literal.Restyled j j') :
    Json.Keeps (Literal.decode? j) (Literal.decode? j') :=
  format.keeps_restyled (fun _ _ => decode?_agree) restyled

theorem respects_decode : Json.Respects decode? := by
  refine format.respects (by decide) (fun _ _ => decode?_agree) fun items items' forms => ?_
  rcases forms with _ | ⟨type, _ | ⟨value, _ | _⟩⟩
  · exact .of_none rfl
  · exact .of_none rfl
  · exact ((Json.respects_wordOf types).form type).bind fun type => (respects_ofParts type).form value
  · exact .of_none rfl

end Literal

/-! ## Members of nodes -/

/-- The members of nodes in which objects of the format lie, apart from the position. -/
def Kind.recordMembers : List (Kind × String) := [(.sourceFile, "imports"), (.literal, "value")]

namespace Kind

variable {k : Kind} {name : String} {value : Json}

/-- What may be left out is null, an empty list or false. -/
theorem mem_defaults (isIn : (name, value) ∈ k.defaults) :
    value = .null ∨ value = .array [] ∨ value = .bool false := by
  have each : ∀ m ∈ k.defaults, m.2 = .null ∨ m.2 = .array [] ∨ m.2 = .bool false := by
    cases k <;> simp [defaults]
  exact each _ isIn

theorem memberNames_of_default (isIn : (name, value) ∈ k.defaults) : name ∈ k.memberNames := by
  have each : ∀ m ∈ k.defaults, m.1 ∈ k.memberNames := by
    cases k <;> simp [defaults, memberNames]
  exact each _ isIn

end Kind

namespace Node

open Json

variable {α : Type} {k : Kind} {name : String}

theorem format_names (k : Kind) : (format k).names ⊆ formatNames := by
  have members : k.memberNames ⊆ Kind.all.flatMap Kind.memberNames :=
    fun _ isIn => List.mem_flatMap.2 ⟨k, k.mem_all, isIn⟩
  refine List.cons_subset.2 ⟨by decide, List.cons_subset.2 ⟨by decide, fun _ isIn => ?_⟩⟩
  exact List.mem_append_right _ (members isIn)

theorem isKnown (isMember : name ∈ k.memberNames) : name ∈ (format k).names :=
  List.mem_cons_of_mem _ (List.mem_cons_of_mem _ isMember)

theorem not_default (isMember : name ∈ k.memberNames) (needed : name ∉ k.defaults.map (·.1))
    (value : Json) : ¬ (format k).isDefault name value := by
  rintro (⟨rfl, -⟩ | isDefault)
  · exact k.memberNames_apart.1 isMember
  · exact needed (List.mem_map_of_mem isDefault)

theorem not_restyled (isMember : name ∈ k.memberNames) (plain : (k, name) ∉ Kind.recordMembers)
    (value value' : Json) : ¬ (format k).restyled name value value' := by
  rintro (⟨rfl, -⟩ | ⟨rfl, rfl, -⟩ | ⟨rfl, rfl, -⟩)
  · exact k.memberNames_apart.1 isMember
  · exact plain (by decide)
  · exact plain (by decide)

section

variable (agree : (format k).Agree members others) (isMember : name ∈ k.memberNames)
  (plain : (k, name) ∉ Kind.recordMembers)
include agree isMember plain

theorem keeps_required (needed : name ∉ k.defaults.map (·.1)) {read : Json → Option α}
    (respects : Respects read) : Keeps (required members name read) (required others name read) :=
  agree.required (isKnown isMember) respects (not_default isMember needed)
    fun value value' inner => absurd inner (not_restyled isMember plain value value')

theorem keeps_withDefault {default : α} {read : Json → Option α} (respects : Respects read)
    (null : Keeps (read .null) (some default)) (empty : Keeps (read (.array [])) (some default))
    (no : Keeps (read (.bool false)) (some default)) :
    Keeps (withDefault members name default read) (withDefault others name default read) := by
  refine agree.withDefault (isKnown isMember) default respects (fun value is => ?_)
    fun value value' inner => absurd inner (not_restyled isMember plain value value')
  obtain ⟨rfl, -⟩ | isDefault := is
  · exact absurd isMember k.memberNames_apart.1
  · obtain rfl | rfl | rfl := Kind.mem_defaults isDefault
    · exact null
    · exact empty
    · exact no

theorem keeps_list {read : Json → Option α} (respects : Respects read) :
    Keeps (withDefault members name [] (list? read)) (withDefault others name [] (list? read)) :=
  keeps_withDefault agree isMember plain (respects_list respects) (.of_none rfl) (.refl _) (.of_none rfl)

theorem keeps_bool :
    Keeps (withDefault members name false bool?) (withDefault others name false bool?) :=
  keeps_withDefault agree isMember plain respects_bool (.of_none rfl) (.of_none rfl) (.refl _)

theorem keeps_maybe {read : Json → Option α} (respects : Respects read)
    (empty : read (.array []) = none) (no : read (.bool false) = none) :
    Keeps (maybe members name read) (maybe others name read) := by
  refine keeps_withDefault agree isMember plain ?_ (.refl _) (by simp [Keeps, empty]) (by simp [Keeps, no])
  intro j j' rewritten
  cases rewritten with
  | here changed => exact (respects (.here changed)).map some
  | member inner => exact (respects (.member inner)).map some
  | item inner => exact (respects (.item inner)).map some

end

/-- Each member is read in its own way, and each way leads to the same when the members agree. -/
theorem keeps_ofFields (agree : (format k).Agree members others) :
    Keeps (NodeData.ofFields? k members) (NodeData.ofFields? k others) := by
  cases k with
  | sourceFile =>
    have imports : Keeps (withDefault members "imports" [] (list? ImportDecl.decode?))
        (withDefault others "imports" [] (list? ImportDecl.decode?)) := by
      refine agree.withDefault (by decide) [] (respects_list ImportDecl.respects_decode)
        (fun value is => ?_) fun value value' inner => ?_
      · obtain ⟨is, -⟩ | is := is
        · exact absurd is (by decide)
        · obtain rfl : value = .array [] := by simpa [Kind.defaults] using is
          exact .refl _
      · obtain ⟨is, -⟩ | ⟨-, -, inner⟩ | ⟨is, -⟩ := inner
        · exact absurd is (by decide)
        · exact inner.list? fun _ _ inner => inner.decode?
        · cases is
    refine (keeps_maybe agree (by decide) (by decide) respects_text rfl rfl).bind fun _ => ?_
    refine imports.bind fun _ => ?_
    exact (keeps_required agree (by decide) (by decide) (by decide) (respects_list respects_index)).bind
      fun _ => .refl _
  | literal =>
    have value : Keeps (required members "value" Literal.decode?)
        (required others "value" Literal.decode?) := by
      refine agree.required (by decide) Literal.respects_decode (not_default (by decide) (by decide))
        fun value value' inner => ?_
      obtain ⟨is, -⟩ | ⟨is, -⟩ | ⟨-, -, inner⟩ := inner
      · exact absurd is (by decide)
      · cases is
      · exact inner.decode?
    exact value.bind fun _ => .refl _
  | _ =>
    -- the members of all other kinds are plain, and are read one after the other
    repeat first
      | refine Keeps.bind (keeps_maybe agree (by decide) (by decide) (by simp) rfl rfl) fun _ => ?_
      | refine Keeps.bind (keeps_list agree (by decide) (by decide) (by simp)) fun _ => ?_
      | refine Keeps.bind (keeps_bool agree (by decide) (by decide)) fun _ => ?_
      | refine Keeps.bind (keeps_required agree (by decide) (by decide) (by decide) (by simp)) fun _ => ?_
    exact .refl _

end Node

/-! ## Nodes -/

namespace Json

theorem valuesOf_filter {name : String} (other : name ≠ "pos") (members : List (String × Json)) :
    valuesOf name (members.filter fun m => m.1 != "pos") = valuesOf name members := by
  rw [valuesOf, valuesOf, List.filterMap_filter]
  refine List.filterMap_congr fun m _ => ?_
  by_cases is : m.1 = name
  · simp [is, other]
  · simp [is]

theorem valuesOf_pos_filter (members : List (String × Json)) :
    valuesOf "pos" (members.filter fun m => m.1 != "pos") = [] := by
  refine valuesOf_eq_nil fun isIn => ?_
  obtain ⟨m, isIn, is⟩ := List.mem_map.1 isIn
  exact absurd is (bne_iff_ne.1 (List.mem_filter.1 isIn).2)

theorem required_filter {α : Type} (members : List (String × Json)) (read : Json → Option α) :
    required (members.filter fun m => m.1 != "pos") "kind" read = required members "kind" read := by
  rw [required, required, valuesOf_filter (by decide)]

end Json

namespace Node

variable {k : Kind} {value value' : Json}

/-- Rows of members that agree still do so without the position. -/
theorem agree_filter (agree : (format k).Agree members others) :
    (format k).Agree (members.filter fun m => m.1 != "pos") (others.filter fun m => m.1 != "pos") := by
  intro name isKnown
  by_cases isPos : name = "pos"
  · subst isPos
    rw [Json.valuesOf_pos_filter, Json.valuesOf_pos_filter]
    exact .refl _
  · rw [Json.valuesOf_filter isPos, Json.valuesOf_filter isPos]
    exact agree name isKnown

theorem isDefault_pos (is : (format k).isDefault "pos" value) :
    Position.decode? value = some .nowhere := by
  obtain ⟨-, is⟩ | isDefault := is
  · exact is
  · exact absurd (Kind.memberNames_of_default isDefault) k.memberNames_apart.1

theorem restyled_pos (inner : (format k).restyled "pos" value value') :
    Position.Restyled value value' := by
  obtain ⟨-, inner⟩ | ⟨-, is, -⟩ | ⟨-, is, -⟩ := inner
  · exact inner
  · exact absurd is (by decide)
  · exact absurd is (by decide)

theorem not_isDefault_kind : ¬ (format k).isDefault "kind" value := by
  rintro (⟨is, -⟩ | isDefault)
  · exact absurd is (by decide)
  · exact k.memberNames_apart.2 (Kind.memberNames_of_default isDefault)

theorem not_restyled_kind : ¬ (format k).restyled "kind" value value' := by
  rintro (⟨is, -⟩ | ⟨-, is, -⟩ | ⟨-, is, -⟩)
  all_goals exact absurd is (by decide)

/-- A node is read on the members without its position, of the same kind as before. -/
theorem decode?_agree (isKind : Json.required members "kind" Kind.decode? = some k)
    (agree : (format k).Agree members others) :
    Json.Keeps (decode? (.object members)) (decode? (.object others)) := by
  have pos : Json.Keeps (Json.withDefault members "pos" .nowhere Position.decode?)
      (Json.withDefault others "pos" .nowhere Position.decode?) :=
    agree.withDefault List.mem_cons_self .nowhere Position.respects_decode
      (fun value is => by rw [isDefault_pos is]; exact .refl _)
      fun value value' inner => (restyled_pos inner).decode?
  have isKind' : Json.required others "kind" Kind.decode? = some k :=
    agree.required (List.mem_cons_of_mem _ List.mem_cons_self) Json.respects_kind
      (fun _ => not_isDefault_kind) (fun _ _ inner => absurd inner not_restyled_kind) k isKind
  refine pos.bind fun pos => ?_
  rw [Json.required_filter, Json.required_filter, isKind, isKind']
  exact (keeps_ofFields (agree_filter agree)).bind fun data => .refl _

theorem Restyled.decode? {j j' : Json} (restyled : Node.Restyled j j') :
    Json.Keeps (Node.decode? j) (Node.decode? j') := by
  obtain ⟨isKind, changed⟩ := restyled
  exact decode?_agree isKind changed.agree

theorem respects_decode : Json.Respects decode? := by
  intro j j' rewritten
  cases j with
  | object members =>
    cases isKind : Json.required members "kind" Kind.decode? with
    | none =>
      refine .of_none (Option.eq_none_iff_forall_ne_some.2 fun node is => ?_)
      obtain ⟨pos, -, is⟩ := Option.bind_eq_some_iff.1 is
      rw [Json.required_filter, isKind] at is
      cases is
    | some k =>
      obtain ⟨others, rfl, agree⟩ := RecordFormat.agree_of_rewritten (format_names k) rewritten
      exact decode?_agree isKind agree
  | _ => exact .of_none rfl

/-- A node of an arena. -/
theorem keeps_readable {j j' : Json} (isReadable : Node.isReadable j = true → Node.isReadable j' = true)
    (decodes : Json.Keeps (decode? j) (decode? j')) :
    Json.Keeps (if Node.isReadable j then decode? j else none)
      (if Node.isReadable j' then decode? j' else none) := by
  intro node is
  split at is
  · next readable => rw [if_pos (isReadable readable)]; exact decodes node is
  · cases is

end Node

/-! ## Trees -/

namespace Arena

theorem Restyled.decode? {j j' : Json} (restyled : Arena.Restyled j j') :
    Json.Keeps (Arena.decode? j) (Arena.decode? j') :=
  (Json.ByItem.list? (fun _ _ node => Node.keeps_readable node.isReadable node.decode?) restyled).bind
    fun _ => .refl _

theorem respects_decode : Json.Respects decode? := by
  intro j j' rewritten
  refine (Json.respects_list (fun _ _ node => ?_) rewritten).bind fun _ => .refl _
  exact Node.keeps_readable (Node.isReadable_of_rewritten node) (Node.respects_decode node)

end Arena

namespace SyntaxTree

theorem decode?_agree (agree : format.Agree members others) :
    Json.Keeps (decode? (.object members)) (decode? (.object others)) := by
  have fileName : Json.Keeps (Json.required members "file_name" Json.text?)
      (Json.required others "file_name" Json.text?) :=
    agree.required (by decide) Json.respects_text (fun _ => id) fun _ _ inner => absurd inner.1 (by decide)
  have arena : Json.Keeps (Json.required members "arena" Arena.decode?)
      (Json.required others "arena" Arena.decode?) :=
    agree.required (by decide) Arena.respects_decode (fun _ => id) fun _ _ inner => inner.2.decode?
  have root : Json.Keeps (Json.required members "root" Json.index?)
      (Json.required others "root" Json.index?) :=
    agree.required (by decide) Json.respects_index (fun _ => id) fun _ _ inner => absurd inner.1 (by decide)
  exact fileName.bind fun _ => arena.bind fun _ => root.bind fun _ => .refl _

theorem respects_decode : Json.Respects decode? := by
  refine format.respects (by decide) (fun _ _ => decode?_agree) fun items items' forms => ?_
  rcases forms with _ | ⟨fileName, _ | ⟨arena, _ | ⟨root, _ | _⟩⟩⟩
  · exact .of_none rfl
  · exact .of_none rfl
  · exact .of_none rfl
  · exact (Json.respects_text.form fileName).bind fun _ =>
      (Arena.respects_decode.form arena).bind fun _ =>
        (Json.respects_index.form root).bind fun _ => .refl _
  · exact .of_none rfl

theorem Restyled.decode? {j j' : Json} (restyled : SyntaxTree.Restyled j j') :
    Json.Keeps (SyntaxTree.decode? j) (SyntaxTree.decode? j') := by
  cases restyled with
  | anywhere rewritten => exact respects_decode rewritten
  | object changed => exact decode?_agree changed.agree
  | list changed => exact (Json.Keeps.refl _).bind fun _ => changed.decode?.bind fun _ => .refl _

/-- A tree that is written otherwise, in any number of places, is read as the same tree. -/
theorem decode?_restyled {j j' : Json} (restyled : Relation.ReflTransGen SyntaxTree.Restyled j j')
    {t : SyntaxTree} (reads : decode? j = some t) : decode? j' = some t := by
  induction restyled with
  | refl => exact reads
  | tail _ step ih => exact step.decode? t ih

/-- The kind of a node comes last and its position is left out, its literal has a note and leaves out
its value, and the root of the tree comes first. -/
theorem decode?_restyled_literal :
    let written (node : Json) : Json :=
      .object [("arena", .array [node]), ("file_name", .string "A.java"), ("root", .ofNat 0)]
    let rewritten (node : Json) : Json :=
      .object [("root", .ofNat 0), ("arena", .array [node]), ("file_name", .string "A.java")]
    let node : Json := .object [("pos", .array [.ofNat 0, .ofNat 0]), ("kind", .string "literal"),
      ("value", .object [("value", .null), ("type", .string "null")])]
    let node' : Json := .object [("value", .object [("note", .bool true), ("type", .string "null")]),
      ("kind", .string "literal")]
    let t : SyntaxTree :=
      { fileName := "A.java", arena := { nodes := #[{ pos := .nowhere, data := .literal .null }] }
        root := { val := 0 } }
    Relation.ReflTransGen SyntaxTree.Restyled (written node) (rewritten node')
      ∧ decode? (written node) = some t ∧ decode? (rewritten node') = some t := by
  intro written rewritten node node' t
  have format (j j' : Json) (step : Node.Restyled j j') : SyntaxTree.Restyled (written j) (written j') :=
    .object (.known ⟨rfl, @Json.ByItem.array _ [] [] _ _ step⟩)
  have anywhere (j j' : Json) (step : Json.Rewritten j j') :
      SyntaxTree.Restyled (written j) (written j') :=
    .anywhere (@Json.Within.member _ [] _ _ _ _ (@Json.Within.item _ [] [] _ _ step))
  have noted : Json.Rewrites [("type", .string "null")]
      [("note", .bool true), ("type", .string "null")] :=
    .add (by decide) (by rintro (is | is) <;> cases is) ⟨rfl, rfl⟩
  have restyled : Relation.ReflTransGen SyntaxTree.Restyled (written node) (rewritten node') := by
    refine .head (format _ _ (.object (k := .literal) rfl (.leaveOut (.inl ⟨rfl, rfl⟩)))) ?_
    refine .head (anywhere _ _ (.here (.reorder (.swap _ _ _)))) ?_
    refine .head (format _ _ (.object (k := .literal) rfl
      (.known (.inr (.inr ⟨rfl, rfl, .object (.leaveOut ⟨rfl, rfl⟩)⟩))))) ?_
    refine .head (anywhere _ _ (@Json.Within.member _ [] _ _ _ _ (.here noted))) ?_
    exact .single (.anywhere (.here (.reorder (@List.perm_append_comm _ [_, _] [_]))))
  have reads : decode? (written node) = some t := by rfl
  exact ⟨restyled, reads, decode?_restyled restyled reads⟩

/-- A modifier that is an object stands for its word only as long as it has no other member, and of a
node a number that no double comes near to cannot be passed over. -/
theorem decode?_noted :
    let written (word node : List (String × Json)) : Json :=
      .object [("file_name", .string "A.java"), ("root", .ofNat 0), ("arena", .array [.object
        ([("kind", .string "variable_declaration"), ("declarators", .array []),
          ("modifiers", .array [.object (("final", .null) :: word)])] ++ node)])]
    let huge : JsonNumber :=
      { negative := false, whole := [1], fraction := [], exponent := some 9999999999 }
    (decode? (written [] [])).isSome = true
      ∧ (decode? (written [("note", .null)] [])).isSome = false
      ∧ (decode? (written [] [("note", .number huge)])).isSome = false := by
  refine ⟨rfl, rfl, ?_⟩
  decide +kernel

end SyntaxTree

end LevelCheck
