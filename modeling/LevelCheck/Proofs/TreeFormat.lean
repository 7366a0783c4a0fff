import LevelCheck.Proofs.JsonText
import LevelCheck.Syntax.Decode
import Mathlib.Tactic
set_option autoImplicit false

/-! # Written trees are read back

What is written of a tree is read back as that tree. Each part of a node has its own lemma, saying
that its reader undoes its writer; a node of a kind is then the reader of each member at the value
that the member was given. Only the decimal form of a double is left aside. -/

namespace LevelCheck

/-! ## Members -/

namespace Json

variable {α : Type}

@[simp] theorem valuesOf_nil (name : String) : valuesOf name [] = [] := by
  rw [valuesOf, List.filterMap_nil]

@[simp] theorem valuesOf_cons (name : String) (m : String × Json) (members : List (String × Json)) :
    valuesOf name (m :: members)
      = if m.1 == name then m.2 :: valuesOf name members else valuesOf name members := by
  rw [valuesOf, List.filterMap_cons]
  split_ifs <;> rfl

theorem valuesOf_eq_nil {name : String} {members : List (String × Json)}
    (absent : name ∉ members.map (·.1)) : valuesOf name members = [] := by
  refine List.filterMap_eq_nil_iff.2 fun m isIn => if_neg fun is => absent ?_
  exact beq_iff_eq.1 is ▸ List.mem_map_of_mem isIn

theorem maybe_cons_ne {m : String × Json} {name : String} (other : m.1 ≠ name)
    (members : List (String × Json)) (read : Json → Option α) :
    maybe (m :: members) name read = maybe members name read := by
  rw [maybe, withDefault, valuesOf_cons, if_neg (by simpa using other)]
  rfl

/-! ## Plain values -/

theorem list?_map {write : α → Json} {read : Json → Option α} {xs : List α}
    (undoes : ∀ x ∈ xs, read (write x) = some x) : list? read (.array (xs.map write)) = some xs := by
  rw [list?, List.mapM_map]
  induction xs with
  | nil => rfl
  | cons x xs ih =>
    have first := undoes x List.mem_cons_self
    have others := ih fun y isIn => undoes y (List.mem_cons_of_mem x isIn)
    simp only [List.mapM_cons, Function.comp_apply, first, others, Option.bind_eq_bind,
      Option.bind_some, Option.pure_def]

@[simp] theorem text?_string (s : String) : (Json.string s).text? = some s := rfl

@[simp] theorem bool?_bool (b : Bool) : (Json.bool b).bool? = some b := rfl

theorem int?_ofInt (i : Int) : (ofInt i).int? = some i := JsonNumber.toInt_ofInt i

theorem nat?_ofNat (n : Nat) : (ofNat n).nat? = some n := by
  rw [nat?, ofNat, int?_ofInt]

theorem word?_ofNat (w : UInt32) : (ofNat w.toNat).word? = some w := by
  have small : w.toNat < UInt32.size := w.toNat_lt_size
  rw [word?, nat?_ofNat]
  simp [small]

@[simp] theorem index?_ofIndex (idx : NodeIndex) : (ofIndex idx).index? = some idx := by
  rw [index?, ofIndex, word?_ofNat]
  rfl

@[simp] theorem int64?_ofInt (i : Int64) : (ofInt i.toInt).int64? = some i := by
  have range : Int64.minValue.toInt ≤ i.toInt ∧ i.toInt ≤ Int64.maxValue.toInt :=
    ⟨i.minValue_le_toInt, i.toInt_le⟩
  rw [int64?, int?_ofInt]
  simp only [Option.bind_eq_bind, Option.bind_some, if_pos range, Int64.ofInt_toInt]

theorem char?_ofList (c : Char) : (Json.string (String.ofList [c])).char? = some c := by
  rw [char?, String.toList_ofList]

/-- A word that stands for one element of a list only is read as that element. -/
theorem named?_word {all : List α} {word : α → String} (apart : (all.map word).Nodup) {x : α}
    (isIn : x ∈ all) : named? all word (some (word x)) = some x := by
  change all.find? (fun y => word y == word x) = some x
  induction all with
  | nil => cases isIn
  | cons y all ih =>
    obtain ⟨fresh, apart⟩ := List.nodup_cons.1 apart
    rcases List.mem_cons.1 isIn with rfl | later
    · rw [List.find?_cons_of_pos (by simp)]
    · have differs : word y ≠ word x := fun is => fresh (is ▸ List.mem_map_of_mem later)
      rw [List.find?_cons_of_neg (by simpa using differs), ih apart later]

end Json

theorem Modifier.keywords_nodup : (Modifier.all.map Modifier.keyword).Nodup := by decide

theorem Modifier.mem_all (m : Modifier) : m ∈ Modifier.all := by cases m <;> decide

theorem BinaryOp.words_nodup : (BinaryOp.all.map BinaryOp.word).Nodup := by decide

theorem BinaryOp.mem_all (op : BinaryOp) : op ∈ BinaryOp.all := by cases op <;> decide

theorem UnaryOp.words_nodup : (UnaryOp.all.map UnaryOp.word).Nodup := by decide

theorem UnaryOp.mem_all (op : UnaryOp) : op ∈ UnaryOp.all := by cases op <;> decide

theorem AssignOp.words_nodup : (AssignOp.all.map AssignOp.word).Nodup := by decide

theorem AssignOp.mem_all (op : AssignOp) : op ∈ AssignOp.all := by cases op <;> decide

theorem Kind.words_nodup : (Kind.all.map Kind.word).Nodup := by decide

theorem Kind.mem_all (k : Kind) : k ∈ Kind.all := by cases k <;> decide

theorem Kind.ofWord?_word (k : Kind) : Kind.ofWord? k.word = some k :=
  Json.named?_word Kind.words_nodup k.mem_all

/-! ## Parts of nodes -/

theorem Position.decode?_encode (p : Position) : Position.decode? p.encode = some p := by
  simp [Position.encode, Position.decode?, Json.required, Json.word?_ofNat]

theorem ImportDecl.decode?_encode (i : ImportDecl) : ImportDecl.decode? i.encode = some i := by
  simp [ImportDecl.encode, ImportDecl.decode?, Json.required, Json.withDefault, Json.text?, Json.bool?]

/-- The value is a double. -/
def Literal.IsDouble (value : Literal) : Prop := ∃ x, value = .double x

/-- The node is not a literal of a double. -/
def NodeData.IsExact (data : NodeData) : Prop := ∀ value, data = .literal value → ¬ value.IsDouble

theorem Literal.decode?_typed (type : String) (v : Json) :
    Literal.decode? (.object [("type", .string type), ("value", v)])
      = Literal.ofParts? type (some v) := by
  simp [Literal.decode?, Json.required, Json.withDefault, Json.memberTag?, Json.tag?]

theorem Literal.decode?_encode {value : Literal} (exact : ¬ value.IsDouble) :
    Literal.decode? value.encode = some value := by
  cases value with
  | double x => exact absurd ⟨x, rfl⟩ exact
  | int i => rw [encode, decode?_typed, ofParts?, Json.int64?_ofInt, Option.map_some]
  | bool b => rw [encode, decode?_typed]; rfl
  | char c => rw [encode, decode?_typed, ofParts?, Json.char?_ofList, Option.map_some]
  | string s => rw [encode, decode?_typed]; rfl
  | null => simp [encode, decode?, Json.required, Json.withDefault, Json.memberTag?, Json.tag?, ofParts?]

/-! ## What nodes say -/

namespace Json

@[simp] theorem list?_ofTexts (texts : List String) : list? text? (.ofTexts texts) = some texts :=
  list?_map fun _ _ => rfl

@[simp] theorem list?_ofIndices (indices : List NodeIndex) :
    list? index? (.ofIndices indices) = some indices :=
  list?_map fun idx _ => index?_ofIndex idx

@[simp] theorem list?_ofModifiers (modifiers : List Modifier) :
    list? (memberNamed? Modifier.all Modifier.keyword) (.ofModifiers modifiers)
      = some modifiers := by
  rw [ofModifiers, ofTexts, List.map_map]
  exact list?_map fun m _ => named?_word Modifier.keywords_nodup m.mem_all

@[simp] theorem list?_imports (imports : List ImportDecl) :
    list? ImportDecl.decode? (.array (imports.map ImportDecl.encode)) = some imports :=
  list?_map fun i _ => i.decode?_encode

@[simp] theorem memberNamed?_binaryOp (op : BinaryOp) :
    memberNamed? BinaryOp.all BinaryOp.word (.string op.word) = some op :=
  named?_word BinaryOp.words_nodup op.mem_all

@[simp] theorem memberNamed?_unaryOp (op : UnaryOp) :
    memberNamed? UnaryOp.all UnaryOp.word (.string op.word) = some op :=
  named?_word UnaryOp.words_nodup op.mem_all

@[simp] theorem memberNamed?_assignOp (op : AssignOp) :
    memberNamed? AssignOp.all AssignOp.word (.string op.word) = some op :=
  named?_word AssignOp.words_nodup op.mem_all

theorem maybe_text {name : String} {members : List (String × Json)}
    (once : valuesOf name members = []) (text : Option String) :
    maybe ((name, .ofText? text) :: members) name text? = some text := by
  simp only [maybe, withDefault, valuesOf_cons, beq_self_eq_true, if_true, once]
  cases text <;> rfl

theorem maybe_index {name : String} {members : List (String × Json)}
    (once : valuesOf name members = []) (idx : Option NodeIndex) :
    maybe ((name, .ofIndex? idx) :: members) name index? = some idx := by
  simp only [maybe, withDefault, valuesOf_cons, beq_self_eq_true, if_true, once]
  cases idx with
  | none => rfl
  | some idx =>
    change (index? (ofIndex idx)).map some = _
    rw [index?_ofIndex, Option.map_some]

end Json

/-- Every reader of a member finds what the writer of that member has put there; what is written
of the kind is not among them. -/
theorem NodeData.ofFields?_fields {data : NodeData} (exact : data.IsExact)
    (kind : Json) : NodeData.ofFields? data.kind (("kind", kind) :: data.fields) = some data := by
  cases data with
  | literal value =>
    have isExact : ¬ value.IsDouble := exact value rfl
    simp [ofFields?, fields, NodeData.kind, Json.required, Literal.decode?_encode isExact]
  | _ =>
    simp [ofFields?, fields, NodeData.kind, Json.required, Json.withDefault, Json.maybe_cons_ne,
      Json.maybe_text, Json.maybe_index]

/-! ## Values read whole -/

namespace Decimal

/-- A row of digits that writes a word of 64 bits is read to its end. -/
theorem appendWhole_of_le {digits : List Nat} {word : Nat}
    (fits : digits.foldl (fun total d => 10 * total + d) word ≤ wordLimit) :
    (appendWhole word digits).2 = 0 := by
  induction digits generalizing word with
  | nil => rfl
  | cons d digits ih =>
    rw [List.foldl_cons] at fits
    -- the number only grows with further digits
    have grows (digits : List Nat) (n : Nat) :
        n ≤ digits.foldl (fun total d => 10 * total + d) n := by
      induction digits generalizing n with
      | nil => exact Nat.le_refl n
      | cons d digits ih => exact Nat.le_trans (by omega) (ih (10 * n + d))
    rw [appendWhole, if_pos (Nat.le_trans (grows _ _) fits), ih fits]

theorem ofJsonNumber?_ofInt {i : Int} (small : i.natAbs ≤ wordLimit) :
    (ofJsonNumber? (.ofInt i)).isSome := by
  have digits : JsonNumber.ofDigits (JsonNumber.ofInt i).whole = i.natAbs :=
    JsonNumber.ofDigits_digitsOf i.natAbs
  have toEnd : (appendWhole 0 (JsonNumber.ofInt i).whole).2 = 0 :=
    appendWhole_of_le (digits.le.trans small)
  generalize whole : appendWhole 0 (JsonNumber.ofInt i).whole = read at toEnd
  obtain ⟨word, dropped⟩ := read
  obtain rfl : dropped = 0 := toEnd
  have unscaled : ofJsonNumber? (.ofInt i) = (scale? word.toUInt64.toFloat 0 8).map
      fun x => if (JsonNumber.ofInt i).negative then -x else x := by
    rw [ofJsonNumber?, whole]
    rfl
  rw [unscaled, scale?, if_pos rfl]
  rfl

end Decimal

namespace Json

theorem itemsSound_iff {limit : Nat} {items : List Json} :
    itemsSound limit items ↔ ∀ item ∈ items, isSound limit item := by
  induction items with
  | nil => simp [itemsSound]
  | cons item items ih => simp [itemsSound, ih]

theorem membersSound_iff {limit : Nat} {members : List (String × Json)} :
    membersSound limit members ↔ ∀ m ∈ members, isSound limit m.2 := by
  induction members with
  | nil => simp [membersSound]
  | cons m members ih => simp [membersSound, ih]

/-- The value is plain, nests its parts at most this deep, and its integers fit a word. -/
inductive Shallow : Nat → Json → Prop where
  | null (limit : Nat) : Shallow limit .null
  | bool (limit : Nat) (b : Bool) : Shallow limit (.bool b)
  | int (limit : Nat) {i : Int} (small : i.natAbs ≤ Decimal.wordLimit) : Shallow limit (.ofInt i)
  | string (limit : Nat) (s : String) : Shallow limit (.string s)
  | array {limit : Nat} {items : List Json} (areShallow : ∀ item ∈ items, Shallow limit item) :
      Shallow (limit + 1) (.array items)
  | object {limit : Nat} {members : List (String × Json)}
      (areShallow : ∀ m ∈ members, Shallow limit m.2) : Shallow (limit + 1) (.object members)

theorem Shallow.plain {limit : Nat} {j : Json} (shallow : Shallow limit j) : Plain j := by
  induction shallow with
  | null => exact .null
  | bool _ b => exact .bool b
  | int _ _ => exact .int _
  | string _ s => exact .string s
  | array _ ih => exact .array ih
  | object _ ih => exact .object ih

theorem Shallow.isSound {limit : Nat} {j : Json} (shallow : Shallow limit j) : j.isSound limit := by
  induction shallow with
  | null => rw [Json.isSound]
  | bool => rw [Json.isSound]
  | int _ small => rw [ofInt, Json.isSound]; exact Decimal.ofJsonNumber?_ofInt small
  | string => rw [Json.isSound]
  | array _ ih => rw [Json.isSound]; exact itemsSound_iff.2 ih
  | object _ ih => rw [Json.isSound]; exact membersSound_iff.2 ih

/-! ### What is written is shallow -/

variable (limit : Nat)

theorem shallow_word (w : UInt32) : Shallow limit (.ofNat w.toNat) := by
  have small := w.toNat_lt
  have bound : Decimal.wordLimit = 18446744073709551615 := rfl
  exact .int limit (by omega)

theorem shallow_ofIndex (idx : NodeIndex) : Shallow limit (.ofIndex idx) := shallow_word limit idx.val

theorem shallow_ofIndex? (idx : Option NodeIndex) : Shallow limit (.ofIndex? idx) := by
  cases idx with
  | none => exact .null limit
  | some idx => exact shallow_ofIndex limit idx

theorem shallow_ofText? (text : Option String) : Shallow limit (.ofText? text) := by
  cases text with
  | none => exact .null limit
  | some text => exact .string limit text

theorem shallow_array {α : Type} {write : α → Json} (areShallow : ∀ x, Shallow limit (write x))
    (xs : List α) : Shallow (limit + 1) (.array (xs.map write)) :=
  .array (List.forall_mem_map.2 fun x _ => areShallow x)

theorem shallow_ofIndices (indices : List NodeIndex) : Shallow (limit + 1) (.ofIndices indices) :=
  shallow_array limit (shallow_ofIndex limit) indices

theorem shallow_ofTexts (texts : List String) : Shallow (limit + 1) (.ofTexts texts) :=
  shallow_array limit (.string limit) texts

theorem shallow_ofModifiers (modifiers : List Modifier) :
    Shallow (limit + 1) (.ofModifiers modifiers) :=
  shallow_ofTexts limit _

theorem shallow_position (p : Position) : Shallow (limit + 1) p.encode := by
  refine .object ?_
  simp [shallow_word]

theorem shallow_import (i : ImportDecl) : Shallow (limit + 1) i.encode := by
  refine .object ?_
  simp [Shallow.string, Shallow.bool]

theorem shallow_literal {value : Literal} (exact : ¬ value.IsDouble) :
    Shallow (limit + 1) value.encode := by
  cases value with
  | double x => exact absurd ⟨x, rfl⟩ exact
  | int i =>
    have small : i.toInt.natAbs ≤ Decimal.wordLimit := by
      have least := i.le_toInt
      have greatest := i.toInt_lt
      have bound : Decimal.wordLimit = 18446744073709551615 := rfl
      omega
    refine .object ?_
    simp [Shallow.string, Shallow.int _ small]
  | _ =>
    refine .object ?_
    simp [Shallow.string, Shallow.bool]

theorem shallow_fields {data : NodeData} (exact : data.IsExact) :
    ∀ m ∈ data.fields, Shallow (limit + 2) m.2 := by
  cases data with
  | literal value =>
    have isExact : ¬ value.IsDouble := exact value rfl
    simp [NodeData.fields, shallow_literal (limit + 1) isExact]
  | sourceFile package imports types =>
    have listed := shallow_array (limit + 1) (shallow_import limit) imports
    simp [NodeData.fields, shallow_ofText?, shallow_ofIndices, listed]
  | _ =>
    simp [NodeData.fields, Shallow.string, Shallow.bool, shallow_ofText?, shallow_ofIndex,
      shallow_ofIndex?, shallow_ofIndices, shallow_ofTexts, shallow_ofModifiers]

end Json

/-! ## Nodes and trees -/

/-- A node's own members have other names than its position and its kind. -/
theorem Kind.memberNames_apart (k : Kind) : "pos" ∉ k.memberNames ∧ "kind" ∉ k.memberNames := by
  cases k <;> decide

variable {node : Node}

theorem Node.decode?_encode (exact : node.data.IsExact) :
    Node.decode? node.encode = some node := by
  have apart := node.data.kind.memberNames_apart
  rw [← node.data.map_fst_fields] at apart
  have kept : node.data.fields.filter (fun m => m.1 != "pos") = node.data.fields := by
    refine List.filter_eq_self.2 fun m isIn => bne_iff_ne.2 fun is => apart.1 ?_
    exact is ▸ List.mem_map_of_mem isIn
  have kind : Kind.decode? (.string node.kind.word) = some node.data.kind := Kind.ofWord?_word _
  have data := NodeData.ofFields?_fields exact (.string node.kind.word)
  simp [encode, decode?, Json.withDefault, Json.required, Json.valuesOf_eq_nil apart.1,
    Json.valuesOf_eq_nil apart.2, kept, kind, data, node.pos.decode?_encode]

theorem Node.isReadable_encode (exact : node.data.IsExact) : Node.isReadable node.encode := by
  have sound : ∀ m ∈ node.data.fields, m.2.isSound Json.memberNesting :=
    fun m isIn => (Json.shallow_fields 122 exact m isIn).isSound
  have fields : node.data.fields.all fun m => m.1 == "pos" || m.2.isSound Json.memberNesting :=
    List.all_eq_true.2 fun m isIn => by rw [sound m isIn, Bool.or_true]
  simp only [encode, isReadable, List.all_cons, fields, beq_self_eq_true, Json.isSound,
    Bool.true_or, Bool.or_true, Bool.and_self]

theorem Node.plain_encode (exact : node.data.IsExact) : Json.Plain node.encode := by
  have fields : ∀ m ∈ node.data.fields, Json.Plain m.2 :=
    fun m isIn => (Json.shallow_fields 0 exact m isIn).plain
  have pos : Json.Plain node.pos.encode := (Json.shallow_position 0 node.pos).plain
  refine .object (List.forall_mem_cons.2 ⟨pos, List.forall_mem_cons.2 ⟨.string _, fields⟩⟩)

namespace SyntaxTree

/-- No literal of the tree is a number with a point. -/
def IsExact (t : SyntaxTree) : Prop := ∀ node ∈ t.arena.nodes.toList, node.data.IsExact

variable {t : SyntaxTree}

theorem decode?_arena (exact : t.IsExact) : Arena.decode? t.arena.encode = some t.arena := by
  have each : ∀ node ∈ t.arena.nodes.toList,
      (if Node.isReadable node.encode then Node.decode? node.encode else none) = some node :=
    fun node isIn => by
      rw [if_pos (Node.isReadable_encode (exact node isIn)), Node.decode?_encode (exact node isIn)]
  have nodes : Json.list? (fun item => if Node.isReadable item then Node.decode? item else none)
      t.arena.encode = some t.arena.nodes.toList :=
    Json.list?_map each
  rw [Arena.decode?, nodes]
  rfl

theorem decode?_encode (exact : t.IsExact) : SyntaxTree.decode? t.encode = some t := by
  simp [encode, decode?, Json.required, decode?_arena exact]

theorem plain_encode (exact : t.IsExact) : Json.Plain t.encode := by
  have nodes : Json.Plain t.arena.encode :=
    .array (List.forall_mem_map.2 fun node isIn => Node.plain_encode (exact node isIn))
  have root : Json.Plain (.ofIndex t.root) := (Json.shallow_ofIndex 0 t.root).plain
  refine .object ?_
  simp [nodes, root, Json.Plain.string]

/-- The text of a tree without doubles is read back as the tree. So a tree that was read from a text
is not changed by writing it out and reading it again. -/
theorem ofText?_toText (exact : t.IsExact) : ofText? t.toText = some t
    ∧ ∀ text, ofText? text = some t → ((ofText? text).map toText).bind ofText? = some t := by
  have back : ofText? t.toText = some t := by
    rw [ofText?, toText, Json.read_pretty (plain_encode exact), Option.bind_some,
      decode?_encode exact]
  refine ⟨back, fun text read => ?_⟩
  rw [read, Option.map_some, Option.bind_some, back]

theorem ofText?_toText_literals :
    let t : SyntaxTree :=
      { fileName := "Größe.java"
        arena := { nodes := #[{ pos := { line := 4294967295, column := 0 }, data := .literal .null },
          { pos := .nowhere, data := .literal (.string "\"\t\x01") },
          { pos := .nowhere, data := .literal (.int (-9223372036854775808)) }] }
        root := .absent }
    t.IsExact ∧ ofText? t.toText = some t := by
  intro t
  have exact : t.IsExact := by simp [t, IsExact, NodeData.IsExact, Literal.IsDouble]
  exact ⟨exact, (ofText?_toText exact).1⟩

end SyntaxTree

end LevelCheck
