import LevelCheck.Json.Read
import LevelCheck.Syntax.Encode
set_option autoImplicit false

/-! # Reading syntax trees from JSON

Members may come in any order and unknown ones are ignored, but a known member may not be repeated.
A member that has a default may be missing, and one that may be absent may also be null; everything
else is required. Integers have to be written as integers in range. The position of a node is read
on its own, while the other members of a node are read whole before its kind is known, so nothing in
them may be malformed, even in members that are then ignored. -/

namespace LevelCheck

/-! ## Members of an object -/

namespace Json

/-- The values of the members called `name`, in order. -/
def valuesOf (name : String) (members : List (String × Json)) : List Json :=
  members.filterMap fun m => if m.1 == name then some m.2 else none

/-- A required member, given exactly once. -/
def required {α : Type} (members : List (String × Json)) (name : String) (read : Json → Option α) :
    Option α :=
  match valuesOf name members with
  | [value] => read value
  | _ => none

/-- A member with a default, given at most once. -/
def withDefault {α : Type} (members : List (String × Json)) (name : String) (default : α)
    (read : Json → Option α) : Option α :=
  match valuesOf name members with
  | [] => some default
  | [value] => read value
  | _ => none

/-- A member that may be missing or null. -/
def maybe {α : Type} (members : List (String × Json)) (name : String) (read : Json → Option α) :
    Option (Option α) :=
  withDefault members name none fun value =>
    match value with
    | .null => some none
    | value => (read value).map some

/-! ## Plain values -/

/-- A list whose items are all read. -/
def list? {α : Type} (read : Json → Option α) : Json → Option (List α)
  | .array items => items.mapM read
  | _ => none

/-- An integer below `2 ^ 32`. -/
def word? (j : Json) : Option UInt32 := do
  let n ← j.nat?
  if n < UInt32.size then some n.toUInt32 else none

/-- A signed integer of 64 bits. -/
def int64? (j : Json) : Option Int64 := do
  let i ← j.int?
  if Int64.minValue.toInt ≤ i ∧ i ≤ Int64.maxValue.toInt then some (Int64.ofInt i) else none

/-- A number as a double. -/
def double? : Json → Option Float
  | .number n => Decimal.ofJsonNumber? n
  | _ => none

/-- A text of exactly one character. -/
def char? : Json → Option Char
  | .string s =>
    match s.toList with
    | [c] => some c
    | _ => none
  | _ => none

/-- A reference to a node. -/
def index? (j : Json) : Option NodeIndex := j.word?.map fun w => { val := w }

/-- A word out of a fixed set: a string, or an object whose only member has that name and is null. -/
def tag? : Json → Option String
  | .string s => some s
  | .object [(s, .null)] => some s
  | _ => none

/-- A word out of a fixed set in a member of a node, where an empty object may stand for null. -/
def memberTag? : Json → Option String
  | .object [(s, .object [])] => some s
  | j => j.tag?

/-- The element of a list that a word names. -/
def named? {α : Type} (all : List α) (word : α → String) (tag : Option String) : Option α := do
  let s ← tag
  all.find? fun x => word x == s

/-- A modifier by its keyword. -/
def modifier? (j : Json) : Option Modifier := named? Modifier.all Modifier.keyword j.tag?

/-- The element of a list that a word in a member of a node names. -/
def memberNamed? {α : Type} (all : List α) (word : α → String) (j : Json) : Option α :=
  named? all word j.memberTag?

/-! ## Values read whole -/

mutual
/-- The value has at most `limit` arrays and objects around any part, every string in it is a text
and no number in it is too great. -/
def isSound : Nat → Json → Bool
  | _, .null => true
  | _, .bool _ => true
  | _, .number n => (Decimal.ofJsonNumber? n).isSome
  | _, .string _ => true
  | _, .unpaired => false
  | 0, .array _ => false
  | limit + 1, .array items => itemsSound limit items
  | 0, .object _ => false
  | limit + 1, .object members => membersSound limit members
/-- Every item is sound. -/
def itemsSound : Nat → List Json → Bool
  | _, [] => true
  | limit, item :: rest => isSound limit item && itemsSound limit rest
/-- Every member is sound. -/
def membersSound : Nat → List (String × Json) → Bool
  | _, [] => true
  | limit, (_, value) :: rest => isSound limit value && membersSound limit rest
end

/-- How many arrays and objects may be nested in one member of a node: the whole text may nest
them 127 deep, and three lie around such a member. -/
def memberNesting : Nat := 124

end Json

/-! ## Parts -/

/-- A position, as an object or as a list of its line and its column. -/
def Position.decode? : Json → Option Position
  | .object members => do
    let line ← Json.required members "line" Json.word?
    let column ← Json.required members "column" Json.word?
    some { line, column }
  | .array [line, column] => do
    let line ← line.word?
    let column ← column.word?
    some { line, column }
  | _ => none

/-- An import, as an object or as a list; it is not on demand unless it says so. -/
def ImportDecl.decode? : Json → Option ImportDecl
  | .object members => do
    let name ← Json.required members "name" Json.text?
    let onDemand ← Json.withDefault members "on_demand" false Json.bool?
    some { name, onDemand }
  | .array [name] => do
    let name ← name.text?
    some { name, onDemand := false }
  | .array [name, onDemand] => do
    let name ← name.text?
    let onDemand ← onDemand.bool?
    some { name, onDemand }
  | _ => none

/-- A literal from its type and its value, if it has one. -/
def Literal.ofParts? (type : String) (value : Option Json) : Option Literal :=
  match type, value with
  | "int", some v => v.int64?.map .int
  | "double", some v => v.double?.map .double
  | "bool", some v => v.bool?.map .bool
  | "char", some v => v.char?.map .char
  | "string", some v => v.text?.map .string
  | "null", some .null => some .null
  | "null", none => some .null
  | _, _ => none

/-- The types of literals. -/
def Literal.types : List String := ["int", "double", "bool", "char", "string", "null"]

/-- A word of a list, by itself or by its place in the list. -/
def Json.wordOf? (words : List String) : Json → Option String
  | .string s => some s
  | j => do
    let n ← j.nat?
    words[n]?

/-- A literal, as an object or as a list of its type and its value. In a list the type may be given
by its place among the types. -/
def Literal.decode? : Json → Option Literal
  | .object members => do
    let type ← Json.required members "type" Json.memberTag?
    let value ← Json.withDefault members "value" none fun v => some (some v)
    Literal.ofParts? type value
  | .array [type, value] => do
    let type ← type.wordOf? Literal.types
    Literal.ofParts? type (some value)
  | _ => none

/-- A node kind by its word. -/
def Kind.ofWord? (word : String) : Option Kind := Kind.all.find? fun k => k.word == word

/-- A node kind, by its word or by its place in declaration order. -/
def Kind.decode? (j : Json) : Option Kind := do
  let word ← j.wordOf? (Kind.all.map Kind.word)
  Kind.ofWord? word

/-! ## Nodes -/

/-- What a node of a kind says, from its members. -/
def NodeData.ofFields? (kind : Kind) (members : List (String × Json)) : Option NodeData := do
  let text (name : String) := Json.required members name Json.text?
  let texts (name : String) := Json.withDefault members name [] (Json.list? Json.text?)
  let index (name : String) := Json.required members name Json.index?
  let index? (name : String) := Json.maybe members name Json.index?
  let indices (name : String) := Json.required members name (Json.list? Json.index?)
  let modifiers := Json.withDefault members "modifiers" []
    (Json.list? (Json.memberNamed? Modifier.all Modifier.keyword))
  match kind with
  | .sourceFile =>
    let package ← Json.maybe members "package" Json.text?
    let imports ← Json.withDefault members "imports" [] (Json.list? ImportDecl.decode?)
    some (.sourceFile package imports (← indices "types"))
  | .classDef =>
    let superclass ← Json.maybe members "superclass" Json.text?
    some (.classDef (← modifiers) (← text "name") (← texts "type_params") superclass
      (← texts "interfaces") (← indices "members"))
  | .interfaceDef =>
    some (.interfaceDef (← modifiers) (← text "name") (← texts "type_params") (← texts "extends")
      (← indices "members"))
  | .methodDef =>
    some (.methodDef (← modifiers) (← texts "type_params") (← text "return_type") (← text "name")
      (← indices "params") (← texts "throws") (← index? "body"))
  | .constructorDef =>
    some (.constructorDef (← modifiers) (← text "name") (← indices "params") (← texts "throws")
      (← index "body"))
  | .formalParameter =>
    let isFinal ← Json.withDefault members "is_final" false Json.bool?
    some (.formalParameter isFinal (← text "ty") (← text "name"))
  | .variableDeclaration => some (.variableDeclaration (← modifiers) (← indices "declarators"))
  | .variableDeclarator =>
    some (.variableDeclarator (← text "ty") (← text "name") (← index? "initializer"))
  | .block => some (.block (← indices "statements"))
  | .instanceInitializer => some (.instanceInitializer (← index "block"))
  | .tryCatch =>
    some (.tryCatch (← index "try_block") (← indices "catches") (← index? "finally_block"))
  | .catchBlock => some (.catchBlock (← index "exception") (← index "block"))
  | .expressionStatement => some (.expressionStatement (← index "expression"))
  | .returnStatement => some (.returnStatement (← index? "value"))
  | .ifStatement =>
    some (.ifStatement (← index "condition") (← index "then_branch") (← index? "else_branch"))
  | .whileStatement => some (.whileStatement (← index "condition") (← index "body"))
  | .forStatement =>
    let init ← Json.withDefault members "init" [] (Json.list? Json.index?)
    let update ← Json.withDefault members "update" [] (Json.list? Json.index?)
    some (.forStatement init (← index? "condition") update (← index "body"))
  | .binary =>
    let op ← Json.required members "op" (Json.memberNamed? BinaryOp.all BinaryOp.word)
    some (.binary op (← index "left") (← index "right"))
  | .unary =>
    let op ← Json.required members "op" (Json.memberNamed? UnaryOp.all UnaryOp.word)
    some (.unary op (← index "operand"))
  | .assignment =>
    let op ← Json.required members "op" (Json.memberNamed? AssignOp.all AssignOp.word)
    some (.assignment op (← index "target") (← index "value"))
  | .literal =>
    let value ← Json.required members "value" Literal.decode?
    some (.literal value)
  | .nameReference => some (.nameReference (← text "name"))
  | .fieldAccess => some (.fieldAccess (← index "receiver") (← text "name"))
  | .methodInvocation =>
    some (.methodInvocation (← index? "receiver") (← text "name") (← indices "arguments"))
  | .thisReference => some (.thisReference (← index? "qualifier"))
  | .instantiation => some (.instantiation (← index? "outer") (← text "ty") (← indices "arguments"))
  | .anonymousClass =>
    some (.anonymousClass (← index? "outer") (← text "ty") (← indices "arguments")
      (← indices "members"))
  | .cast => some (.cast (← text "ty") (← index "expression"))

/-- The members that say what a node of a kind says, in their order. -/
def Kind.memberNames : Kind → List String
  | .sourceFile => ["package", "imports", "types"]
  | .classDef => ["modifiers", "name", "type_params", "superclass", "interfaces", "members"]
  | .interfaceDef => ["modifiers", "name", "type_params", "extends", "members"]
  | .methodDef => ["modifiers", "type_params", "return_type", "name", "params", "throws", "body"]
  | .constructorDef => ["modifiers", "name", "params", "throws", "body"]
  | .formalParameter => ["is_final", "ty", "name"]
  | .variableDeclaration => ["modifiers", "declarators"]
  | .variableDeclarator => ["ty", "name", "initializer"]
  | .block => ["statements"]
  | .instanceInitializer => ["block"]
  | .tryCatch => ["try_block", "catches", "finally_block"]
  | .catchBlock => ["exception", "block"]
  | .expressionStatement => ["expression"]
  | .returnStatement => ["value"]
  | .ifStatement => ["condition", "then_branch", "else_branch"]
  | .whileStatement => ["condition", "body"]
  | .forStatement => ["init", "condition", "update", "body"]
  | .binary => ["op", "left", "right"]
  | .unary => ["op", "operand"]
  | .assignment => ["op", "target", "value"]
  | .literal => ["value"]
  | .nameReference => ["name"]
  | .fieldAccess => ["receiver", "name"]
  | .methodInvocation => ["receiver", "name", "arguments"]
  | .thisReference => ["qualifier"]
  | .instantiation => ["outer", "ty", "arguments"]
  | .anonymousClass => ["outer", "ty", "arguments", "members"]
  | .cast => ["ty", "expression"]

theorem NodeData.map_fst_fields (data : NodeData) :
    data.fields.map (·.1) = data.kind.memberNames := by
  cases data <;> rfl

/-- What a node says, on its own: as an object, or as a list of the word of its kind and the values of
its members in their order. -/
def NodeData.decode? : Json → Option NodeData
  | .object members => do
    let word ← Json.required members "kind" Json.text?
    let kind ← Kind.ofWord? word
    NodeData.ofFields? kind members
  | .array (.string word :: values) => do
    let kind ← Kind.ofWord? word
    if values.length ≤ kind.memberNames.length then
      NodeData.ofFields? kind (kind.memberNames.zip values)
    else none
  | _ => none

/-- A node; without a position it is nowhere. -/
def Node.decode? : Json → Option Node
  | .object members => do
    let others := members.filter fun m => m.1 != "pos"
    let pos ← Json.withDefault members "pos" .nowhere Position.decode?
    let kind ← Json.required others "kind" Kind.decode?
    let data ← NodeData.ofFields? kind others
    some { pos, data }
  | _ => none

/-- What a node says can be read whole before its kind is known. -/
def Node.isReadable : Json → Bool
  | .object members => members.all fun m => m.1 == "pos" || m.2.isSound Json.memberNesting
  | _ => false

/-! ## Trees -/

/-- An arena from the list of its nodes. -/
def Arena.decode? (j : Json) : Option Arena := do
  let nodes ← Json.list? (fun item => if Node.isReadable item then Node.decode? item else none) j
  some { nodes := nodes.toArray }

/-- A tree, as an object or as a list of its file name, its nodes and its root. -/
def SyntaxTree.decode? : Json → Option SyntaxTree
  | .object members => do
    let fileName ← Json.required members "file_name" Json.text?
    let arena ← Json.required members "arena" Arena.decode?
    let root ← Json.required members "root" Json.index?
    some { fileName, arena, root }
  | .array [fileName, arena, root] => do
    let fileName ← fileName.text?
    let arena ← Arena.decode? arena
    let root ← root.index?
    some { fileName, arena, root }
  | _ => none

/-- The tree that a text writes. -/
def SyntaxTree.ofText? (text : String) : Option SyntaxTree :=
  (Json.read? text).bind SyntaxTree.decode?

end LevelCheck
