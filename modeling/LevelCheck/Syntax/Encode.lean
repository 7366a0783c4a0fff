import LevelCheck.Decimal
import LevelCheck.Syntax.Tree
set_option autoImplicit false

/-! # Syntax trees as JSON

Every node is an object that starts with its position and its kind and goes on with the parts of its
payload in declaration order. Parts that are absent are written as null. -/

namespace LevelCheck

/-! ## Words of the format -/

/-- The word of a node kind. -/
def Kind.word : Kind → String
  | .sourceFile => "source_file"
  | .classDef => "class_def"
  | .interfaceDef => "interface_def"
  | .methodDef => "method_def"
  | .constructorDef => "constructor_def"
  | .formalParameter => "formal_parameter"
  | .variableDeclaration => "variable_declaration"
  | .variableDeclarator => "variable_declarator"
  | .block => "block"
  | .instanceInitializer => "instance_initializer"
  | .tryCatch => "try_catch"
  | .catchBlock => "catch_block"
  | .expressionStatement => "expression_statement"
  | .returnStatement => "return"
  | .ifStatement => "if"
  | .whileStatement => "while"
  | .forStatement => "for"
  | .binary => "binary"
  | .unary => "unary"
  | .assignment => "assignment"
  | .literal => "literal"
  | .nameReference => "name_reference"
  | .fieldAccess => "field_access"
  | .methodInvocation => "method_invocation"
  | .thisReference => "this_reference"
  | .instantiation => "instantiation"
  | .anonymousClass => "anonymous_class"
  | .cast => "cast"

/-- The kinds in declaration order. -/
def Kind.all : List Kind :=
  [.sourceFile, .classDef, .interfaceDef, .methodDef, .constructorDef, .formalParameter,
    .variableDeclaration, .variableDeclarator, .block, .instanceInitializer, .tryCatch, .catchBlock,
    .expressionStatement, .returnStatement, .ifStatement, .whileStatement, .forStatement, .binary,
    .unary, .assignment, .literal, .nameReference, .fieldAccess, .methodInvocation, .thisReference,
    .instantiation, .anonymousClass, .cast]

/-- The word of a binary operator. -/
def BinaryOp.word : BinaryOp → String
  | .add => "add"
  | .sub => "sub"
  | .mul => "mul"
  | .div => "div"
  | .rem => "rem"
  | .less => "less"
  | .lessEq => "less_eq"
  | .greater => "greater"
  | .greaterEq => "greater_eq"
  | .eq => "eq"
  | .notEq => "not_eq"
  | .and => "and"
  | .or => "or"
  | .bitAnd => "bit_and"
  | .bitOr => "bit_or"
  | .bitXor => "bit_xor"
  | .shiftLeft => "shift_left"
  | .shiftRight => "shift_right"
  | .unsignedShiftRight => "unsigned_shift_right"
  | .instanceOf => "instance_of"

/-- The binary operators. -/
def BinaryOp.all : List BinaryOp :=
  [.add, .sub, .mul, .div, .rem, .less, .lessEq, .greater, .greaterEq, .eq, .notEq, .and, .or,
    .bitAnd, .bitOr, .bitXor, .shiftLeft, .shiftRight, .unsignedShiftRight, .instanceOf]

/-- The word of a unary operator. -/
def UnaryOp.word : UnaryOp → String
  | .plus => "plus"
  | .minus => "minus"
  | .not => "not"
  | .bitNot => "bit_not"
  | .preIncrement => "pre_increment"
  | .preDecrement => "pre_decrement"
  | .postIncrement => "post_increment"
  | .postDecrement => "post_decrement"

/-- The unary operators. -/
def UnaryOp.all : List UnaryOp :=
  [.plus, .minus, .not, .bitNot, .preIncrement, .preDecrement, .postIncrement, .postDecrement]

/-- The word of an assignment operator. -/
def AssignOp.word : AssignOp → String
  | .assign => "assign"
  | .add => "add"
  | .sub => "sub"
  | .mul => "mul"
  | .div => "div"
  | .rem => "rem"
  | .bitAnd => "bit_and"
  | .bitOr => "bit_or"
  | .bitXor => "bit_xor"
  | .shiftLeft => "shift_left"
  | .shiftRight => "shift_right"
  | .unsignedShiftRight => "unsigned_shift_right"

/-- The assignment operators. -/
def AssignOp.all : List AssignOp :=
  [.assign, .add, .sub, .mul, .div, .rem, .bitAnd, .bitOr, .bitXor, .shiftLeft, .shiftRight,
    .unsignedShiftRight]

/-! ## Parts -/

namespace Json

/-- A list of texts. -/
def ofTexts (texts : List String) : Json := .array (texts.map .string)

/-- A reference to a node. -/
def ofIndex (idx : NodeIndex) : Json := .ofNat idx.val.toNat

/-- A list of references. -/
def ofIndices (indices : List NodeIndex) : Json := .array (indices.map ofIndex)

/-- A reference that may be absent. -/
def ofIndex? : Option NodeIndex → Json
  | some idx => ofIndex idx
  | none => .null

/-- A list of modifiers. -/
def ofModifiers (modifiers : List Modifier) : Json := ofTexts (modifiers.map Modifier.keyword)

end Json

/-- A position with its line and column. -/
def Position.encode (p : Position) : Json :=
  .object [("line", .ofNat p.line.toNat), ("column", .ofNat p.column.toNat)]

/-- An import with its name and whether it is on demand. -/
def ImportDecl.encode (i : ImportDecl) : Json :=
  .object [("name", .string i.name), ("on_demand", .bool i.onDemand)]

/-- A literal with its type and its value; null has no value. -/
def Literal.encode : Literal → Json
  | .int i => .object [("type", .string "int"), ("value", .ofInt i.toInt)]
  | .double x => .object [("type", .string "double"), ("value", .number (Decimal.jsonNumber x))]
  | .bool b => .object [("type", .string "bool"), ("value", .bool b)]
  | .char c => .object [("type", .string "char"), ("value", .string (String.ofList [c]))]
  | .string s => .object [("type", .string "string"), ("value", .string s)]
  | .null => .object [("type", .string "null")]

/-- The members that write what a node says. -/
def NodeData.fields : NodeData → List (String × Json)
  | .sourceFile package imports types =>
    [("package", .ofText? package), ("imports", .array (imports.map ImportDecl.encode)),
      ("types", .ofIndices types)]
  | .classDef modifiers name typeParams superclass interfaces members =>
    [("modifiers", .ofModifiers modifiers), ("name", .string name),
      ("type_params", .ofTexts typeParams), ("superclass", .ofText? superclass),
      ("interfaces", .ofTexts interfaces), ("members", .ofIndices members)]
  | .interfaceDef modifiers name typeParams parents members =>
    [("modifiers", .ofModifiers modifiers), ("name", .string name),
      ("type_params", .ofTexts typeParams), ("extends", .ofTexts parents),
      ("members", .ofIndices members)]
  | .methodDef modifiers typeParams returnType name params throws body =>
    [("modifiers", .ofModifiers modifiers), ("type_params", .ofTexts typeParams),
      ("return_type", .string returnType), ("name", .string name), ("params", .ofIndices params),
      ("throws", .ofTexts throws), ("body", .ofIndex? body)]
  | .constructorDef modifiers name params throws body =>
    [("modifiers", .ofModifiers modifiers), ("name", .string name), ("params", .ofIndices params),
      ("throws", .ofTexts throws), ("body", .ofIndex body)]
  | .formalParameter isFinal type name =>
    [("is_final", .bool isFinal), ("ty", .string type), ("name", .string name)]
  | .variableDeclaration modifiers declarators =>
    [("modifiers", .ofModifiers modifiers), ("declarators", .ofIndices declarators)]
  | .variableDeclarator type name initializer =>
    [("ty", .string type), ("name", .string name), ("initializer", .ofIndex? initializer)]
  | .block statements => [("statements", .ofIndices statements)]
  | .instanceInitializer body => [("block", .ofIndex body)]
  | .tryCatch tryBlock catches finallyBlock =>
    [("try_block", .ofIndex tryBlock), ("catches", .ofIndices catches),
      ("finally_block", .ofIndex? finallyBlock)]
  | .catchBlock exception handler => [("exception", .ofIndex exception), ("block", .ofIndex handler)]
  | .expressionStatement expression => [("expression", .ofIndex expression)]
  | .returnStatement value => [("value", .ofIndex? value)]
  | .ifStatement condition thenBranch elseBranch =>
    [("condition", .ofIndex condition), ("then_branch", .ofIndex thenBranch),
      ("else_branch", .ofIndex? elseBranch)]
  | .whileStatement condition body => [("condition", .ofIndex condition), ("body", .ofIndex body)]
  | .forStatement init condition update body =>
    [("init", .ofIndices init), ("condition", .ofIndex? condition), ("update", .ofIndices update),
      ("body", .ofIndex body)]
  | .binary op left right =>
    [("op", .string op.word), ("left", .ofIndex left), ("right", .ofIndex right)]
  | .unary op operand => [("op", .string op.word), ("operand", .ofIndex operand)]
  | .assignment op target value =>
    [("op", .string op.word), ("target", .ofIndex target), ("value", .ofIndex value)]
  | .literal value => [("value", value.encode)]
  | .nameReference name => [("name", .string name)]
  | .fieldAccess receiver name => [("receiver", .ofIndex receiver), ("name", .string name)]
  | .methodInvocation receiver name arguments =>
    [("receiver", .ofIndex? receiver), ("name", .string name), ("arguments", .ofIndices arguments)]
  | .thisReference qualifier => [("qualifier", .ofIndex? qualifier)]
  | .instantiation outer type arguments =>
    [("outer", .ofIndex? outer), ("ty", .string type), ("arguments", .ofIndices arguments)]
  | .anonymousClass outer type arguments members =>
    [("outer", .ofIndex? outer), ("ty", .string type), ("arguments", .ofIndices arguments),
      ("members", .ofIndices members)]
  | .cast type expression => [("ty", .string type), ("expression", .ofIndex expression)]

/-! ## Nodes and trees -/

/-- A node: its position, its kind and what it says. -/
def Node.encode (n : Node) : Json :=
  .object (("pos", n.pos.encode) :: ("kind", .string n.kind.word) :: n.data.fields)

/-- An arena as the list of its nodes. -/
def Arena.encode (a : Arena) : Json := .array (a.nodes.toList.map Node.encode)

/-- A tree with its file name, its nodes and its root. -/
def SyntaxTree.encode (t : SyntaxTree) : Json :=
  .object [("file_name", .string t.fileName), ("arena", t.arena.encode), ("root", .ofIndex t.root)]

/-- The text of a tree, laid out with two spaces per level. -/
def SyntaxTree.toText (t : SyntaxTree) : String := t.encode.pretty

end LevelCheck
