import LevelCheck.Position
set_option autoImplicit false

/-! # Syntax nodes

A node is a position and a payload. Payloads refer to other nodes by index into the arena that
holds them all; `NodeData.children` lists these references in source order. -/

namespace LevelCheck

/-! ## Parts of nodes -/

/-- The index of a node in its arena. -/
structure NodeIndex where
  val : UInt32
  deriving DecidableEq, Repr, Inhabited, Hashable

namespace NodeIndex

/-- The index that names no node. -/
def absent : NodeIndex := { val := 4294967295 }

end NodeIndex

/-- A modifier of a declaration. -/
inductive Modifier where
  | pub
  | prot
  | priv
  | static
  | final
  | abstr
  | native
  | synchronized
  | transient
  | volatile
  | strictfp
  deriving DecidableEq, Repr, Inhabited

namespace Modifier

/-- The modifiers, in the order of their flags. -/
def all : List Modifier :=
  [.pub, .prot, .priv, .static, .final, .abstr, .native, .synchronized, .transient,
    .volatile, .strictfp]

/-- The keyword. -/
def keyword : Modifier → String
  | .pub => "public"
  | .prot => "protected"
  | .priv => "private"
  | .static => "static"
  | .final => "final"
  | .abstr => "abstract"
  | .native => "native"
  | .synchronized => "synchronized"
  | .transient => "transient"
  | .volatile => "volatile"
  | .strictfp => "strictfp"

/-- The flag that stands for the modifier in a set of flags. -/
def flag : Modifier → Nat
  | .pub => 1
  | .prot => 2
  | .priv => 4
  | .static => 8
  | .final => 16
  | .abstr => 32
  | .native => 64
  | .synchronized => 128
  | .transient => 256
  | .volatile => 512
  | .strictfp => 1024

/-- The set of flags of written modifiers. -/
def flags (modifiers : List Modifier) : Nat := modifiers.foldl (fun bits m => bits ||| m.flag) 0

/-- A set of flags holds the modifier. -/
def isIn (m : Modifier) (flags : Nat) : Bool := flags &&& m.flag != 0

end Modifier

/-- An import; on demand when it names a package and all its types. -/
structure ImportDecl where
  name : String
  onDemand : Bool
  deriving DecidableEq, Repr, Inhabited

/-- A binary operator. -/
inductive BinaryOp where
  | add
  | sub
  | mul
  | div
  | rem
  | less
  | lessEq
  | greater
  | greaterEq
  | eq
  | notEq
  | and
  | or
  | bitAnd
  | bitOr
  | bitXor
  | shiftLeft
  | shiftRight
  | unsignedShiftRight
  | instanceOf
  deriving DecidableEq, Repr, Inhabited

/-- A unary operator. -/
inductive UnaryOp where
  | plus
  | minus
  | not
  | bitNot
  | preIncrement
  | preDecrement
  | postIncrement
  | postDecrement
  deriving DecidableEq, Repr, Inhabited

/-- An assignment operator. -/
inductive AssignOp where
  | assign
  | add
  | sub
  | mul
  | div
  | rem
  | bitAnd
  | bitOr
  | bitXor
  | shiftLeft
  | shiftRight
  | unsignedShiftRight
  deriving DecidableEq, Repr, Inhabited

/-- A literal. -/
inductive Literal where
  | int (value : Int64)
  | double (value : Float)
  | bool (value : Bool)
  | char (value : Char)
  | string (value : String)
  | null
  deriving BEq, Repr, Inhabited

/-! ## Nodes -/

/-- What kind of construct a node is. -/
inductive Kind where
  | sourceFile
  | classDef
  | interfaceDef
  | methodDef
  | constructorDef
  | formalParameter
  | variableDeclaration
  | variableDeclarator
  | block
  | instanceInitializer
  | tryCatch
  | catchBlock
  | expressionStatement
  | returnStatement
  | ifStatement
  | whileStatement
  | forStatement
  | binary
  | unary
  | assignment
  | literal
  | nameReference
  | fieldAccess
  | methodInvocation
  | thisReference
  | instantiation
  | anonymousClass
  | cast
  deriving DecidableEq, Repr, Inhabited

/-- What a node says. -/
inductive NodeData where
  | sourceFile (package : Option String) (imports : List ImportDecl) (types : List NodeIndex)
  | classDef (modifiers : List Modifier) (name : String) (typeParams : List String)
      (superclass : Option String) (interfaces : List String) (members : List NodeIndex)
  | interfaceDef (modifiers : List Modifier) (name : String) (typeParams : List String)
      (parents : List String) (members : List NodeIndex)
  /-- A method; one without a body is abstract or belongs to an interface. -/
  | methodDef (modifiers : List Modifier) (typeParams : List String) (returnType : String)
      (name : String) (params : List NodeIndex) (throws : List String) (body : Option NodeIndex)
  | constructorDef (modifiers : List Modifier) (name : String) (params : List NodeIndex)
      (throws : List String) (body : NodeIndex)
  | formalParameter (isFinal : Bool) (type name : String)
  | variableDeclaration (modifiers : List Modifier) (declarators : List NodeIndex)
  | variableDeclarator (type name : String) (initializer : Option NodeIndex)
  | block (statements : List NodeIndex)
  | instanceInitializer (body : NodeIndex)
  | tryCatch (tryBlock : NodeIndex) (catches : List NodeIndex) (finallyBlock : Option NodeIndex)
  | catchBlock (exception handler : NodeIndex)
  | expressionStatement (expression : NodeIndex)
  | returnStatement (value : Option NodeIndex)
  | ifStatement (condition thenBranch : NodeIndex) (elseBranch : Option NodeIndex)
  | whileStatement (condition body : NodeIndex)
  | forStatement (init : List NodeIndex) (condition : Option NodeIndex) (update : List NodeIndex)
      (body : NodeIndex)
  | binary (op : BinaryOp) (left right : NodeIndex)
  | unary (op : UnaryOp) (operand : NodeIndex)
  | assignment (op : AssignOp) (target value : NodeIndex)
  | literal (value : Literal)
  | nameReference (name : String)
  | fieldAccess (receiver : NodeIndex) (name : String)
  | methodInvocation (receiver : Option NodeIndex) (name : String) (arguments : List NodeIndex)
  /-- The current object, or that of an enclosing class when it is qualified. -/
  | thisReference (qualifier : Option NodeIndex)
  | instantiation (outer : Option NodeIndex) (type : String) (arguments : List NodeIndex)
  | anonymousClass (outer : Option NodeIndex) (type : String) (arguments members : List NodeIndex)
  | cast (type : String) (expression : NodeIndex)
  deriving BEq, Repr, Inhabited

namespace NodeData

/-- The kind of construct. -/
def kind : NodeData → Kind
  | .sourceFile .. => .sourceFile
  | .classDef .. => .classDef
  | .interfaceDef .. => .interfaceDef
  | .methodDef .. => .methodDef
  | .constructorDef .. => .constructorDef
  | .formalParameter .. => .formalParameter
  | .variableDeclaration .. => .variableDeclaration
  | .variableDeclarator .. => .variableDeclarator
  | .block .. => .block
  | .instanceInitializer .. => .instanceInitializer
  | .tryCatch .. => .tryCatch
  | .catchBlock .. => .catchBlock
  | .expressionStatement .. => .expressionStatement
  | .returnStatement .. => .returnStatement
  | .ifStatement .. => .ifStatement
  | .whileStatement .. => .whileStatement
  | .forStatement .. => .forStatement
  | .binary .. => .binary
  | .unary .. => .unary
  | .assignment .. => .assignment
  | .literal .. => .literal
  | .nameReference .. => .nameReference
  | .fieldAccess .. => .fieldAccess
  | .methodInvocation .. => .methodInvocation
  | .thisReference .. => .thisReference
  | .instantiation .. => .instantiation
  | .anonymousClass .. => .anonymousClass
  | .cast .. => .cast

/-- The nodes it refers to, in source order. -/
def children : NodeData → List NodeIndex
  | .sourceFile _ _ types => types
  | .classDef _ _ _ _ _ members => members
  | .interfaceDef _ _ _ _ members => members
  | .methodDef _ _ _ _ params _ body => params ++ body.toList
  | .constructorDef _ _ params _ body => params ++ [body]
  | .formalParameter .. => []
  | .variableDeclaration _ declarators => declarators
  | .variableDeclarator _ _ initializer => initializer.toList
  | .block statements => statements
  | .instanceInitializer body => [body]
  | .tryCatch tryBlock catches finallyBlock => tryBlock :: (catches ++ finallyBlock.toList)
  | .catchBlock exception handler => [exception, handler]
  | .expressionStatement expression => [expression]
  | .returnStatement value => value.toList
  | .ifStatement condition thenBranch elseBranch => condition :: thenBranch :: elseBranch.toList
  | .whileStatement condition body => [condition, body]
  | .forStatement init condition update body => init ++ condition.toList ++ update ++ [body]
  | .binary _ left right => [left, right]
  | .unary _ operand => [operand]
  | .assignment _ target value => [target, value]
  | .literal _ => []
  | .nameReference _ => []
  | .fieldAccess receiver _ => [receiver]
  | .methodInvocation receiver _ arguments => receiver.toList ++ arguments
  | .thisReference qualifier => qualifier.toList
  | .instantiation outer _ arguments => outer.toList ++ arguments
  | .anonymousClass outer _ arguments members => outer.toList ++ arguments ++ members
  | .cast _ expression => [expression]

end NodeData

/-- A syntax node. -/
structure Node where
  pos : Position
  data : NodeData
  deriving BEq, Repr, Inhabited

namespace Node

/-- The kind of construct. -/
def kind (n : Node) : Kind := n.data.kind

end Node

end LevelCheck
