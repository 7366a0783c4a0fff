import LevelCheck.Syntax.Tree
import LevelCheck.Text
set_option autoImplicit false

/-! # Building trees

Children are built before their parents, so every construction takes indices of nodes that were
built earlier. A node gets the next line number unless a position was set for it. Each construction
is a step of a state: it returns the index of its node, and the builder that holds it. -/

namespace LevelCheck

/-- A tree under construction. -/
structure Builder where
  fileName : String
  arena : Arena
  /-- The line of the next node that no position is set for. -/
  nextLine : UInt32
  /-- The position set for the next node. -/
  pinned : Option Position
  deriving Repr

namespace Builder

/-- A construction step. -/
abbrev Step (α : Type) := StateM Builder α

/-- A builder that holds no node. -/
def start (fileName : String) : Builder :=
  { fileName, arena := .empty, nextLine := 1, pinned := none }

/-- The tree with the given root. -/
def finish (b : Builder) (root : NodeIndex) : SyntaxTree :=
  { fileName := b.fileName, arena := b.arena, root }

/-- Set the position of the next node. -/
def place (line column : UInt32) : Step Unit :=
  modify fun b => { b with pinned := some { line, column } }

/-- Add a node. -/
def node (data : NodeData) : Step NodeIndex := fun b =>
  match b.pinned with
  | some pos =>
    let (idx, arena) := b.arena.add pos data
    (idx, { b with arena, pinned := none })
  | none =>
    let (idx, arena) := b.arena.add { line := b.nextLine, column := 1 } data
    (idx, { b with arena, nextLine := b.nextLine + 1 })

/-! ## Declarations -/

/-- An import as it is written, on demand when it ends in `.*`. -/
def importOf (written : String) : ImportDecl :=
  match Text.withoutEnding? ".*" written with
  | some package => { name := package, onDemand := true }
  | none => { name := written, onDemand := false }

/-- A source file. -/
def sourceFile (package : Option String) (imports : List String) (types : List NodeIndex) :
    Step NodeIndex :=
  node (.sourceFile package (imports.map importOf) types)

/-- A class. -/
def classDef (modifiers : List Modifier) (name : String) (superclass : Option String)
    (interfaces : List String) (members : List NodeIndex) : Step NodeIndex :=
  node (.classDef modifiers name [] superclass interfaces members)

/-- An interface. -/
def interfaceDef (modifiers : List Modifier) (name : String) (parents : List String)
    (members : List NodeIndex) : Step NodeIndex :=
  node (.interfaceDef modifiers name [] parents members)

/-- A method. -/
def methodDef (modifiers : List Modifier) (returnType name : String) (params : List NodeIndex)
    (throws : List String) (body : Option NodeIndex) : Step NodeIndex :=
  node (.methodDef modifiers [] returnType name params throws body)

/-- A constructor. -/
def constructorDef (modifiers : List Modifier) (name : String) (params : List NodeIndex)
    (body : NodeIndex) : Step NodeIndex :=
  node (.constructorDef modifiers name params [] body)

/-- A parameter. -/
def param (type name : String) : Step NodeIndex := node (.formalParameter false type name)

/-- One variable of a declaration. -/
def declarator (type name : String) (initializer : Option NodeIndex) : Step NodeIndex :=
  node (.variableDeclarator type name initializer)

/-- A variable declaration. -/
def variableDeclaration (modifiers : List Modifier) (declarators : List NodeIndex) :
    Step NodeIndex :=
  node (.variableDeclaration modifiers declarators)

/-- A declaration of a single variable without modifiers. -/
def localVariable (type name : String) : Step NodeIndex := do
  let single ← declarator type name none
  variableDeclaration [] [single]

/-! ## Statements -/

/-- A block. -/
def block (statements : List NodeIndex) : Step NodeIndex := node (.block statements)

/-- An initializer. -/
def instanceInitializer (body : NodeIndex) : Step NodeIndex := node (.instanceInitializer body)

/-- A statement that catches exceptions. -/
def tryCatch (tryBlock : NodeIndex) (catches : List NodeIndex) (finallyBlock : Option NodeIndex) :
    Step NodeIndex :=
  node (.tryCatch tryBlock catches finallyBlock)

/-- The handler of an exception. -/
def catchBlock (exception handler : NodeIndex) : Step NodeIndex := node (.catchBlock exception handler)

/-- An expression as a statement. -/
def expressionStatement (expression : NodeIndex) : Step NodeIndex :=
  node (.expressionStatement expression)

/-- A return statement. -/
def returnStatement (value : Option NodeIndex) : Step NodeIndex := node (.returnStatement value)

/-- A conditional statement. -/
def ifStatement (condition thenBranch : NodeIndex) (elseBranch : Option NodeIndex) :
    Step NodeIndex :=
  node (.ifStatement condition thenBranch elseBranch)

/-- A loop with a condition only. -/
def whileStatement (condition body : NodeIndex) : Step NodeIndex :=
  node (.whileStatement condition body)

/-- A loop with a header. -/
def forStatement (init : List NodeIndex) (condition : Option NodeIndex) (update : List NodeIndex)
    (body : NodeIndex) : Step NodeIndex :=
  node (.forStatement init condition update body)

/-! ## Expressions -/

/-- A binary operation. -/
def binary (op : BinaryOp) (left right : NodeIndex) : Step NodeIndex := node (.binary op left right)

/-- A unary operation. -/
def unary (op : UnaryOp) (operand : NodeIndex) : Step NodeIndex := node (.unary op operand)

/-- An assignment. -/
def assignment (op : AssignOp) (target value : NodeIndex) : Step NodeIndex :=
  node (.assignment op target value)

/-- An integer literal. -/
def int (value : Int64) : Step NodeIndex := node (.literal (.int value))

/-- A string literal. -/
def string (value : String) : Step NodeIndex := node (.literal (.string value))

/-- A name. -/
def name (name : String) : Step NodeIndex := node (.nameReference name)

/-- A field of an object. -/
def fieldAccess (receiver : NodeIndex) (name : String) : Step NodeIndex :=
  node (.fieldAccess receiver name)

/-- A method call. -/
def call (receiver : Option NodeIndex) (name : String) (arguments : List NodeIndex) :
    Step NodeIndex :=
  node (.methodInvocation receiver name arguments)

/-- The current object. -/
def thisReference : Step NodeIndex := node (.thisReference none)

/-- The object of an enclosing class. -/
def qualifiedThis (qualifier : NodeIndex) : Step NodeIndex := node (.thisReference (some qualifier))

/-- A new object. -/
def newInstance (type : String) (arguments : List NodeIndex) : Step NodeIndex :=
  node (.instantiation none type arguments)

/-- A new object of an anonymous class. -/
def anonymousClass (type : String) (arguments members : List NodeIndex) : Step NodeIndex :=
  node (.anonymousClass none type arguments members)

/-- A cast. -/
def cast (type : String) (expression : NodeIndex) : Step NodeIndex := node (.cast type expression)

end Builder

end LevelCheck
