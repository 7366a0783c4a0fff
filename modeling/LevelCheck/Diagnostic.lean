import LevelCheck.Level
import LevelCheck.Syntax.Node
set_option autoImplicit false

/-! # Diagnostics

What a run reports is a list of records. The checker itself reports a closed set of problems; each
has a code, and its message is a template of that code with the problem's details filled in. -/

namespace LevelCheck

/-! ## Templates -/

/-- Replace `{0}`, `{1}`, … by the arguments, one argument after the other: an argument that itself
holds a later placeholder is filled in as well. -/
def formatFrom (text : String) : Nat → List String → String
  | _, [] => text
  | i, arg :: rest =>
    formatFrom (Text.replace ("\x7b" ++ toString i ++ "\x7d") arg text) (i + 1) rest

/-- A template with its arguments filled in. -/
def formatMessage (template : String) (args : List String) : String := formatFrom template 0 args

/-- The number of the placeholder that starts a text, and how many characters it takes. -/
def placeholder? : List Char → Option (Nat × Nat)
  | '\x7b' :: rest =>
    let digits := rest.takeWhile Char.isDigit
    match rest.dropWhile Char.isDigit with
    | '\x7d' :: _ =>
      match (String.ofList digits).toNat? with
      | some i => if (toString i).toList = digits then some (i, digits.length + 2) else none
      | none => none
    | _ => none
  | _ => none

/-- Fill in all placeholders at once, from left to right: what an argument holds is left as it is.
The first `skip` characters belong to a placeholder that was filled in. -/
def fillAtOnce (args : List String) : Nat → List Char → List Char
  | _, [] => []
  | skip + 1, _ :: rest => fillAtOnce args skip rest
  | 0, c :: rest =>
    match placeholder? (c :: rest) with
    | some (i, width) =>
      match args[i]? with
      | some arg => arg.toList ++ fillAtOnce args (width - 1) rest
      | none => c :: fillAtOnce args 0 rest
    | none => c :: fillAtOnce args 0 rest

/-- The template of a message code. -/
def template? (code : UInt32) : Option String :=
  match code.toNat with
  | 1001 => some "Methods definitions cannot appear within the body of another method or block."
  | 1002 => some "You cannot use \x7b0\x7dto declare a local variable at the \x7b1\x7d level"
  | 1003 => some "You cannot have two variables with the same name."
  | 1004 =>
    some "You cannot reference the field 'this' inside a constructor at the \x7b0\x7d Level"
  | 1005 => some ("Bitwise or expressions cannot be used at any language level.  Perhaps you meant " ++
      "to compare two values using regular or (||)")
  | 1006 => some ("Bitwise and expressions cannot be used at any language level.  Perhaps you meant " ++
      "to compare two values using regular and (&&)")
  | 1007 => some "Bitwise xor expressions cannot be used at any language level"
  | 1008 => some ("Bitwise not expressions cannot be used at any language level.  Perhaps you meant " ++
      "to negate this value using regular not (!)")
  | 1009 => some "Bit shifting operators cannot be used at any language level"
  | 1010 => some "\x7b0\x7d cannot be used at the \x7b1\x7d level"
  | 1011 => some "A try-catch statement can only appear inside the body of a method or block"
  | 1012 => some "This open brace must mark the beginning of a method or class body"
  | 1013 => some "The class or interface \x7b0\x7d has already been defined"
  | 1014 => some "You cannot have two method parameters with the same name"
  | 1015 => some "You cannot have two fields with the same name: \x7b0\x7d"
  | 1016 => some "The constructor name \x7b0\x7d must match the name of its class \x7b1\x7d"
  | 1017 => some "\x7b0\x7d is an interface and cannot be extended by the class \x7b1\x7d"
  | 1018 => some "\x7b0\x7d is a class and cannot appear in the interface list of \x7b1\x7d"
  | 1019 => some "This construct is nested more than \x7b0\x7d levels deep"
  | 2001 => some "Could not resolve symbol \x7b0\x7d"
  | _ => none

/-! ## Problems -/

/-- A construct that is left out of a level. -/
inductive Construct where
  | interfaces
  | tryCatch
  | anonymousClasses
  deriving DecidableEq, Repr

/-- The name of the construct in messages. -/
def Construct.name : Construct → String
  | .interfaces => "Interfaces"
  | .tryCatch => "Try-catch statements"
  | .anonymousClasses => "Anonymous inner classes"

/-- What the checker can find wrong. -/
inductive Problem where
  | methodInBody
  | localModifiers (modifiers : List Modifier) (level : Level)
  | duplicateVariable
  | thisInConstructor (level : Level)
  | bitwiseOr
  | bitwiseAnd
  | bitwiseXor
  | bitwiseNot
  | bitShift
  | notAtLevel (construct : Construct) (level : Level)
  | tryCatchOutsideBody
  | initializerAtClassScope
  | duplicateClass (name : String)
  | duplicateParameter
  | duplicateField (name : String)
  | constructorName (constructor : String) (owner : String)
  | extendsInterface (parent : String) (child : String)
  | implementsClass (parent : String) (child : String)
  | nestingTooDeep (limit : Nat)
  | unresolved (name : String)
  deriving DecidableEq, Repr

namespace Problem

/-- The code of the problem. -/
def code : Problem → UInt32
  | .methodInBody => 1001
  | .localModifiers .. => 1002
  | .duplicateVariable => 1003
  | .thisInConstructor _ => 1004
  | .bitwiseOr => 1005
  | .bitwiseAnd => 1006
  | .bitwiseXor => 1007
  | .bitwiseNot => 1008
  | .bitShift => 1009
  | .notAtLevel .. => 1010
  | .tryCatchOutsideBody => 1011
  | .initializerAtClassScope => 1012
  | .duplicateClass _ => 1013
  | .duplicateParameter => 1014
  | .duplicateField _ => 1015
  | .constructorName .. => 1016
  | .extendsInterface .. => 1017
  | .implementsClass .. => 1018
  | .nestingTooDeep _ => 1019
  | .unresolved _ => 2001

/-- Keywords as they stand in a message, each quoted and followed by a space. -/
def keywordList (modifiers : List Modifier) : String :=
  "the keyword(s) " ++ String.join (modifiers.map fun m => "\"" ++ m.keyword ++ "\" ")

/-- The details that fill the template. -/
def arguments : Problem → List String
  | .localModifiers modifiers level => [keywordList modifiers, level.name]
  | .thisInConstructor level => [level.name]
  | .notAtLevel construct level => [construct.name, level.name]
  | .duplicateClass name => [name]
  | .duplicateField name => [name]
  | .constructorName constructor owner => [constructor, owner]
  | .extendsInterface parent child => [parent, child]
  | .implementsClass parent child => [parent, child]
  | .nestingTooDeep limit => [toString limit]
  | .unresolved name => [name]
  | _ => []

/-- The wording of the problem. -/
def message (p : Problem) : String := formatMessage ((template? p.code).getD "") p.arguments

end Problem

/-! ## Records -/

/-- How serious a record is. -/
inductive Category where
  | warning
  | error
  deriving DecidableEq, Repr, Inhabited

/-- The word for the category. -/
def Category.word : Category → String
  | .warning => "warning"
  | .error => "error"

/-- One record of a run. A record without a position has line and column -1. -/
structure Diagnostic where
  file : Option String
  line : Int32
  column : Int32
  message : String
  category : Category
  code : UInt32
  /-- The children of the node were not visited. -/
  prunes : Bool
  deriving DecidableEq, Repr, Inhabited

namespace Diagnostic

/-- An error at a position of a file. Lines and columns are taken as signed words. -/
def error (file : String) (pos : Position) (message : String) (code : UInt32) : Diagnostic :=
  { file := some file
    line := if pos.isNowhere then -1 else pos.line.toInt32
    column := if pos.isNowhere then -1 else pos.column.toInt32
    message, category := .error, code, prunes := false }

/-- A record without file and position. -/
def unpositioned (message : String) (category : Category) (code : UInt32) : Diagnostic :=
  { file := none, line := -1, column := -1, message, category, code, prunes := false }

/-- The record of a problem at a position of a file. -/
def ofProblem (file : String) (pos : Position) (p : Problem) : Diagnostic :=
  error file pos p.message p.code

/-- Mark the record as one that kept the children of its node from being visited. -/
def pruning (d : Diagnostic) : Diagnostic := { d with prunes := true }

/-- The record is only a warning. -/
def isWarning (d : Diagnostic) : Bool := d.category == .warning

/-- The record has a line. -/
def hasPosition (d : Diagnostic) : Bool := d.line != -1

/-- The record on one line: its place as far as it is known, its category and its message. -/
def text (d : Diagnostic) : String :=
  let place := match d.file with
    | some file =>
      if d.hasPosition then
        file ++ ":" ++ toString d.line.toInt ++ ":" ++ toString d.column.toInt ++ ": "
      else file ++ ": "
    | none => ""
  place ++ d.category.word ++ ": " ++ d.message

end Diagnostic

/-- The number of errors among records. -/
def errorCount (diagnostics : List Diagnostic) : Nat :=
  diagnostics.countP fun d => d.category == .error

end LevelCheck
