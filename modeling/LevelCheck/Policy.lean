import LevelCheck.Diagnostic
set_option autoImplicit false

/-! # Level policies

Each level owns one table of rules, keyed by the scope that a node appears in and by the node's
kind. A node is offered to the table of the file's level and then to those of all more permissive
levels, until a rule accepts or prunes it; a node that no rule decides on is legal. -/

namespace LevelCheck

/-- Where a node appears. -/
inductive ScopeKind where
  /-- At the top level of a file. -/
  | file
  /-- Directly in a class or interface. -/
  | classBody
  /-- In the body of a method, a constructor or a block. -/
  | body
  /-- Anywhere: what a rule for all scopes is entered under. -/
  | any
  deriving DecidableEq, Repr, Inhabited

/-- What a rule decides. -/
inductive Step where
  /-- It leaves the decision to the next table. -/
  | forward
  /-- The node is legal. -/
  | accept
  /-- The node is illegal and its children are skipped. -/
  | prune
  deriving DecidableEq, Repr, Inhabited

/-- A node as it is offered to the rules. -/
structure Offer where
  node : Node
  scope : ScopeKind
  /-- The level of the file that is checked. -/
  level : Level
  /-- The node lies in the body of a constructor. -/
  inConstructor : Bool
  deriving Repr

/-- A decision, the problems raised on the way to it, and whether the local variables that the node
declares become final. -/
structure Ruling where
  step : Step
  raised : List Problem
  forceFinal : Bool
  deriving DecidableEq, Repr

namespace Ruling

/-- Leave the decision to the next table. -/
def forward : Ruling := { step := .forward, raised := [], forceFinal := false }

/-- The node is legal. -/
def accept : Ruling := { step := .accept, raised := [], forceFinal := false }

/-- The node is illegal for the given reason. -/
def prune (p : Problem) : Ruling := { step := .prune, raised := [p], forceFinal := false }

/-- The ruling of a table that leaves the decision to later ones, followed by theirs. -/
def andThen (first later : Ruling) : Ruling :=
  { step := later.step
    raised := first.raised ++ later.raised
    forceFinal := first.forceFinal || later.forceFinal }

end Ruling

/-- A rule for nodes of one kind. -/
abbrev Rule := Offer → Ruling

/-- A rule and the nodes it is for. -/
structure RuleEntry where
  scope : ScopeKind
  kind : Kind
  rule : Rule

namespace Rule

/-! ## The full language -/

/-- A method may not be defined in a body. -/
def methodInBody : Rule := fun _ => .prune .methodInBody

/-! ## Rules of every restricted level -/

/-- The problem with a bitwise or shift operator. -/
def bitwiseProblem? : BinaryOp → Option Problem
  | .bitOr => some .bitwiseOr
  | .bitAnd => some .bitwiseAnd
  | .bitXor => some .bitwiseXor
  | .shiftLeft | .shiftRight | .unsignedShiftRight => some .bitShift
  | _ => none

/-- The operator that an assignment applies before it assigns. -/
def appliedOp? : AssignOp → Option BinaryOp
  | .assign => none
  | .add => some .add
  | .sub => some .sub
  | .mul => some .mul
  | .div => some .div
  | .rem => some .rem
  | .bitAnd => some .bitAnd
  | .bitOr => some .bitOr
  | .bitXor => some .bitXor
  | .shiftLeft => some .shiftLeft
  | .shiftRight => some .shiftRight
  | .unsignedShiftRight => some .unsignedShiftRight

/-- Prune for a problem, if there is one. -/
def pruneFor : Option Problem → Ruling
  | some p => .prune p
  | none => .forward

/-- A binary operation may not use a bitwise or shift operator. -/
def noBitwiseBinary : Rule := fun offer =>
  match offer.node.data with
  | .binary op _ _ => pruneFor (bitwiseProblem? op)
  | _ => .forward

/-- Bits may not be inverted. -/
def noBitwiseNot : Rule := fun offer =>
  match offer.node.data with
  | .unary .bitNot _ => .prune .bitwiseNot
  | _ => .forward

/-- An assignment may not apply a bitwise or shift operator. -/
def noBitwiseAssignment : Rule := fun offer =>
  match offer.node.data with
  | .assignment op _ _ => pruneFor ((appliedOp? op).bind bitwiseProblem?)
  | _ => .forward

/-- A local variable may only be declared final. -/
def onlyFinalOnLocals : Rule := fun offer =>
  match offer.node.data with
  | .variableDeclaration modifiers _ =>
    match modifiers.filter (· != .final) with
    | [] => .forward
    | others => { Ruling.forward with raised := [.localModifiers others offer.level] }
  | _ => .forward

/-- A class body may not contain an initializer. -/
def noInitializerInClass : Rule := fun _ => .prune .initializerAtClassScope

/-! ## Rules of the two most restricted levels -/

/-- A local variable is declared without modifiers, and is final. -/
def noModifiersOnLocals : Rule := fun offer =>
  match offer.node.data with
  | .variableDeclaration modifiers _ =>
    { step := .accept
      raised := if modifiers.isEmpty then [] else [.localModifiers modifiers offer.level]
      forceFinal := true }
  | _ => .forward

/-- A constructor may not refer to its object. -/
def noThisInConstructor : Rule := fun offer =>
  if offer.inConstructor then
    { Ruling.forward with raised := [.thisInConstructor offer.level] }
  else .forward

/-- Exceptions may be caught in a body. -/
def tryCatchInBody : Rule := fun _ => .accept

/-- Exceptions may not be caught elsewhere. -/
def noTryCatchOutsideBody : Rule := fun _ => .prune .tryCatchOutsideBody

/-! ## Rules of the most restricted level -/

/-- A construct that the level leaves out. -/
def without (construct : Construct) : Rule := fun offer =>
  .prune (.notAtLevel construct offer.level)

end Rule

/-! ## Tables and chains -/

namespace Level

/-- The rules that a level adds to those of the more permissive levels. -/
def rules : Level → List RuleEntry
  | .full => [⟨.body, .methodDef, Rule.methodInBody⟩]
  | .advanced =>
    [⟨.any, .binary, Rule.noBitwiseBinary⟩,
      ⟨.any, .unary, Rule.noBitwiseNot⟩,
      ⟨.any, .assignment, Rule.noBitwiseAssignment⟩,
      ⟨.body, .variableDeclaration, Rule.onlyFinalOnLocals⟩,
      ⟨.classBody, .instanceInitializer, Rule.noInitializerInClass⟩]
  | .intermediate =>
    [⟨.body, .variableDeclaration, Rule.noModifiersOnLocals⟩,
      ⟨.body, .thisReference, Rule.noThisInConstructor⟩,
      ⟨.body, .tryCatch, Rule.tryCatchInBody⟩,
      ⟨.any, .tryCatch, Rule.noTryCatchOutsideBody⟩]
  | .elementary =>
    [⟨.any, .interfaceDef, Rule.without .interfaces⟩,
      ⟨.any, .tryCatch, Rule.without .tryCatch⟩,
      ⟨.any, .anonymousClass, Rule.without .anonymousClasses⟩]

/-- The rule of a level for a kind of node in a scope: one entered for that very scope comes before
one for any scope. -/
def ruleFor? (l : Level) (scope : ScopeKind) (kind : Kind) : Option Rule :=
  let entered (wanted : ScopeKind) :=
    (l.rules.find? fun e => e.kind == kind && e.scope == wanted).map (·.rule)
  match entered scope with
  | some rule => some rule
  | none => entered .any

end Level

namespace Policy

/-- The ruling of a row of levels: each is asked in turn until one decides. -/
def rulingOf : List Level → Offer → Ruling
  | [], _ => .accept
  | level :: rest, offer =>
    match level.ruleFor? offer.scope offer.node.kind with
    | none => rulingOf rest offer
    | some rule =>
      let ruling := rule offer
      match ruling.step with
      | .forward => ruling.andThen (rulingOf rest offer)
      | _ => ruling

/-- The ruling of a level's policy: its own table and those of all more permissive levels. -/
def ruling (l : Level) (offer : Offer) : Ruling := rulingOf l.andAbove offer

end Policy

end LevelCheck
