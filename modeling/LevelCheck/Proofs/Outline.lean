import LevelCheck.Proofs.VisitParts
import LevelCheck.Proofs.Writing
set_option autoImplicit false

/-! # Outlines of scopes

The body of a method is a scope, and the blocks, loops and handlers of exceptions in it are scopes of
their own. `Walk.Outline` reads off the nodes of a tree which variables a scope declares and which
scopes lie in it, in the order in which they are written. No table is needed for that.
`SymbolTable.Mirrors` says of the blocks of a table that they are the scopes of an outline. -/

namespace LevelCheck

/-! ## Scopes as they are written -/

/-- A scope as it is written: the variables that it declares, and the scopes in it. -/
inductive ScopeOutline where
  | mk (vars : List Walk.Declarator) (blocks : List ScopeOutline)

/-- What a node of a body adds to the scope around it. -/
inductive Walk.Portion where
  /-- Variables of that scope, and further nodes that lie in it. -/
  | joins (vars : List Declarator) (nodes : List (BlockMode × NodeIndex))
  /-- A scope of its own with variables, and the nodes that lie there. -/
  | opens (vars : List Declarator) (nodes : List (BlockMode × NodeIndex))

namespace Walk

variable (w : Walk)

/-- What the nodes of a body add to the scope around them. A declaration adds its variables, and its
initializers lie in the same scope. A block is a scope of its own, unless it is visited as the body of
a method or of a handler; so are a loop, with its header, and the handler of an exception, which
declares the exception. Classes and constructors declare their variables elsewhere, but an anonymous
class is built from nodes of the scope around it. -/
def portion (mode : BlockMode) : NodeData → Portion
  | .variableDeclaration modifiers nodes =>
    .joins ((w.declarators modifiers nodes).map (·.1))
      (nested ((w.declarators modifiers nodes).filterMap (·.2)))
  | .block statements =>
    match mode with
    | .nested => .opens [] (nested statements)
    | .inline => .joins [] (nested statements)
  | .forStatement init condition update body =>
    .opens [] (nested (init ++ condition.toList ++ update ++ [body]))
  | .catchBlock exception handler => .opens (w.param? exception).toList [(.inline, handler)]
  | .anonymousClass outer _ arguments _ => .joins [] (nested (outer.toList ++ arguments))
  | .classDef .. | .interfaceDef .. | .methodDef .. | .constructorDef .. | .formalParameter .. =>
    .joins [] []
  | data => .joins [] (nested data.children)

/-- The nodes declare these variables in the scope around them and open these scopes there. -/
inductive Outline : List (BlockMode × NodeIndex) → List Declarator → List ScopeOutline → Prop where
  | nil : Outline [] [] []
  | absent {mode : BlockMode} {idx : NodeIndex} {rest : List (BlockMode × NodeIndex)}
      {vars : List Declarator} {blocks : List ScopeOutline} (missing : w.arena.get? idx = none)
      (after : Outline rest vars blocks) : Outline ((mode, idx) :: rest) vars blocks
  | joins {mode : BlockMode} {idx : NodeIndex} {node : Node}
      {nodes rest : List (BlockMode × NodeIndex)}
      {own vars vars' : List Declarator} {blocks blocks' : List ScopeOutline}
      (found : w.arena.get? idx = some node) (is : w.portion mode node.data = .joins own nodes)
      (inside : Outline nodes vars blocks) (after : Outline rest vars' blocks') :
      Outline ((mode, idx) :: rest) (own ++ vars ++ vars') (blocks ++ blocks')
  | opens {mode : BlockMode} {idx : NodeIndex} {node : Node}
      {nodes rest : List (BlockMode × NodeIndex)}
      {own vars vars' : List Declarator} {blocks blocks' : List ScopeOutline}
      (found : w.arena.get? idx = some node) (is : w.portion mode node.data = .opens own nodes)
      (inside : Outline nodes vars blocks) (after : Outline rest vars' blocks') :
      Outline ((mode, idx) :: rest) vars' (.mk (own ++ vars) blocks :: blocks')

variable {w}

theorem Outline.append {nodes more : List (BlockMode × NodeIndex)} {vars vars' : List Declarator}
    {blocks blocks' : List ScopeOutline} (first : w.Outline nodes vars blocks)
    (second : w.Outline more vars' blocks') :
    w.Outline (nodes ++ more) (vars ++ vars') (blocks ++ blocks') := by
  induction first with
  | nil => exact second
  | absent missing _ ih => exact .absent missing ih
  | joins found is inside _ _ ih =>
    have joined := Outline.joins found is inside ih
    rwa [← List.append_assoc, ← List.append_assoc] at joined
  | opens found is inside _ _ ih => exact .opens found is inside ih

/-- The nodes have one outline only. -/
theorem Outline.unique {nodes : List (BlockMode × NodeIndex)} {vars vars' : List Declarator}
    {blocks blocks' : List ScopeOutline} (first : w.Outline nodes vars blocks)
    (second : w.Outline nodes vars' blocks') : vars = vars' ∧ blocks = blocks' := by
  induction first generalizing vars' blocks' with
  | nil =>
    cases second
    exact ⟨rfl, rfl⟩
  | absent missing _ ih =>
    cases second with
    | absent _ after => exact ih after
    | joins found | opens found =>
      rw [missing] at found
      cases found
  | joins found is _ _ ihInside ihAfter =>
    cases second with
    | absent missing =>
      rw [found] at missing
      cases missing
    | joins found' is' inside after =>
      obtain rfl := Option.some.inj (found.symm.trans found')
      obtain ⟨rfl, rfl⟩ := Portion.joins.inj (is.symm.trans is')
      obtain ⟨rfl, rfl⟩ := ihInside inside
      obtain ⟨rfl, rfl⟩ := ihAfter after
      exact ⟨rfl, rfl⟩
    | opens found' is' =>
      obtain rfl := Option.some.inj (found.symm.trans found')
      cases is.symm.trans is'
  | opens found is _ _ ihInside ihAfter =>
    cases second with
    | absent missing =>
      rw [found] at missing
      cases missing
    | joins found' is' =>
      obtain rfl := Option.some.inj (found.symm.trans found')
      cases is.symm.trans is'
    | opens found' is' inside after =>
      obtain rfl := Option.some.inj (found.symm.trans found')
      obtain ⟨rfl, rfl⟩ := Portion.opens.inj (is.symm.trans is')
      obtain ⟨rfl, rfl⟩ := ihInside inside
      obtain ⟨rfl, rfl⟩ := ihAfter after
      exact ⟨rfl, rfl⟩

end Walk

/-! ## Scopes of the table -/

namespace SymbolTable

/-- The variable is the one that a declarator writes. -/
structure Reads (t : SymbolTable) (v : VariableId) (d : Walk.Declarator) : Prop where
  known : v.val < t.vars.size
  name : (t.var v).name = d.name
  type : (t.var v).type.name = d.type
  modifiers : (t.var v).modifiers = d.modifiers
  hasInitializer : (t.var v).hasInitializer = d.hasInitializer

/-- The blocks are the scopes of an outline, one by one: they have the variables that are written, and
the blocks in them are the scopes in those. -/
inductive Mirrors (t : SymbolTable) : List BlockId → List ScopeOutline → Prop where
  | nil : Mirrors t [] []
  | cons {id : BlockId} {ids : List BlockId} {vars : List Walk.Declarator}
      {blocks rest : List ScopeOutline} (reads : List.Forall₂ t.Reads (t.block id).vars vars)
      (inside : Mirrors t (t.block id).blocks blocks) (after : Mirrors t ids rest) :
      Mirrors t (id :: ids) (.mk vars blocks :: rest)

theorem Mirrors.append {t : SymbolTable} {ids more : List BlockId} {blocks rest : List ScopeOutline}
    (first : t.Mirrors ids blocks) (second : t.Mirrors more rest) :
    t.Mirrors (ids ++ more) (blocks ++ rest) := by
  induction first with
  | nil => exact second
  | cons reads inside _ _ ih => exact .cons reads inside ih

end SymbolTable

namespace Walk

/-- The scope has the variables and the blocks that the nodes in it say, after variables of its own. -/
def Fills (w : Walk) (t : SymbolTable) (scope : ScopeRef) (own : List Declarator)
    (nodes : List (BlockMode × NodeIndex)) : Prop :=
  ∃ vars blocks, w.Outline nodes vars blocks ∧ List.Forall₂ t.Reads (t.varsOf scope) (own ++ vars)
    ∧ t.Mirrors (t.blocksOf scope) blocks

/-- The method is the one that a declaration writes: its variables are its parameters and those that
its body declares outside of the scopes in it, and its blocks are these scopes. -/
structure IsWritten (w : Walk) (t : SymbolTable) (decl : MethodDecl) (id : MethodId) : Prop where
  name : (t.method id).name = decl.name
  isConstructor : (t.method id).isConstructor = decl.isConstructor
  fills : w.Fills t (.method id) (decl.params.filterMap w.param?)
    (decl.body.toList.map (BlockMode.inline, ·))

end Walk

end LevelCheck
