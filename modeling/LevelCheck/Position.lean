set_option autoImplicit false

/-! # Source positions -/

namespace LevelCheck

/-- A line and a column, both counted from one. Line zero marks a node without a place in a
source. -/
structure Position where
  line : UInt32
  column : UInt32
  deriving DecidableEq, Repr, Inhabited

namespace Position

/-- The position of a node without a place in a source. -/
def nowhere : Position := { line := 0, column := 0 }

/-- The node has no place in a source. -/
def isNowhere (p : Position) : Bool := p.line == 0

/-- The position as `line:column`. -/
def text (p : Position) : String := toString p.line.toNat ++ ":" ++ toString p.column.toNat

end Position

end LevelCheck
