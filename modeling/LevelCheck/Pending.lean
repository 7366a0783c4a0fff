import LevelCheck.Diagnostic
import LevelCheck.FileScope
set_option autoImplicit false

/-! # References that wait for a declaration

A reference to a class that has not been declared yet waits under one qualified name, and remembers
the other names it may turn out to denote. References are grouped by the name they wait for, the
groups in the order in which their names were first asked for. The declaration of a name releases
its group; at the end of a run everything that any of its names resolves by then is taken out, and
what is left stays unresolved. -/

namespace LevelCheck

/-- The place of a type reference in the symbol table, which is filled when its class is known. -/
inductive Link where
  | superclass (child : SymbolId)
  | interface (child : SymbolId) (index : Nat)
  | variableType (declared : VariableId)
  | returnType (method : MethodId)
  | thrownType (method : MethodId) (index : Nat)
  /-- Nothing is filled: the class only has to exist. -/
  | existence
  /-- The supertype of an anonymous class, which may be a class or an interface. -/
  | anonymousBase (child : SymbolId)
  deriving DecidableEq, Repr, Inhabited

/-- A reference that waits for a declaration. -/
structure PendingReference where
  /-- The qualified name it waits for. -/
  name : String
  /-- The other qualified names it may denote. -/
  alternatives : List String
  position : Position
  file : FileId
  link : Link
  deriving DecidableEq, Repr, Inhabited

namespace PendingReference

/-- The record of a reference that was never resolved. -/
def unresolvedDiagnostic (r : PendingReference) (fileName : String) : Diagnostic :=
  .ofProblem fileName r.position (.unresolved r.name)

/-- The visited class that the reference denotes: that of its own name, or else that of the first
alternative that has one. -/
def target? (r : PendingReference) (t : SymbolTable) : Option SymbolId :=
  (r.name :: r.alternatives).findSome? t.lookupComplete?

end PendingReference

/-- The waiting references, grouped by the name they wait for. -/
structure Pending where
  groups : List (String × List PendingReference)
  deriving DecidableEq, Repr, Inhabited

namespace Pending

/-- No reference waits. -/
def empty : Pending := { groups := [] }

/-- Append a reference to the group of its name, or start one at the end. -/
def requestIn (r : PendingReference) :
    List (String × List PendingReference) → List (String × List PendingReference)
  | [] => [(r.name, [r])]
  | group :: rest =>
    if group.1 = r.name then (group.1, group.2 ++ [r]) :: rest else group :: requestIn r rest

/-- Let a reference wait. -/
def request (p : Pending) (r : PendingReference) : Pending := { groups := requestIn r p.groups }

/-- Some reference waits for the name. -/
def isPending (p : Pending) (name : String) : Bool := p.groups.any (·.1 == name)

/-- The references that wait for a name that has been declared, and those that go on waiting. -/
def release (p : Pending) (name : String) : List PendingReference × Pending :=
  match p.groups.find? (·.1 == name) with
  | some group => (group.2, { groups := p.groups.filter (·.1 != name) })
  | none => ([], p)

/-- The names waited for, in the order in which they were first asked for. -/
def names (p : Pending) : List String := p.groups.map (·.1)

/-- All waiting references, group by group. -/
def all (p : Pending) : List PendingReference := p.groups.flatMap (·.2)

/-- The number of waiting references. -/
def count (p : Pending) : Nat := p.all.length

/-- No reference waits. -/
def isEmpty (p : Pending) : Bool := p.groups.isEmpty

/-- The references that can be resolved, each with its class, and those that cannot. -/
def takeReady (p : Pending) (t : SymbolTable) : List (PendingReference × SymbolId) × Pending :=
  (p.all.filterMap fun r => (r.target? t).map fun id => (r, id),
    { groups := (p.groups.map fun group =>
        (group.1, group.2.filter fun r => (r.target? t).isNone)).filter fun group =>
          !group.2.isEmpty })

/-- How often the end of a run looks for references that have become resolvable. -/
def maxPasses : Nat := 256

/-- Resume what can be resolved, pass after pass, until a pass finds nothing; the result holds the
references that were never resolved. `table` reads the symbol table out of a state, and `resume`
fills one reference. -/
def settleWithin {σ : Type} (table : σ → SymbolTable) (resume : PendingReference → SymbolId → σ → σ) :
    Nat → Pending → σ → List PendingReference × σ
  | 0, p, s => (p.all, s)
  | passes + 1, p, s =>
    match p.takeReady (table s) with
    | ([], p) => (p.all, s)
    | (ready, p) =>
      settleWithin table resume passes p (ready.foldl (fun s entry => resume entry.1 entry.2 s) s)

/-- Resume everything that can be resolved, and return what never was. -/
def settle {σ : Type} (table : σ → SymbolTable) (resume : PendingReference → SymbolId → σ → σ)
    (p : Pending) (s : σ) : List PendingReference × σ :=
  settleWithin table resume maxPasses p s

end Pending

end LevelCheck
