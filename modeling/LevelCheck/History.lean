import LevelCheck.Pending
set_option autoImplicit false

/-! # The history of a run

A run keeps an account of the classes whose declaration it began and of the references to classes
that it came to: which were linked at once, which had to wait, and what became of those. Nothing a
run does depends on the account; it is what is said about whole runs that does. -/

namespace LevelCheck

/-- A reference to a class, as the run comes to it. -/
structure Reference where
  file : FileId
  position : Position
  link : Link
  /-- The qualified names it may denote, in the order in which they are tried. -/
  candidates : List String
  /-- The candidate it waits for when none is declared yet. -/
  key : String
  deriving DecidableEq, Repr, Inhabited

/-- The reference as it waits for a declaration. -/
def Reference.waiting (r : Reference) : PendingReference :=
  { name := r.key, alternatives := r.candidates.filter (· != r.key), position := r.position
    file := r.file, link := r.link }

/-- What happens to a class or to a reference. -/
inductive Event where
  /-- The declaration of the class of a qualified name began. -/
  | began (name : String)
  /-- A reference was linked as soon as it was met. -/
  | linked (r : Reference) (target : SymbolId)
  /-- A reference to no class declared so far began to wait. -/
  | deferred (r : Reference)
  /-- A reference that had waited was linked. -/
  | resumed (r : PendingReference) (target : SymbolId)
  /-- A reference that had waited to the end was recorded as unresolved. -/
  | abandoned (r : PendingReference)
  deriving DecidableEq, Repr, Inhabited

namespace Event

/-- The reference that was linked as soon as it was met, with its class. -/
def linked? : Event → Option (Reference × SymbolId)
  | .linked r target => some (r, target)
  | _ => none

/-- The reference that began to wait. -/
def deferred? : Event → Option Reference
  | .deferred r => some r
  | _ => none

/-- The waiting reference that was linked, with its class. -/
def resumed? : Event → Option (PendingReference × SymbolId)
  | .resumed r target => some (r, target)
  | _ => none

/-- The waiting reference that was recorded as unresolved. -/
def abandoned? : Event → Option PendingReference
  | .abandoned r => some r
  | _ => none

end Event

end LevelCheck
