import LevelCheck.Diagnostic
import LevelCheck.FileScope
set_option autoImplicit false

/-! # The error log

The log keeps the records of a run in the order in which they were made, and the nodes whose
children are not visited because of one of them. -/

namespace LevelCheck

/-- The records of a run and the nodes they prune. -/
structure ErrorLog where
  diagnostics : Array Diagnostic
  pruned : List (FileId × NodeIndex)
  deriving DecidableEq, Repr, Inhabited

namespace ErrorLog

/-- A log without records. -/
def empty : ErrorLog := { diagnostics := #[], pruned := [] }

/-- Add a record that keeps the children of a node from being visited. -/
def addPruning (log : ErrorLog) (file : FileId) (node : NodeIndex) (d : Diagnostic) : ErrorLog :=
  { diagnostics := log.diagnostics.push d.pruning, pruned := log.pruned.insert (file, node) }

/-- Add a record that prunes nothing. -/
def add (log : ErrorLog) (d : Diagnostic) : ErrorLog :=
  { log with diagnostics := log.diagnostics.push d }

/-- The children of the node are not visited. -/
def isPruned (log : ErrorLog) (file : FileId) (node : NodeIndex) : Bool :=
  log.pruned.contains (file, node)

/-- The number of records. -/
def size (log : ErrorLog) : Nat := log.diagnostics.size

/-- The number of errors. -/
def errorCount (log : ErrorLog) : Nat := LevelCheck.errorCount log.diagnostics.toList

/-- Some record is an error. -/
def hasErrors (log : ErrorLog) : Bool := 0 < log.errorCount

end ErrorLog

end LevelCheck
