import LevelCheck.Walk
set_option autoImplicit false

/-! # Analysing a batch

A run analyses its files one after the other against one symbol table. References to types that a
later file may declare wait until the run is settled; what has not been declared by then is
recorded as unresolved. -/

namespace LevelCheck

/-- A file to be analysed: its syntax tree and its level. -/
structure SourceUnit where
  tree : SyntaxTree
  level : Level
  deriving Repr

/-- A file at the level that its name selects, at the full language if it selects none. -/
def SourceUnit.ofTree (tree : SyntaxTree) : SourceUnit :=
  { tree, level := (Level.forFile? tree.fileName).getD .full }

namespace Context

/-- Analyse a file. The references that it leaves open keep waiting. -/
def analyzeFile (cx : Context) (unit : SourceUnit) : Outcome × Context :=
  let (file, cx) := cx.addFile unit.tree.fileName unit.level
  let walk : Walk := { arena := unit.tree.arena, policy := unit.level, file }
  walk.visitIn .file unit.tree.root cx

/-- Analyse files in order. -/
def analyzeFiles (cx : Context) (units : List SourceUnit) : Context :=
  units.foldl (fun cx unit => (cx.analyzeFile unit).2) cx

/-- The state of a run of which a batch of files has been analysed and settled. -/
def ofUnits (units : List SourceUnit) (options : Options) : Context :=
  ((start options).analyzeFiles units).settle

/-- What an analyzer is asked to do. -/
inductive Request where
  | analyze (unit : SourceUnit)
  | settle
  deriving Repr

/-- Do what is asked for. -/
def perform (cx : Context) : Request → Context
  | .analyze unit => (cx.analyzeFile unit).2
  | .settle => cx.settle

/-- Do what is asked for, in order. -/
def performAll (cx : Context) (requests : List Request) : Context := requests.foldl perform cx

/-- The first file of a name. -/
def fileId? (cx : Context) (name : String) : Option FileId :=
  (cx.files.find? fun f => f.name == name).map (·.id)

end Context

/-- What a run found. -/
structure Analysis where
  table : SymbolTable
  diagnostics : List Diagnostic
  files : List FileScope
  deriving Repr

namespace Analysis

/-- The number of errors. -/
def errorCount (a : Analysis) : Nat := LevelCheck.errorCount a.diagnostics

/-- Some record is an error. -/
def hasErrors (a : Analysis) : Bool := 0 < a.errorCount

/-- The records of a file, in order. -/
def diagnosticsFor (a : Analysis) (file : String) : List Diagnostic :=
  a.diagnostics.filter fun d => d.file == some file

/-- Settle a run and take what it found. -/
def ofContext (cx : Context) : Analysis :=
  let cx := cx.settle
  { table := cx.table, diagnostics := cx.log.diagnostics.toList, files := cx.files.toList }

/-- Analyse a batch of files in order. -/
def ofUnits (units : List SourceUnit) (options : Options) : Analysis :=
  ofContext ((Context.start options).analyzeFiles units)

end Analysis

end LevelCheck
