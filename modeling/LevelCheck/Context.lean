import LevelCheck.ErrorLog
import LevelCheck.History
import LevelCheck.Policy
import LevelCheck.Resolution
set_option autoImplicit false

/-! # The state of a run

Everything that the files of a run share: the symbol table, the error log, the references that wait
for a declaration, the names of each file, the trail of nodes that were visited, and the history of
classes and references. -/

namespace LevelCheck

/-- The options of a run. -/
structure Options where
  duplicateScope : DuplicateScope
  /-- Nodes nested more deeply are reported and skipped. -/
  maxDepth : Nat
  deriving DecidableEq, Repr

namespace Options

/-- The nesting depth that is visited unless an option says otherwise. -/
def usualDepth : Nat := 1000

/-- The options of a run that says nothing about them. -/
def usual : Options := { duplicateScope := .immediate, maxDepth := usualDepth }

end Options

/-- A node that the walk came to. -/
structure Encounter where
  file : FileId
  node : NodeIndex
  /-- How many further levels of nesting are visited. -/
  remaining : Nat
  /-- The node as it was offered to the level policy; none if it was skipped before that, because it
  had been pruned or is nested too deeply. -/
  offer : Option Offer
  /-- The node had been pruned by then. -/
  pruned : Bool
  deriving Repr

/-- The state of a run. -/
structure Context where
  table : SymbolTable
  log : ErrorLog
  pending : Pending
  options : Options
  files : Array FileScope
  /-- The nodes that the walk came to, in order. -/
  trail : Array Encounter
  /-- What happened to classes and references, in order. -/
  history : Array Event
  deriving Repr

namespace Context

/-- The state at the start of a run with the given table. -/
def withTable (table : SymbolTable) (options : Options) : Context :=
  { table, log := .empty, pending := .empty, options, files := #[], trail := #[], history := #[] }

/-- The state at the start of a run. -/
def start (options : Options) : Context := withTable .seeded options

/-! ## Files -/

/-- Add a file to the run. -/
def addFile (cx : Context) (name : String) (level : Level) : FileId × Context :=
  let id : FileId := ⟨cx.files.size⟩
  (id, { cx with files := cx.files.push (.start id name level) })

/-- The file of an id, if there is one. -/
def file? (cx : Context) (id : FileId) : Option FileScope := cx.files[id.val]?

/-- Change the names of a file; nothing happens if there is no such file. -/
def modifyFile (cx : Context) (id : FileId) (f : FileScope → FileScope) : Context :=
  { cx with files := cx.files.modify id.val f }

/-- The name of a file, empty if there is no such file. -/
def fileName (cx : Context) (id : FileId) : String :=
  match cx.file? id with
  | some file => file.name
  | none => ""

/-! ## Records -/

/-- Record a problem and go on. -/
def report (cx : Context) (file : FileId) (pos : Position) (p : Problem) : Context :=
  { cx with log := cx.log.add (.ofProblem (cx.fileName file) pos p) }

/-- Record a problem and skip the children of its node. -/
def reportPruning (cx : Context) (file : FileId) (node : NodeIndex) (pos : Position) (p : Problem) :
    Context :=
  { cx with log := cx.log.addPruning file node (.ofProblem (cx.fileName file) pos p) }

/-- Add to the history. -/
def happened (cx : Context) (e : Event) : Context := { cx with history := cx.history.push e }

/-! ## Links -/

/-- Change the symbol table. -/
def modifyTable (cx : Context) (f : SymbolTable → SymbolTable) : Context :=
  { cx with table := f cx.table }

end Context

namespace SymbolTable

/-- Resolve the element of a list of types at an index. -/
def resolveAt (types : List TypeRef) (index : Nat) (target : SymbolId) : List TypeRef :=
  types.modify index fun type => { type with resolved := some target }

/-- Resolve a type that may be absent. -/
def resolveOptional (type : Option TypeRef) (target : SymbolId) : Option TypeRef :=
  type.map fun type => { type with resolved := some target }

/-- Fill the place of a reference with its class. -/
def fill (t : SymbolTable) (link : Link) (target : SymbolId) : SymbolTable :=
  match link with
  | .superclass child =>
    t.modifySymbol child fun s => { s with superclass := resolveOptional s.superclass target }
  | .interface child index =>
    t.modifySymbol child fun s => { s with interfaces := resolveAt s.interfaces index target }
  | .variableType declared =>
    t.modifyVariable declared fun v => { v with type := { v.type with resolved := some target } }
  | .returnType method =>
    t.modifyMethod method fun m => { m with returnType := resolveOptional m.returnType target }
  | .thrownType method index =>
    t.modifyMethod method fun m => { m with thrown := resolveAt m.thrown index target }
  | .existence => t
  | .anonymousBase child =>
    let base : TypeRef := { name := (t.symbol target).name, resolved := some target }
    if (t.symbol target).isInterface then
      let object := t.objectRef
      t.modifySymbol child fun s =>
        { s with interfaces := s.interfaces ++ [base], superclass := some object }
    else t.modifySymbol child fun s => { s with superclass := some base }

/-- What is wrong with the class that a reference denotes: a class may only extend a class, and only
interfaces may be implemented. -/
def linkProblem? (t : SymbolTable) (link : Link) (target : SymbolId) : Option Problem :=
  let parent := t.symbol target
  match link with
  | .superclass child =>
    if parent.isInterface && !(t.symbol child).isInterface then
      some (.extendsInterface parent.simpleName (t.symbol child).simpleName)
    else none
  | .interface child _ =>
    if parent.isInterface then none
    else some (.implementsClass parent.simpleName (t.symbol child).simpleName)
  | _ => none

end SymbolTable

namespace Context

/-- Link a reference, written at a position of a file, to its class. -/
def apply (cx : Context) (file : FileId) (pos : Position) (link : Link) (target : SymbolId) :
    Context :=
  let cx := cx.modifyTable fun t => t.fill link target
  match cx.table.linkProblem? link target with
  | some p => cx.report file pos p
  | none => cx

/-- Link a reference that has waited to its class. -/
def resume (r : PendingReference) (target : SymbolId) (cx : Context) : Context :=
  (cx.happened (.resumed r target)).apply r.file r.position r.link target

/-- Record a reference that has waited to the end as unresolved. -/
def abandon (cx : Context) (r : PendingReference) : Context :=
  { cx.happened (.abandoned r) with
    log := cx.log.add (r.unresolvedDiagnostic (cx.fileName r.file)) }

/-- Begin the declaration of a class in a scope: enter what the declaration says about the class
itself, and list the class among the inner classes of the one around the scope. A name that has been
declared is refused. -/
def beginClass? (cx : Context) (qualified : String) (outer : Option ScopeRef)
    (head : Symbol → Symbol) : Option (SymbolId × Context) :=
  match cx.table.beginDefinition qualified with
  | .error _ => none
  | .ok (id, table) =>
    some (id, { cx.happened (.began qualified) with table := table.enterClass id outer head })

/-- The declaration of a class has been visited: link the references that waited for it. -/
def defineComplete (cx : Context) (id : SymbolId) : Context :=
  let cx := cx.modifyTable fun t => t.finishDefinition id
  let (released, pending) := cx.pending.release (cx.table.symbol id).name
  released.foldl (fun cx r => cx.resume r id) { cx with pending }

/-- Link what can be linked by now, and record every other reference as unresolved. -/
def settle (cx : Context) : Context :=
  let (unresolved, cx) := cx.pending.settle Context.table resume { cx with pending := .empty }
  unresolved.foldl abandon cx

/-- A written type name that is looked for in a file and a scope, to be linked at a place. -/
def reference (cx : Context) (f : FileScope) (file : FileId) (scope : Option ScopeRef)
    (name : String) (pos : Position) (link : Link) : Reference :=
  { file, position := pos, link
    candidates := Resolution.names cx.table f (scope.map cx.table.enclosingSymbol) name
    key := Resolution.waitingName f name }

/-- A name refers to no class: it is empty, or a type parameter in scope. -/
def namesNoClass (cx : Context) (scope : Option ScopeRef) (name : String) : Bool :=
  name.isEmpty || match scope with
    | some scope => cx.table.isTypeParam scope name
    | none => false

/-- Resolve a written type now, or let the reference wait, unless it refers to no class. -/
def linkType (cx : Context) (file : FileId) (scope : Option ScopeRef) (written : String)
    (pos : Position) (link : Link) : Context :=
  let base := baseTypeName written
  if cx.namesNoClass scope base then cx
  else
    match cx.file? file with
    | none => cx
    | some f =>
      let r := cx.reference f file scope base pos link
      match Resolution.ofName cx.table f (scope.map cx.table.enclosingSymbol) base with
      | .found target => (cx.happened (.linked r target)).apply file pos link target
      | .pending key alternatives =>
        let cx := (cx.happened (.deferred r)).modifyTable fun t => (t.getOrAddPlaceholder key).2
        { cx with pending := cx.pending.request { name := key, alternatives, position := pos, file, link } }

end Context

end LevelCheck
