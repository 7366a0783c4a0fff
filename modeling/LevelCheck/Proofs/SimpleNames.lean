import LevelCheck.Proofs.Attribution
import LevelCheck.Proofs.ReachableNodes
import LevelCheck.Proofs.Naming
set_option autoImplicit false

/-! # What a simple name may denote

A plain name that is written for a type is tried as it is and behind packages and classes, so it
ends every name that it may denote. No other written name may denote it: a plain name is among the
candidates of a reference only if it is what is written there. The names that a file keeps of its
own types are put together in the same way, and a walk keeps them so. -/

namespace LevelCheck

/-! ## The last part of a name -/

/-- The part of a qualified name that follows the package and the classes around. -/
def lastPart (name : String) : String := Text.afterLast '$' (Text.afterLast '.' name)

theorem Symbol.constructorName_eq (s : Symbol) : s.constructorName = lastPart s.name := rfl

section

variable {simple : String} (plain : IsPlainName simple)
include plain

theorem lastPart_of_afterLast {name : String} (ends : Text.afterLast '.' name = simple) :
    lastPart name = simple := by
  rw [lastPart, ends]
  exact Text.afterLast_of_absent plain.noDollar

theorem lastPart_simple : lastPart simple = simple :=
  lastPart_of_afterLast plain (Text.afterLast_of_absent plain.noDot)

theorem lastPart_package (package : String) : lastPart (package ++ "." ++ simple) = simple :=
  lastPart_of_afterLast plain (Text.afterLast_separated package plain.noDot)

theorem lastPart_member (outer : String) : lastPart (Resolution.memberName outer simple) = simple :=
  Symbol.constructorName_member (s := .placeholder (Resolution.memberName outer simple)) rfl
    plain.noDollar plain.noDot

theorem ne_package (package name : String) : package ++ "." ++ name ≠ simple := by
  rintro rfl
  exact plain.noDot (by simp)

theorem ne_member (outer own : String) : Resolution.memberName outer own ≠ simple := by
  rintro rfl
  exact plain.noDollar (Resolution.dollar_mem_memberName outer own)

end

/-! ## The names of a file -/

/-- The types that the file declares are named by themselves, or by a package and themselves. -/
def FileScope.NamesTypes (f : FileScope) : Prop :=
  ∀ e ∈ f.classes, e.2 = e.1 ∨ ∃ package, e.2 = package ++ "." ++ e.1

namespace FileScope

variable {f : FileScope}

theorem qualify_eq (f : FileScope) (simple : String) :
    f.qualify simple = simple ∨ f.qualify simple = f.package ++ "." ++ simple := by
  rw [qualify]
  split
  · exact .inl rfl
  · exact .inr rfl

theorem NamesTypes.class {simple name : String} (names : f.NamesTypes)
    (found : f.class? simple = some name) :
    name = simple ∨ ∃ package, name = package ++ "." ++ simple := by
  obtain ⟨e, isFound, rfl⟩ := Option.map_eq_some_iff.1 found
  obtain rfl : e.1 = simple := by simpa using List.find?_some isFound
  exact names e (List.mem_of_find?_eq_some isFound)

theorem namesTypes_start (id : FileId) (name : String) (level : Level) :
    (start id name level).NamesTypes := nofun

theorem NamesTypes.declareClass (names : f.NamesTypes) (simple : String) :
    (f.declareClass simple).NamesTypes := by
  intro e isIn
  rcases List.mem_append.1 isIn with before | new
  · exact names e (List.mem_of_mem_filter before)
  · obtain rfl := List.mem_singleton.1 new
    rcases f.qualify_eq simple with is | is
    · exact .inl is
    · exact .inr ⟨f.package, is⟩

theorem classes_recordHeader (f : FileScope) (package : Option String) (imports : List ImportDecl) :
    (f.recordHeader package imports).classes = f.classes := by
  have imported (imports : List ImportDecl) (f : FileScope) :
      (imports.foldl addImport f).classes = f.classes := by
    induction imports generalizing f with
    | nil => rfl
    | cons i rest ih =>
      refine (ih (f.addImport i)).trans ?_
      rw [addImport]
      split
      · split <;> rfl
      · rfl
  exact imported imports _

/-- A file that reads its header and declares its types goes on to name them so. -/
theorem NamesTypes.header (names : f.NamesTypes) (package : Option String)
    (imports : List ImportDecl) (types : List String) :
    (types.foldl FileScope.declareClass (f.recordHeader package imports)).NamesTypes := by
  have begun : (f.recordHeader package imports).NamesTypes := by
    rw [NamesTypes, classes_recordHeader]
    exact names
  generalize f.recordHeader package imports = g at *
  induction types generalizing g with
  | nil => exact begun
  | cons simple rest ih => exact ih _ (begun.declareClass simple)

end FileScope

/-! ## Candidates -/

namespace Resolution

variable {t : SymbolTable} {f : FileScope} {enclosing : Option SymbolId} {simple name : String}

theorem mem_simpleCandidates {c : String} : c ∈ simpleCandidates t f enclosing name ↔
    (∃ owner ∈ enclosing, ∃ id ∈ t.enclosingClasses owner, c ∈ classCandidates t name id)
      ∨ f.class? name = some c ∨ (c ∈ f.imports ∧ Text.afterLast '.' c = name) ∨ c = f.qualify name
      ∨ (∃ package ∈ f.importedPackages, package ++ "." ++ name = c) ∨ c = name := by
  cases enclosing <;> simp [simpleCandidates]

theorem mem_classCandidates {c : String} {id : SymbolId} : c ∈ classCandidates t name id ↔
    ((t.symbol id).simpleName = name ∧ c = (t.symbol id).name)
      ∨ c = memberName (t.symbol id).name name := by
  simp only [classCandidates, List.mem_append, List.mem_singleton]
  split <;> simp_all

/-- A name is tried as it is, if nothing else is found for it. -/
theorem self_mem_names : name ∈ names t f enclosing name := by
  rw [names]
  split
  · exact List.mem_singleton_self name
  · rw [candidates, List.mem_eraseDups]
    split
    · exact List.mem_cons_self
    · exact mem_simpleCandidates.2 (by simp)

section

variable (names : f.NamesTypes) (plain : IsPlainName simple)
include names plain

/-- A plain name ends all names that it may denote. -/
theorem lastPart_of_mem_names {c : String} (isIn : c ∈ Resolution.names t f enclosing simple) :
    lastPart c = simple := by
  rw [Resolution.names] at isIn
  split at isIn
  · rw [List.mem_singleton.1 isIn]
    exact lastPart_simple plain
  · have notDotted : isDotted simple = false := by simpa [isDotted] using plain.noDot
    rw [candidates, List.mem_eraseDups, if_neg (by simp [notDotted]), mem_simpleCandidates] at isIn
    rcases isIn with ⟨-, -, id, -, around⟩ | declared | ⟨-, ends⟩ | rfl | ⟨package, -, rfl⟩ | rfl
    · rcases mem_classCandidates.1 around with ⟨ends, rfl⟩ | rfl
      · exact lastPart_of_afterLast plain ends
      · exact lastPart_member plain _
    · rcases names.class declared with rfl | ⟨package, rfl⟩
      · exact lastPart_simple plain
      · exact lastPart_package plain package
    · exact lastPart_of_afterLast plain ends
    · exact lastPart_of_afterLast plain (f.simpleName_qualify plain.noDot)
    · exact lastPart_package plain package
    · exact lastPart_simple plain

/-- A plain name is tried only for itself. -/
theorem mem_names_iff : simple ∈ Resolution.names t f enclosing name ↔ name = simple := by
  constructor
  · intro isIn
    rw [Resolution.names] at isIn
    split at isIn
    · exact (List.mem_singleton.1 isIn).symm
    · rw [candidates, List.mem_eraseDups] at isIn
      split at isIn
      · rw [dottedCandidates, List.mem_cons] at isIn
        rcases isIn with is | isIn
        · exact is.symm
        · split at isIn
          · split at isIn
            · exact absurd (List.mem_singleton.1 isIn).symm (ne_member plain _ _)
            · cases isIn
          · cases isIn
      · rw [mem_simpleCandidates] at isIn
        rcases isIn with ⟨-, -, id, -, around⟩ | declared | ⟨-, ends⟩ | is | ⟨package, -, is⟩ | is
        · rcases mem_classCandidates.1 around with ⟨ends, is⟩ | is
          · rw [← ends, Symbol.simpleName, ← is]
            exact Text.afterLast_of_absent plain.noDot
          · exact absurd is.symm (ne_member plain _ _)
        · rcases names.class declared with is | ⟨package, is⟩
          · exact is.symm
          · exact absurd is.symm (ne_package plain package name)
        · rw [← ends]
          exact Text.afterLast_of_absent plain.noDot
        · rcases f.qualify_eq name with other | other
          · exact (is.trans other).symm
          · exact absurd (is.trans other).symm (ne_package plain f.package name)
        · exact absurd is (ne_package plain package name)
        · exact is.symm
  · rintro rfl
    exact self_mem_names

omit names

/-- On account of a class around it, a simple name may denote what the class has by that name. -/
theorem mem_names_of_class (notPrimitive : Builtin.isPrimitive simple = false) {owner id : SymbolId}
    (around : id ∈ t.enclosingClasses owner) {c : String} (seen : c ∈ classCandidates t simple id) :
    c ∈ Resolution.names t f (some owner) simple := by
  have notDotted : isDotted simple = false := by simpa [isDotted] using plain.noDot
  rw [Resolution.names, notPrimitive, Bool.false_and, if_neg Bool.false_ne_true, candidates,
    notDotted, if_neg Bool.false_ne_true, List.mem_eraseDups]
  exact mem_simpleCandidates.2 (.inl ⟨owner, rfl, id, around, seen⟩)

end

end Resolution

/-! ## References -/

/-- The plain name is what is written for the type of the reference. -/
def Reference.IsWritten (r : Reference) (simple : String) : Prop := simple ∈ r.candidates

/-- The plain name that is written for the type of the reference, if it is plain, ends all that the
reference may denote. -/
def Reference.IsOfOneName (r : Reference) : Prop :=
  ∀ simple, IsPlainName simple → r.IsWritten simple → ∀ c ∈ r.candidates, lastPart c = simple

namespace Context

/-- The references that the run has come to from the one state to the other are of a kind. -/
def Meets (kind : Reference → Prop) (a b : Context) : Prop :=
  ∃ events, b.history.toList = a.history.toList ++ events
    ∧ ∀ r ∈ events.filterMap Event.met?, kind r

namespace Meets

variable {kind : Reference → Prop} {a b c : Context}

theorem of_same (history : b.history = a.history) : a.Meets kind b :=
  ⟨[], by rw [history, List.append_nil], nofun⟩

theorem refl (a : Context) : a.Meets kind a := of_same rfl

theorem trans (first : a.Meets kind b) (second : b.Meets kind c) : a.Meets kind c := by
  obtain ⟨events, is, areSo⟩ := first
  obtain ⟨more, is', areSo'⟩ := second
  refine ⟨events ++ more, by rw [is', is, List.append_assoc], fun r isIn => ?_⟩
  rw [List.filterMap_append, List.mem_append] at isIn
  exact isIn.elim (areSo r) (areSo' r)

theorem of_push {e : Event} (history : b.history = a.history.push e)
    (isSo : ∀ r ∈ e.met?, kind r) : a.Meets kind b := by
  refine ⟨[e], by rw [history, Array.toList_push], fun r isIn => ?_⟩
  obtain ⟨e', is, isMet⟩ := List.mem_filterMap.1 isIn
  obtain rfl := List.mem_singleton.1 is
  exact isSo r isMet

/-- A type that is linked is met once, with the names that it may denote. -/
theorem linkType {file : FileId} {scope : Option ScopeRef} {written : String} {pos : Position}
    {link : Link} (isSo : ∀ f, a.file? file = some f →
      kind (a.reference f file scope (baseTypeName written) pos link)) :
    a.Meets kind (a.linkType file scope written pos link) := by
  cases a.linkType_linking file scope written pos link with
  | none is =>
    rw [is]
    exact refl a
  | @now f target inRun found is =>
    let r := a.reference f file scope (baseTypeName written) pos link
    obtain ⟨-, history, -⟩ := apply_records (a.happened (.linked r target)) file pos link target
    refine of_push (e := .linked r target) (by rw [is, history]; rfl) fun r' isMet => ?_
    obtain rfl := Option.some.inj isMet
    exact isSo f inRun
  | @later f r inRun met waits undeclared is =>
    refine of_push (e := .deferred r) (by rw [is]; rfl) fun r' isMet => ?_
    obtain rfl := Option.some.inj isMet
    exact met ▸ isSo f inRun

theorem begins {id : SymbolId} (opens : Opens a id b) : a.Meets kind b := by
  obtain ⟨begun, -, -, -⟩ := opens
  obtain ⟨t, -, rfl⟩ := beginClass_some begun
  exact of_push rfl nofun

/-- Nothing is met as references that have waited are linked or given up. -/
theorem of_waited {events : List Event} (history : b.history.toList = a.history.toList ++ events)
    (areWaited : ∀ e ∈ events, e.met? = none) : a.Meets kind b := by
  refine ⟨events, history, fun r isIn => ?_⟩
  obtain ⟨e, isEvent, isMet⟩ := List.mem_filterMap.1 isIn
  rw [areWaited e isEvent] at isMet
  cases isMet

theorem completes (a : Context) (id : SymbolId) : a.Meets kind (a.defineComplete id) := by
  refine of_waited (a.defineComplete_resumed id).history fun e isIn => ?_
  obtain ⟨entry, -, rfl⟩ := List.mem_map.1 isIn
  rfl

theorem settle (a : Context) : a.Meets kind a.settle := by
  refine of_waited a.settle_settles.history fun e isIn => ?_
  rcases List.mem_append.1 isIn with resumed | abandoned
  · obtain ⟨entry, -, rfl⟩ := List.mem_map.1 resumed
    rfl
  · obtain ⟨r, -, rfl⟩ := List.mem_map.1 abandoned
    rfl

end Meets

/-- The files name their types by simple names, and so does every reference that the run has come
to. -/
structure NamesSimply (cx : Context) : Prop where
  files : ∀ f ∈ cx.files, f.NamesTypes
  met : ∀ r ∈ cx.history.toList.filterMap Event.met?, r.IsOfOneName

namespace NamesSimply

variable {a b : Context} (simply : a.NamesSimply)
include simply

theorem file {file : FileId} {f : FileScope} (inRun : a.file? file = some f) : f.NamesTypes :=
  simply.files f (Array.mem_of_getElem? inRun)

section

variable {file : FileId} {f : FileScope} (inRun : a.file? file = some f) (scope : Option ScopeRef)
  (name : String) (pos : Position) (link : Link)
include inRun

/-- Whether a plain name is written for a type is told by the candidates of the reference. -/
theorem isWritten_iff {simple : String} (plain : IsPlainName simple) :
    (a.reference f file scope name pos link).IsWritten simple ↔ name = simple :=
  Resolution.mem_names_iff (simply.file inRun) plain

theorem reference : (a.reference f file scope name pos link).IsOfOneName := by
  intro simple plain isWritten c isCandidate
  obtain rfl := (simply.isWritten_iff inRun scope name pos link plain).1 isWritten
  exact Resolution.lastPart_of_mem_names (simply.file inRun) plain isCandidate

end

theorem step (files : b.files = a.files) (meets : a.Meets Reference.IsOfOneName b) :
    b.NamesSimply := by
  obtain ⟨events, history, areSo⟩ := meets
  refine ⟨files ▸ simply.files, fun r isIn => ?_⟩
  rw [history, List.filterMap_append, List.mem_append] at isIn
  exact isIn.elim (simply.met r) (areSo r)

theorem same (files : b.files = a.files) (history : b.history = a.history) : b.NamesSimply :=
  simply.step files (.of_same history)

theorem linkType (file : FileId) (scope : Option ScopeRef) (written : String) (pos : Position)
    (link : Link) : (a.linkType file scope written pos link).NamesSimply :=
  simply.step (Silent.linkType ..).files
    (.linkType fun _ inRun => simply.reference inRun scope _ pos link)

theorem enterFile (w : Walk) (package : Option String) (imports : List ImportDecl)
    (types : List NodeIndex) : (w.enterFile package imports types a).NamesSimply := by
  refine ⟨fun f isIn => ?_, simply.met⟩
  obtain ⟨i, bound, rfl⟩ := Array.mem_iff_getElem.1 isIn
  have known : i < a.files.size := by simpa [Walk.enterFile, modifyFile] using bound
  have names := simply.files _ (Array.getElem_mem known)
  simp only [Walk.enterFile, modifyFile, Array.getElem_modify]
  split
  · exact names.header package imports _
  · exact names

theorem addFile (name : String) (level : Level) : (a.addFile name level).2.NamesSimply := by
  refine ⟨fun f isIn => ?_, simply.met⟩
  rcases Array.mem_push.1 isIn with before | rfl
  · exact simply.files f before
  · exact FileScope.namesTypes_start _ name level

end NamesSimply

end Context

/-! ## What a walk keeps -/

namespace Walk

variable {w : Walk} {a b : Context}

theorem inspect_history (w : Walk) (remaining : Nat) (scope : WalkScope) (idx : NodeIndex)
    (node : Node) (a : Context) : (w.inspect remaining scope idx node a).2.files = a.files
      ∧ (w.inspect remaining scope idx node a).2.history = a.history := by
  obtain ⟨log, is⟩ := w.inspect_changes a remaining scope idx node
  rw [is]
  exact ⟨rfl, rfl⟩

theorem qualifiedName_history (w : Walk) (scope : WalkScope) (simple : String) (a : Context) :
    (w.qualifiedName scope simple a).2.files = a.files
      ∧ (w.qualifiedName scope simple a).2.history = a.history := by
  obtain ⟨table, -, is⟩ := w.qualifiedName_changes scope simple a
  rw [is]
  exact ⟨rfl, rfl⟩

/-- The property is one of the files and the history of a run, and whatever a walk does to them keeps
it. -/
structure KeepsNaming (w : Walk) (P : Context → Prop) : Prop where
  same {a b : Context} (holds : P a) (files : b.files = a.files) (history : b.history = a.history) : P b
  links {a : Context} (scope : Option ScopeRef) (written : String) (pos : Position) (link : Link) :
    P a → P (a.linkType w.file scope written pos link)
  header {a : Context} {idx : NodeIndex} {node : Node} {package : Option String}
    {imports : List ImportDecl} {types : List NodeIndex} (found : w.arena.get? idx = some node)
    (is : node.data = .sourceFile package imports types) : P a → P (w.enterFile package imports types a)
  begins {a b : Context} {id : SymbolId} (opens : Opens a id b) (files : b.files = a.files) : P a → P b
  completes {a : Context} {id : SymbolId} (isOpen : a.table.IsOpen (.symbol id)) :
    P a → P (a.defineComplete id)

namespace KeepsNaming

variable {P : Context → Prop} (kept : w.KeepsNaming P)
include kept

theorem errand {places : Link → Prop} {todo todo' : List Mention}
    (errand : w.Errand places todo a todo' b) (holds : P a) : P b := by
  cases errand with
  | write | root | report => exact kept.same holds rfl rfl
  | link | mention => exact kept.links _ _ _ _ holds
  | header found is => exact kept.header found is holds

theorem errands {places : Link → Prop} {todo todo' : List Mention}
    (errands : w.Errands places todo a todo' b) (holds : P a) : P b :=
  errands.keeps (fun _ => True) (P := fun _ cx => P cx) (fun _ _ => trivial)
    (fun _ errand holds => kept.errand errand holds) trivial holds

theorem keeps : w.Keeps Context.Lifecycle P where
  steady course lifecycle := lifecycle.course course
  refuses _ _ holds := by
    rw [w.refuseDepth_eq]
    exact kept.same holds rfl rfl
  inspects _ _ _ holds := kept.same holds (w.inspect_history ..).1 (w.inspect_history ..).2
  calls _ isOpen found calls holds := kept.errands (calls.errands isOpen found) holds
  refusesName {scope simple idx node a} _ _ _ holds := by
    obtain ⟨files, history⟩ := w.qualifiedName_history scope simple a
    exact kept.same holds files history
  declares {remaining scope idx node admission decl id a b c} lifecycle isOpen found admits is begun
      holds := by
    have isOpen' := Journeys.isOpen_inspected isOpen admits
    have inspection := Course.deed (.rest a) (.inspect a w remaining scope idx node)
    obtain ⟨files, history⟩ := w.inspect_history remaining scope idx node a
    rw [admits] at inspection files history
    obtain ⟨files', history'⟩ := w.qualifiedName_history scope decl.name b
    have opens := opens_declared isOpen' begun
    have course := inspection.trans (.of_run (w.qualifiedName_run isOpen' decl.name))
    have named := kept.same holds (files'.trans files) (history'.trans history)
    have opened := kept.begins opens (Context.beginClass_files begun) named
    exact kept.errands (linkParents_errands found is opens.isOpen
      ((lifecycle.course course).untouched.bare opens) _) opened
  refusesNumber _ _ _ holds := kept.same holds rfl rfl
  declaresAnonymous {idx node outer type arguments members ref id a b} _ isOpen _ _ _ begun holds := by
    have opens := anonymous_opens isOpen begun
    have counted : P (numbered ref a) := kept.same holds rfl rfl
    exact kept.links _ _ _ _ (kept.begins opens (Context.beginClass_files begun) counted)
  completes _ isOpen holds := kept.completes isOpen holds

end KeepsNaming

/-- Whatever a walk does, references are met under simple names. -/
theorem namesSimply_keeps (w : Walk) : w.Keeps Context.Lifecycle Context.NamesSimply :=
  KeepsNaming.keeps {
    same := .same
    links := fun _ _ _ _ simply => simply.linkType ..
    header := fun _ _ simply => simply.enterFile ..
    begins := fun opens files simply => simply.step files (.begins opens)
    completes := fun isOpen simply =>
      simply.step (Context.Silent.defineComplete isOpen).files (.completes _ _) }

end Walk

/-! ## Runs -/

namespace Context

variable {cx : Context}

theorem namesSimply_start (options : Options) : (start options).NamesSimply := ⟨nofun, nofun⟩

theorem NamesSimply.perform (simply : cx.NamesSimply) (lifecycle : cx.Lifecycle)
    (request : Request) : (cx.perform request).NamesSimply := by
  cases request with
  | analyze unit =>
    exact (cx.analyzeFile_journey unit).keeps (w := cx.walkOf unit) (Walk.namesSimply_keeps _)
      (lifecycle.addFile unit.tree.fileName unit.level)
      (simply.addFile unit.tree.fileName unit.level)
  | settle => exact simply.step (Silent.settle cx).files (.settle cx)

theorem NamesSimply.performAll (simply : cx.NamesSimply) (lifecycle : cx.Lifecycle)
    (requests : List Request) : (cx.performAll requests).NamesSimply := by
  induction requests generalizing cx with
  | nil => exact simply
  | cons request rest ih => exact ih (simply.perform lifecycle request) (lifecycle.perform request)

end Context

end LevelCheck
