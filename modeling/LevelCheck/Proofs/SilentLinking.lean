import LevelCheck.Proofs.References
import LevelCheck.Proofs.ScopeFacts
import LevelCheck.Proofs.TwoWalks
import LevelCheck.Proofs.Writing
set_option autoImplicit false

/-! # What linking leaves alone

Which class a reference is linked to depends on all files of a run, and so do the records that say of
a reference that its class cannot stand there or is not to be found. The other records are the
findings. Linking a reference makes none and prunes no node, and it neither opens a scope nor changes
the facts about one or what is written there, whatever it is linked to and whether it is linked at
once or waits. -/

namespace LevelCheck

/-! ## Findings -/

/-- The record tells of a reference to a class: what it denotes cannot stand there, or it denotes
nothing. -/
def Diagnostic.isLinking (d : Diagnostic) : Bool := d.code == 1017 || d.code == 1018 || d.code == 2001

/-- The records that do not tell of references to classes. -/
def findings (records : List Diagnostic) : List Diagnostic := records.filter fun d => !d.isLinking

theorem findings_append (records more : List Diagnostic) :
    findings (records ++ more) = findings records ++ findings more :=
  List.filter_append ..

/-- The findings of a log. -/
def ErrorLog.findings (log : ErrorLog) : List Diagnostic := LevelCheck.findings log.diagnostics.toList

theorem ErrorLog.findings_add (log : ErrorLog) {d : Diagnostic} (isLinking : d.isLinking) :
    (log.add d).findings = log.findings := by
  rw [findings, add, Array.toList_push, findings_append, LevelCheck.findings, LevelCheck.findings,
    List.filter_singleton, isLinking]
  exact List.append_nil _

theorem linkProblem_isLinking {t : SymbolTable} {link : Link} {target : SymbolId} {p : Problem}
    (found : t.linkProblem? link target = some p) (file : String) (pos : Position) :
    (Diagnostic.ofProblem file pos p).isLinking := by
  cases link with
  | superclass child | interface child index =>
    simp only [SymbolTable.linkProblem?] at found
    split at found <;> cases found
    rfl
  | _ => cases found

/-! ## Silent changes -/

namespace Context

/-- Nothing shows of the second state that does not show of the first, what references are linked to
apart. -/
structure Silent (a b : Context) : Prop where
  table : a.table.Touches b.table none
  written : a.table.SameWriting b.table
  pruned : b.log.pruned = a.log.pruned
  findings : b.log.findings = a.log.findings
  files : b.files = a.files
  options : b.options = a.options

namespace Silent

theorem refl (cx : Context) : cx.Silent cx := ⟨.refl _ _, .refl _, rfl, rfl, rfl, rfl⟩

theorem trans {a b c : Context} (first : a.Silent b) (second : b.Silent c) : a.Silent c :=
  ⟨first.table.trans second.table, first.written.trans second.written,
    second.pruned.trans first.pruned, second.findings.trans first.findings,
    second.files.trans first.files, second.options.trans first.options⟩

/-- A change of the table that touches no scope. -/
theorem enter (cx : Context) {t : SymbolTable} (touches : cx.table.Touches t none)
    (written : cx.table.SameWriting t) : cx.Silent { cx with table := t } :=
  ⟨touches, written, rfl, rfl, rfl, rfl⟩

/-- A change of a class that touches no scope. -/
theorem modifySymbol (cx : Context) (id : SymbolId) {f : Symbol → Symbol}
    (keeps : ∀ s, ((f s).name, (f s).state, (f s).fields, (f s).localClasses)
      = (s.name, s.state, s.fields, s.localClasses)) :
    cx.Silent (cx.modifyTable fun t => t.modifySymbol id f) :=
  enter cx (.modifySymbol_quiet cx.table id keeps) (.modifySymbol cx.table id fun s => by
    simp only [Prod.mk.injEq] at keeps
    exact (keeps s).2.2.1)

theorem foldl {α : Type} {step : Context → α → Context} (silent : ∀ (cx : Context) x, cx.Silent (step cx x))
    (xs : List α) (cx : Context) : cx.Silent (xs.foldl step cx) := by
  induction xs generalizing cx with
  | nil => exact refl cx
  | cons x rest ih => exact (silent cx x).trans (ih _)

theorem happened (cx : Context) (e : Event) : cx.Silent (cx.happened e) :=
  ⟨.refl _ _, .refl _, rfl, rfl, rfl, rfl⟩

theorem apply (cx : Context) (file : FileId) (pos : Position) (link : Link) (target : SymbolId) :
    cx.Silent (cx.apply file pos link target) := by
  have filled : cx.Silent (cx.modifyTable fun t => t.fill link target) :=
    enter cx (.fill cx.table link target) (.fill cx.table link target)
  rw [Context.apply]
  split
  · next p found =>
    have isLinking := linkProblem_isLinking found (cx.fileName file) pos
    exact filled.trans ⟨.refl _ _, .refl _, rfl, ErrorLog.findings_add _ isLinking, rfl, rfl⟩
  · exact filled

theorem resume (r : PendingReference) (target : SymbolId) (cx : Context) :
    cx.Silent (Context.resume r target cx) :=
  (happened cx (.resumed r target)).trans (apply _ r.file r.position r.link target)

theorem linkType (cx : Context) (file : FileId) (scope : Option ScopeRef) (written : String)
    (pos : Position) (link : Link) : cx.Silent (cx.linkType file scope written pos link) := by
  cases cx.linkType_linking file scope written pos link with
  | none is =>
    rw [is]
    exact refl cx
  | now inRun found is =>
    rw [is]
    exact (happened cx _).trans (apply _ file pos link _)
  | @later f r inRun met waits undeclared is =>
    rw [is]
    exact ⟨.getOrAddPlaceholder cx.table r.key, .getOrAddPlaceholder cx.table r.key, rfl, rfl, rfl, rfl⟩

theorem defineComplete {cx : Context} {id : SymbolId} (isOpen : cx.table.IsOpen (.symbol id)) :
    cx.Silent (cx.defineComplete id) := by
  have finished : cx.Silent { cx with
      table := cx.table.finishDefinition id, pending := (cx.waitingFor id).2 } :=
    ⟨.finishDefinition isOpen, .finishDefinition cx.table id, rfl, rfl, rfl, rfl⟩
  rw [defineComplete_eq]
  exact finished.trans (foldl (fun cx r => resume r id cx) _ _)

theorem abandon (cx : Context) (r : PendingReference) : cx.Silent (cx.abandon r) :=
  ⟨.refl _ _, .refl _, rfl, ErrorLog.findings_add _ rfl, rfl, rfl⟩

/-- Settling a run adds nothing to its findings. -/
theorem settle (cx : Context) : cx.Silent cx.settle := by
  have emptied : cx.Silent { cx with pending := .empty } :=
    ⟨.refl _ _, .refl _, rfl, rfl, rfl, rfl⟩
  rw [settle_eq]
  refine (emptied.trans (foldl (fun cx e => ?_) _ _)).trans (foldl abandon _ _)
  exact resume e.1 e.2 cx

end Silent

/-- The declaration of a class begins without a change to what is written. -/
theorem beginClass_written {cx next : Context} {qualified : String} {outer : Option ScopeRef}
    {head : Symbol → Symbol} {id : SymbolId}
    (begun : cx.beginClass? qualified outer head = some (id, next)) (isHead : Symbol.IsHead head) :
    cx.table.SameWriting next.table := by
  obtain ⟨t, started, rfl⟩ := beginClass_some begun
  exact (SymbolTable.SameWriting.beginDefinition started).trans (.enterClass t id outer isHead)

end Context

/-! ## What a walk links -/

namespace Walk

variable (w : Walk)

theorem linkVariables_silent (scope : ScopeRef) (declarators : List Declarator)
    (ids : List VariableId) (cx : Context) :
    cx.Silent (w.linkVariables scope declarators ids cx) :=
  .foldl (fun _ _ => .linkType _ w.file _ _ _ _) _ cx

theorem linkInterfaces_silent (id : SymbolId) (pos : Position) (index : Nat)
    (interfaces : List String) (cx : Context) :
    cx.Silent (w.linkInterfaces id pos index interfaces cx) := by
  induction interfaces generalizing index cx with
  | nil => exact .refl cx
  | cons written rest ih =>
    have entered : cx.Silent (cx.modifyTable fun t => t.modifySymbol id fun s =>
        { s with interfaces := s.interfaces ++ [.unresolved written] }) :=
      .modifySymbol cx id fun _ => rfl
    exact (entered.trans (.linkType _ _ _ _ _ _)).trans (ih _ _)

theorem linkThrown_silent (id : MethodId) (pos : Position) (index : Nat) (throws : List String)
    (cx : Context) : cx.Silent (w.linkThrown id pos index throws cx) := by
  induction throws generalizing index cx with
  | nil => exact .refl cx
  | cons written rest ih => exact (Context.Silent.linkType _ _ _ _ _ _).trans (ih _ _)

theorem linkSuperclass_silent (id : SymbolId) (pos : Position) (qualified : String)
    (decl : TypeDecl) (cx : Context) : cx.Silent (w.linkSuperclass id pos qualified decl cx) := by
  rw [linkSuperclass]
  split
  · next written _ =>
    have entered : cx.Silent (cx.modifyTable fun t => t.modifySymbol id fun s =>
        { s with superclass := some (.unresolved written) }) :=
      .modifySymbol cx id fun _ => rfl
    exact entered.trans (.linkType _ _ _ _ _ _)
  · split
    · exact .refl cx
    · exact .modifySymbol cx id fun _ => rfl

theorem linkParents_silent (id : SymbolId) (pos : Position) (qualified : String) (decl : TypeDecl)
    (cx : Context) : cx.Silent (w.linkParents id pos qualified decl cx) :=
  (w.linkSuperclass_silent id pos qualified decl cx).trans
    (w.linkInterfaces_silent id pos 0 decl.interfaces _)

theorem linkSignature_silent (id : MethodId) (pos : Position) (decl : MethodDecl)
    (params : List Declarator) (ids : List VariableId) (cx : Context) :
    cx.Silent (w.linkSignature id pos decl params ids cx) := by
  rw [linkSignature]
  refine .trans (.trans ?_ (w.linkThrown_silent _ _ _ _ _)) (w.linkVariables_silent _ _ _ _)
  split
  · exact .linkType _ _ _ _ _ _
  · exact .refl cx

/-- The name of a class is found without a change to the log or to the files. -/
theorem qualifiedName_frame (scope : WalkScope) (simple : String) (cx : Context) :
    (w.qualifiedName scope simple cx).2.log = cx.log
      ∧ (w.qualifiedName scope simple cx).2.files = cx.files := by
  cases scope with
  | file =>
    rw [qualifiedName]
    split <;> exact ⟨rfl, rfl⟩
  | classBody | body => exact ⟨rfl, rfl⟩

end Walk

end LevelCheck
