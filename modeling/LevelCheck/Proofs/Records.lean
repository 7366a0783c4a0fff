import LevelCheck.Proofs.References
import LevelCheck.Proofs.WalkTrail
set_option autoImplicit false

/-! # What is recorded between visits

A run adds to its log and to its trail. What is done between two visits records only what the walk
finds itself: the records that say that a node is nested too deeply, and those of what a policy raises
about a node, are made on coming to a node. A node that is admitted has been offered to the policy, and
the trail keeps it. -/

namespace LevelCheck

/-! ## Logs -/

namespace ErrorLog

/-- The records that say that a node is nested too deeply. -/
def nesting (log : ErrorLog) : List Diagnostic := log.diagnostics.toList.filter (·.code == 1019)

/-- The records of what policies have raised. -/
def rulings (log : ErrorLog) : List Diagnostic := log.diagnostics.toList.filter Diagnostic.isRuled

namespace Extends

variable {log next : ErrorLog} {kind : Problem → Prop}

/-- Problems of other kinds make no record that says that a node is nested too deeply. -/
theorem nesting (grows : log.Extends kind next) (others : ∀ p, kind p → p.code ≠ 1019) :
    next.nesting = log.nesting :=
  grows.coded (· == 1019) fun p isKind => beq_eq_false_iff_ne.2 (others p isKind)

theorem rulings (grows : log.Extends Problem.IsOwn next) : next.rulings = log.rulings :=
  grows.coded isRuledCode fun _ isOwn => isOwn.code

end Extends

end ErrorLog

/-! ## Deeds -/

namespace Context

theorem report_extends (cx : Context) (file : FileId) (pos : Position) {p : Problem}
    {kind : Problem → Prop} (isKind : kind p) : cx.log.Extends kind (cx.report file pos p).log :=
  .add .rest isKind (cx.fileName file) pos

theorem apply_extends (cx : Context) (file : FileId) (pos : Position) (link : Link)
    (target : SymbolId) : cx.log.Extends Problem.IsOwn (cx.apply file pos link target).log := by
  have isOwn := linkProblem_isOwn (cx.modifyTable fun t => t.fill link target).table link target
  rw [apply]
  split
  · next p found => exact report_extends _ file pos (isOwn p found)
  · exact .rest

theorem resume_extends (cx : Context) (r : PendingReference) (target : SymbolId) :
    cx.log.Extends Problem.IsOwn (Context.resume r target cx).log :=
  apply_extends (cx.happened (.resumed r target)) r.file r.position r.link target

theorem linkType_extends (cx : Context) (file : FileId) (scope : Option ScopeRef) (written : String)
    (pos : Position) (link : Link) :
    cx.log.Extends Problem.IsOwn (cx.linkType file scope written pos link).log := by
  cases cx.linkType_linking file scope written pos link with
  | none is =>
    rw [is]
    exact .rest
  | now inRun found is =>
    rw [is]
    exact apply_extends (cx.happened _) file pos link _
  | later inRun met waits undeclared is =>
    rw [is]
    exact .rest

theorem foldl_extends {α : Type} {kind : Problem → Prop} {step : Context → α → Context}
    (grows : ∀ (cx : Context) x, cx.log.Extends kind (step cx x).log) (xs : List α) (cx : Context) :
    cx.log.Extends kind (xs.foldl step cx).log := by
  induction xs generalizing cx with
  | nil => exact .rest
  | cons x rest ih => exact (grows cx x).trans (ih (step cx x))

theorem defineComplete_extends (cx : Context) (id : SymbolId) :
    cx.log.Extends Problem.IsOwn (cx.defineComplete id).log := by
  rw [defineComplete_eq]
  exact foldl_extends (fun cx r => cx.resume_extends r id) (cx.waitingFor id).1
    { cx with table := cx.table.finishDefinition id, pending := (cx.waitingFor id).2 }

/-- Settling comes to no node. -/
theorem settle_trail (cx : Context) : cx.settle.trail = cx.trail := by
  rw [settle_eq]
  have abandoned (cx : Context) (r : PendingReference) : (cx.abandon r).trail = cx.trail := rfl
  have resumed (cx : Context) (e : PendingReference × SymbolId) :
      (Context.resume e.1 e.2 cx).trail = cx.trail := cx.resume_trail e.1 e.2
  rw [foldl_trail abandoned, foldl_trail resumed]

/-- Settling says of no node that it is nested too deeply. -/
theorem settle_extends (cx : Context) : cx.log.Extends (fun p => p.code ≠ 1019) cx.settle.log := by
  rw [settle_eq]
  have abandoned (cx : Context) (r : PendingReference) :
      cx.log.Extends (fun p => p.code ≠ 1019) (cx.abandon r).log :=
    .add .rest (by simp only [Problem.code]; decide) (cx.fileName r.file) r.position
  have resumed (cx : Context) (e : PendingReference × SymbolId) :
      cx.log.Extends (fun p => p.code ≠ 1019) (Context.resume e.1 e.2 cx).log :=
    (cx.resume_extends e.1 e.2).mono fun p isOwn => isOwn.isLocal.code_ne.1
  exact (foldl_extends resumed _ { cx with pending := .empty }).trans (foldl_extends abandoned _ _)

end Context

/-- A deed comes to a node, or records only what the walk finds itself. -/
theorem Deed.records {a b : Context} (deed : Deed a b) :
    a.trail.size < b.trail.size ∨ b.trail = a.trail ∧ a.log.Extends Problem.IsOwn b.log := by
  cases deed with
  | inspect w remaining scope idx node => exact .inl (by simp [w.inspect_trail])
  | refuse w idx node => exact .inl (by simp [w.refuseDepth_eq])
  | report file pos isOwn => exact .inr ⟨rfl, a.report_extends file pos isOwn⟩
  | prune file node pos isOwn => exact .inr ⟨rfl, .addPruning .rest isOwn file node _ _⟩
  | header file keeps => exact .inr ⟨rfl, .rest⟩
  | enter step => exact .inr ⟨rfl, .rest⟩
  | link file isOpen written pos openPlace =>
    exact .inr ⟨a.linkType_trail _ _ _ _ _, a.linkType_extends _ _ _ _ _⟩

namespace Course

variable {a b : Context}

/-- The nodes that have been come to stay on the trail. -/
theorem trail (course : Course a b) : a.trail.toList <+: b.trail.toList := by
  have deed {c d : Context} (deed : Deed c d) : c.trail.toList <+: d.trail.toList := by
    cases deed with
    | inspect w remaining scope idx node => simp [w.inspect_trail]
    | refuse w idx node => simp [w.refuseDepth_eq]
    | link file isOpen written pos openPlace => rw [Context.linkType_trail]
    | _ => exact List.prefix_rfl
  refine course.keeps (P := fun c => a.trail.toList <+: c.trail.toList)
    (fun step before => before.trans (deed step)) ?_ ?_ List.prefix_rfl
  · intro c d id opens before
    obtain ⟨begun, -, -, -⟩ := opens
    rwa [c.beginClass_trail begun]
  · intro c id _ before
    rwa [Context.defineComplete_trail]

/-- Deeds that come to no node record only what the walk finds itself. -/
theorem records (course : Course a b) (trail : b.trail = a.trail) :
    a.log.Extends Problem.IsOwn b.log := by
  have grown : a.trail.size < b.trail.size
      ∨ b.trail = a.trail ∧ a.log.Extends Problem.IsOwn b.log := by
    refine course.keeps (P := fun c => a.trail.size < c.trail.size
      ∨ c.trail = a.trail ∧ a.log.Extends Problem.IsOwn c.log) ?_ ?_ ?_ (.inr ⟨rfl, .rest⟩)
    · rintro c d deed (longer | ⟨same, before⟩)
      · have := (Course.deed (.rest c) deed).trail.length_le
        simp only [Array.length_toList] at this
        omega
      · rcases deed.records with longer | ⟨same', now⟩
        · rw [same] at longer
          exact .inl longer
        · exact .inr ⟨same'.trans same, before.trans now⟩
    · rintro c d id opens (longer | ⟨same, before⟩)
      all_goals
        obtain ⟨begun, -, -, -⟩ := opens
        obtain ⟨t, -, rfl⟩ := Context.beginClass_some begun
      · exact .inl longer
      · exact .inr ⟨same, before⟩
    · rintro c id _ (longer | ⟨same, before⟩)
      · exact .inl (by rwa [Context.defineComplete_trail])
      · exact .inr ⟨(c.defineComplete_trail id).trans same,
          before.trans (c.defineComplete_extends id)⟩
  rcases grown with longer | ⟨-, extended⟩
  · rw [trail] at longer
    omega
  · exact extended

end Course

/-! ## Sites -/

/-- The node that was offered to the policy, with its file. -/
def Encounter.site? (e : Encounter) : Option (FileId × Node) := e.offer.map fun o => (e.file, o.node)

/-- The nodes that have been offered to the policy, with their files. -/
def Context.sites (cx : Context) : List (FileId × Node) := cx.trail.toList.filterMap Encounter.site?

theorem Course.sites {a b : Context} (course : Course a b) : a.sites <+: b.sites :=
  course.trail.filterMap Encounter.site?

theorem Walk.admits_sites (w : Walk) {remaining : Nat} {scope : WalkScope} {idx : NodeIndex}
    {node : Node} {a b : Context} {admission : Admission}
    (admits : w.inspect remaining scope idx node a = (some admission, b)) :
    b.sites = a.sites ++ [(w.file, node)] := by
  have trail := w.inspect_trail a remaining scope idx node
  rw [admits, inspected, w.fresh_of_admits admits] at trail
  rw [Context.sites, trail, Array.toList_push, List.filterMap_append]
  rfl

end LevelCheck
