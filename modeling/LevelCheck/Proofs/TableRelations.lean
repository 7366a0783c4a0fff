import LevelCheck.Proofs.References
set_option autoImplicit false

/-! # What a run does to its table

A run changes its table in a few ways: a walk enters what it has found, a class is referred to, its
declaration begins and ends, and a class that a type denotes is put in its place. A relation between
tables that holds across each of these changes holds between the tables of any two states of a run. -/

namespace LevelCheck

/-- The relation holds across every change of a table, however many of them there are. -/
structure SymbolTable.HoldsAcross (R : SymbolTable → SymbolTable → Prop) : Prop where
  refl : ∀ t, R t t
  trans : ∀ {t u v}, R t u → R u v → R t v
  step : ∀ {t u}, TableStep t u → R t u
  refers : ∀ t name, R t (t.getOrAddPlaceholder name).2
  opens : ∀ {a b : Context} {id}, Opens a id b → R a.table b.table
  finishes : ∀ t id, R t (t.finishDefinition id)
  fills : ∀ t link target, R t (t.fill link target)

namespace SymbolTable.HoldsAcross

variable {R : SymbolTable → SymbolTable → Prop} (holds : HoldsAcross R)
include holds

/-! ## References -/

theorem resume (r : PendingReference) (target : SymbolId) (cx : Context) :
    R cx.table (Context.resume r target cx).table := by
  rw [Context.resume_table]
  exact holds.fills cx.table r.link target

theorem resumeEach (entries : List (PendingReference × SymbolId)) (cx : Context) :
    R cx.table (entries.foldl (fun cx e => Context.resume e.1 e.2 cx) cx).table := by
  induction entries generalizing cx with
  | nil => exact holds.refl cx.table
  | cons e rest ih => exact holds.trans (holds.resume e.1 e.2 cx) (ih _)

theorem linkType (cx : Context) (file : FileId) (scope : Option ScopeRef) (written : String)
    (pos : Position) (link : Link) : R cx.table (cx.linkType file scope written pos link).table := by
  cases cx.linkType_linking file scope written pos link with
  | none is =>
    rw [is]
    exact holds.refl cx.table
  | now inRun found is =>
    rw [is, Context.apply_table]
    exact holds.fills cx.table link _
  | @later f r inRun met waits undeclared is =>
    rw [is]
    exact holds.refers cx.table r.key

/-- A class is completed, and then what has waited for it is linked. -/
theorem defineComplete (cx : Context) (id : SymbolId) :
    R cx.table (cx.defineComplete id).table := by
  let finished : Context :=
    { cx with table := cx.table.finishDefinition id, pending := (cx.waitingFor id).2 }
  have resumed := holds.resumeEach ((cx.waitingFor id).1.map (·, id)) finished
  rw [List.foldl_map] at resumed
  exact holds.trans (holds.finishes cx.table id) resumed

theorem settle (cx : Context) : R cx.table cx.settle.table := by
  have resumed := holds.resumeEach (cx.pending.ready cx.table) { cx with pending := .empty }
  rw [Context.settle_eq, (Context.abandonEach_abandoned _ _).table]
  exact resumed

/-! ## Runs -/

variable {a b : Context}

theorem deed (deed : Deed a b) : R a.table b.table := by
  cases deed with
  | inspect w remaining scope idx node =>
    obtain ⟨log, is⟩ := w.inspect_changes a remaining scope idx node
    rw [is]
    exact holds.refl a.table
  | refuse w idx node =>
    rw [w.refuseDepth_eq]
    exact holds.refl a.table
  | report | prune | header => exact holds.refl a.table
  | enter step => exact holds.step step
  | link => exact holds.linkType ..

theorem course (course : Course a b) : R a.table b.table :=
  course.keeps (P := fun c => R a.table c.table)
    (fun deed before => holds.trans before (holds.deed deed))
    (fun opens before => holds.trans before (holds.opens opens))
    (fun _ before => holds.trans before (holds.defineComplete _ _)) (holds.refl a.table)

/-! ## Requests -/

theorem perform (cx : Context) (request : Context.Request) : R cx.table (cx.perform request).table := by
  cases request with
  | analyze unit =>
    have walked := holds.course (.of_run (cx.analyzeFile_run unit))
    exact walked
  | settle => exact holds.settle cx

theorem performAll (cx : Context) (requests : List Context.Request) :
    R cx.table (cx.performAll requests).table := by
  induction requests generalizing cx with
  | nil => exact holds.refl cx.table
  | cons request rest ih => exact holds.trans (holds.perform cx request) (ih _)

end SymbolTable.HoldsAcross

end LevelCheck
