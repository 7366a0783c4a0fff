import LevelCheck.Proofs.OtherScopes
import LevelCheck.Proofs.SilentLinking
import LevelCheck.Proofs.TableRelations
set_option autoImplicit false

/-! # What stays of a declaration

The record of a variable or a method says what its declaration says, and goes on saying it to the end
of the run. Only the classes that the types in it denote are filled in later. -/

namespace LevelCheck

namespace SymbolTable

/-- The table has grown. The variables that it had are written as they were, and the methods that it
had are constructors if they were. -/
structure KeepsRecords (t u : SymbolTable) : Prop where
  grows : t.Grows u
  var : ∀ id, id.val < t.vars.size → (u.var id).written = (t.var id).written
  method : ∀ id, id.val < t.methods.size → (u.method id).isConstructor = (t.method id).isConstructor

namespace KeepsRecords

variable {t u v : SymbolTable}

theorem refl (t : SymbolTable) : t.KeepsRecords t := ⟨.refl t, fun _ _ => rfl, fun _ _ => rfl⟩

theorem trans (first : t.KeepsRecords u) (second : u.KeepsRecords v) : t.KeepsRecords v where
  grows := first.grows.trans second.grows
  var id known := (second.var id (known.trans_le first.grows.vars)).trans (first.var id known)
  method id known :=
    (second.method id (known.trans_le first.grows.methods)).trans (first.method id known)

theorem of_spares {scope : Option ScopeRef} (spares : t.Spares u scope) : t.KeepsRecords u :=
  ⟨spares.grows, spares.var, fun id known => (spares.method id known).2⟩

theorem of_written (written : t.SameWriting u) (grows : t.Grows u) : t.KeepsRecords u :=
  .of_spares (.of_written written grows)

/-- New variables come after those that there are. -/
theorem of_appended {vars : List Variable} (grows : t.Grows u)
    (appended : u.vars = (t.appendVars vars).vars)
    (methods : ∀ id, (u.method id).isConstructor = (t.method id).isConstructor) :
    t.KeepsRecords u where
  grows := grows
  var id known := by
    rw [SymbolTable.var, SymbolTable.var, appended, appendVars]
    simp [Array.getD_eq_getD_getElem?, Array.getElem?_append_left known]
  method id _ := methods id

theorem step (step : TableStep t u) : t.KeepsRecords u := by
  have grows := step.grows
  cases step with
  | number | superclass | interface => exact of_written (.modifySymbol t _ fun _ => rfl) grows
  | method => exact of_spares (.addMethod t _)
  | @params id isOpen only vars areNew =>
    rw [addParams_table] at grows ⊢
    exact of_appended grows rfl fun m =>
      view_modifyMethod (t.appendVars vars) id m Method.isConstructor fun _ => rfl
  | fields =>
    rw [addFields_table] at grows ⊢
    exact of_appended grows rfl fun _ => rfl
  | @locals body isOpen vars areNew policy =>
    rw [addVars_table] at grows ⊢
    cases body with
    | method id =>
      exact of_appended grows rfl fun m =>
        view_modifyMethod (t.appendVars vars) id m Method.isConstructor fun _ => rfl
    | block id => exact of_appended grows rfl fun _ => rfl
  | block isOpen => exact of_spares (.addBlock isOpen)

end KeepsRecords

end SymbolTable

/-! ## Runs -/

theorem Opens.sameWriting {a b : Context} {id : SymbolId} (opens : Opens a id b) :
    a.table.SameWriting b.table := by
  obtain ⟨begun, isHead, -, -⟩ := opens
  exact Context.beginClass_written begun isHead

namespace SymbolTable

/-- Whatever a run does to its table keeps the records of variables and methods. -/
theorem KeepsRecords.holdsAcross : HoldsAcross KeepsRecords where
  refl := refl
  trans := trans
  step := step
  refers t name := .of_written (.getOrAddPlaceholder t name) (.getOrAddPlaceholder t name)
  opens opens := .of_written opens.sameWriting opens.precedes.table
  finishes t id := .of_written (.finishDefinition t id) (.finishDefinition t id)
  fills t link target := .of_written (.fill t link target) (Quiet.fill t link target).grows

end SymbolTable

theorem Course.keepsRecords {a b : Context} (course : Course a b) : a.table.KeepsRecords b.table :=
  SymbolTable.KeepsRecords.holdsAcross.course course

end LevelCheck
