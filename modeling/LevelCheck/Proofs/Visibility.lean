import LevelCheck.Proofs.ConstructorNames
import LevelCheck.Proofs.ResolutionOrder
import LevelCheck.Proofs.WithinClass
set_option autoImplicit false

/-! # Where a class is seen by its simple name

A class that is declared at the top level of a file or by a class is named so that its simple name
may denote it wherever a type is written among its members, and the name has been declared by then.
The name of a class in a body holds its number as well, which no simple name is tried with. -/

namespace LevelCheck

/-! ## Where a class that is accepted is seen -/

namespace Walk

variable {w : Walk} {v : Visit} {decl : TypeDecl} {id : SymbolId} {a : Context}

/-- Among its members a class that a file or a class declares is seen by its simple name. -/
theorem Accepts.meaning (isOpen : v.scope.IsOpenIn v.before.table) (lifecycle : v.before.Lifecycle)
    (simply : v.before.NamesSimply) (accepts : w.Accepts v decl id a)
    (plain : IsPlainName decl.name) (notPrimitive : Builtin.isPrimitive decl.name = false)
    (notInBody : ∀ body, v.scope ≠ .body body) :
    ∃ meaning : Meaning, meaning.simple = decl.name ∧ meaning.full = (a.table.symbol id).name
      ∧ meaning.Since a (.symbol id) a := by
  obtain ⟨course, inside⟩ := accepts.course isOpen
  obtain ⟨outer, c, same, -, named⟩ := accepts.placed isOpen
  have lifecycle' := lifecycle.course course
  have simply' : a.NamesSimply :=
    ((GoesThrough.members accepts).keeps isOpen (namesSimply_keeps w) lifecycle simply).2
  have forest := lifecycle'.owned.forest
  cases scope : v.scope with
  | file =>
    have ends : (a.table.symbol id).simpleName = decl.name := by
      rw [Symbol.simpleName, named, scope, qualifiedName]
      split
      · exact FileScope.simpleName_qualify _ plain.noDot
      · exact Text.afterLast_of_absent plain.noDot
    let meaning : Meaning := ⟨decl.name, (a.table.symbol id).name, id, plain, notPrimitive⟩
    exact ⟨meaning, rfl, rfl, ⟨forest, simply', inside, .self forest inside,
      Resolution.mem_classCandidates.2 (.inl ⟨ends, rfl⟩)⟩, .refl a⟩
  | classBody owner =>
    have older : v.before.table.IsOpen (.symbol owner) := isOpen _ (by rw [scope]; rfl)
    have around := course.precedes.table.isOpen older
    have member : (a.table.symbol id).name
        = Resolution.memberName (a.table.symbol owner).name decl.name := by
      rw [named, scope, course.precedes.table.name owner older.1, ← same]
      rfl
    have step : a.table.outerOf (.symbol id) = some (.symbol owner) := by
      rw [SymbolTable.outerOf, outer, scope]
      rfl
    let meaning : Meaning := ⟨decl.name, (a.table.symbol id).name, owner, plain, notPrimitive⟩
    exact ⟨meaning, rfl, rfl, ⟨forest, simply', inside,
      (SymbolTable.LiesIn.self forest around).inner forest inside step,
      Resolution.mem_classCandidates.2 (.inr member)⟩, .refl a⟩
  | body body => exact absurd scope (notInBody body)

end Walk

/-! ## Runs -/

namespace Context

variable {cx : Context}

/-- At every visit of a run, references have been met under simple names. -/
theorem ComesTo.namesSimply {requests : List Request} {w : Walk} {v : Visit}
    (lifecycle : cx.Lifecycle) (simply : cx.NamesSimply) (comes : cx.ComesTo requests w v) :
    v.scope.IsOpenIn v.before.table ∧ v.before.Lifecycle ∧ v.before.NamesSimply := by
  induction comes with
  | @here cx unit rest v comes =>
    have isOpen := WalkScope.isOpenIn_file (cx.rootVisit unit).before.table
    exact ⟨(comes.course isOpen).2, comes.keeps isOpen (Walk.namesSimply_keeps _)
      (lifecycle.addFile unit.tree.fileName unit.level)
      (simply.addFile unit.tree.fileName unit.level)⟩
  | @later cx request rest w v comes ih =>
    exact ih (lifecycle.perform request) (simply.perform lifecycle request)

/-- The class is the only one with its simple name that the batch declares, and no builtin class has
it. -/
structure DeclaresOnly (cx : Context) (simple : String) (id : SymbolId) : Prop where
  noBuiltin : ∀ name ∈ Builtin.names, lastPart name ≠ simple
  only : ∀ name ∈ cx.declarations, lastPart name = simple → name = (cx.table.symbol id).name

theorem DeclaresOnly.visits {simple : String} {id : SymbolId} (only : cx.DeclaresOnly simple id)
    (settled : cx.Settled) {name : String} (visited : cx.visits name)
    (ends : lastPart name = simple) : name = (cx.table.symbol id).name := by
  rcases (settled.visited name).1 visited with isBuiltin | began
  · exact absurd ends (only.noBuiltin name isBuiltin)
  · exact only.only name (List.mem_filterMap.2 ⟨_, began, rfl⟩) ends

section

variable (units : List SourceUnit) (options : Options)

theorem ofUnits_namesSimply : (ofUnits units options).NamesSimply := by
  have analyzed := (namesSimply_start options).performAll (lifecycle_start options)
    (units.map .analyze)
  rw [← analyzeFiles_eq_performAll] at analyzed
  exact analyzed.step (Silent.settle _).files (.settle _)

variable {units options}

/-- The plain name that is written for a type ends all that the reference may denote. -/
theorem lastPart_of_met {e : Event} {r : Reference}
    (happened : e ∈ (ofUnits units options).history.toList) (met : e.met? = some r) {simple : String}
    (plain : IsPlainName simple) (isWritten : r.IsWritten simple) :
    ∀ c ∈ r.candidates, lastPart c = simple :=
  (ofUnits_namesSimply units options).met r (List.mem_filterMap.2 ⟨e, happened, met⟩) simple plain
    isWritten

theorem declaredBy_of_accepted {a : Context} {name : String}
    (accepted : name ∈ Builtin.names ++ a.declarations) (more : List Event) :
    declaredBy (a.history.toList ++ more) name = true := by
  rw [declaredBy, Bool.or_eq_true, List.contains_iff_mem, List.contains_iff_mem]
  rcases List.mem_append.1 accepted with isBuiltin | began
  · exact .inl isBuiltin
  · obtain ⟨e, happened, is⟩ := List.mem_filterMap.1 began
    cases e with
    | began name' =>
      obtain rfl := Option.some.inj is
      exact .inr (List.mem_append_left _ happened)
    | linked | deferred | resumed | abandoned => cases is

/-- A reference to what has been declared by then is linked as soon as it is met. -/
theorem linked_of_declared {before later : List Event} {e : Event} {r : Reference}
    (history : (ofUnits units options).history.toList = before ++ e :: later) (met : e.met? = some r)
    {full : String} (candidate : full ∈ r.candidates) (declared : declaredBy before full = true) :
    ∃ target, e = .linked r target ∧ (ofUnits units options).IsClassOf target r.candidates := by
  have happened : e ∈ (ofUnits units options).history.toList := by
    rw [history]
    exact List.mem_append_right _ List.mem_cons_self
  cases e with
  | linked r' target =>
    obtain rfl := Option.some.inj met
    exact ⟨target, rfl, (ofUnits_fates units options).linked _
      (List.mem_filterMap.2 ⟨_, happened, rfl⟩)⟩
  | deferred r' =>
    obtain rfl := Option.some.inj met
    have undeclared :=
      (ofUnits_inOrder units options).waits before _ later history full candidate
    rw [undeclared] at declared
    cases declared
  | began | resumed | abandoned => cases met

/-- The only class that ends in a plain name is what a reference is linked to for which it is
written. -/
theorem DeclaresOnly.target {simple : String} {id : SymbolId}
    (only : (ofUnits units options).DeclaresOnly simple id)
    (known : id.val < (ofUnits units options).table.size) {target : SymbolId} {names : List String}
    (ends : ∀ c ∈ names, lastPart c = simple)
    (isClass : (ofUnits units options).IsClassOf target names) : target = id := by
  have unique := ofUnits_uniqueNames units options
  refine unique target id isClass.1 known ?_
  exact only.visits (ofUnits_fates units options) (IsClassOf.visits unique isClass)
    (ends _ isClass.2.2)

/-- If the class itself does not end in the plain name, whatever the name is written for is given
up. -/
theorem DeclaresOnly.abandoned {simple : String} {id : SymbolId}
    (only : (ofUnits units options).DeclaresOnly simple id) (plain : IsPlainName simple)
    (other : lastPart ((ofUnits units options).table.symbol id).name ≠ simple) {e : Event}
    {r : Reference} (happened : e ∈ (ofUnits units options).history.toList) (met : e.met? = some r)
    (isWritten : r.IsWritten simple) :
    e = .deferred r ∧ r.waiting ∈ (ofUnits units options).abandonedRefs := by
  have settled := ofUnits_fates units options
  have ends := lastPart_of_met happened met plain isWritten
  have none : ∀ c ∈ r.candidates, (ofUnits units options).visits c = false := by
    intro c candidate
    refine Bool.eq_false_iff.2 fun visited => other ?_
    rw [← only.visits settled visited (ends c candidate)]
    exact ends c candidate
  cases e with
  | linked r' target =>
    obtain rfl := Option.some.inj met
    have isClass := settled.linked _ (List.mem_filterMap.2 ⟨_, happened, rfl⟩)
    have visited := IsClassOf.visits (ofUnits_uniqueNames units options) isClass
    rw [none _ isClass.2.2] at visited
    cases visited
  | deferred r' =>
    obtain rfl := Option.some.inj met
    have deferred : r' ∈ (ofUnits units options).deferredRefs :=
      List.mem_filterMap.2 ⟨_, happened, rfl⟩
    have unresolved : (ofUnits units options).resolves r' = false := by
      rw [resolves, List.any_eq_false]
      intro c candidate
      rw [none c candidate]
      exact Bool.false_ne_true
    refine ⟨rfl, settled.abandoned.mem_iff.2 (List.mem_map.2 ⟨r', ?_, rfl⟩)⟩
    exact List.mem_filter.2 ⟨deferred, by rw [unresolved]; rfl⟩
  | began | resumed | abandoned => cases met

end

/-- A class is seen by its simple name among its own members, unless it is declared in a body. If it
is the only class of that name, each type that is written by the name among the members of a class
at the top level of a file or of a member is linked to it as soon as it is met. A class in a body is
never seen by its simple name: wherever in the batch a type is written by the name, it is recorded
as unresolved. -/
theorem ofUnits_visible (units : List SourceUnit) (options : Options) {w : Walk} {v : Visit}
    {decl : Walk.TypeDecl} {id : SymbolId} {a : Context}
    (comes : (start options).ComesTo (units.map .analyze) w v) (accepts : w.Accepts v decl id a)
    (plain : IsPlainName decl.name) (only : (ofUnits units options).DeclaresOnly decl.name id) :
    ((∀ body, v.scope ≠ .body body) → ∃ events,
      ((w.visit (v.remaining - 1)).each (.classBody id) decl.members a).history.toList
          = a.history.toList ++ events
        ∧ a.history.toList ++ events <+: (ofUnits units options).history.toList
        ∧ ∀ e ∈ events, ∀ r, e.met? = some r → r.IsWritten decl.name → e = .linked r id)
    ∧ ((∃ body, v.scope = .body body) → ∀ e ∈ (ofUnits units options).history.toList, ∀ r,
        e.met? = some r → r.IsWritten decl.name →
        e = .deferred r ∧ r.waiting ∈ (ofUnits units options).abandonedRefs) := by
  have settled := ofUnits_fates units options
  obtain ⟨isOpen, lifecycle, simply⟩ :=
    comes.namesSimply (lifecycle_start options) (namesSimply_start options)
  obtain ⟨course, inside⟩ := accepts.course isOpen
  -- the state among the members comes before the end of the run
  have walked := Walk.through_run (w := w) (WalkScope.isOpenIn_classBody inside) (v.remaining - 1)
    (nested decl.members)
  have returns := ((Walk.GoesThrough.members accepts).returns isOpen)
  have toEnd : (w.after v).GoesOn (ofUnits units options) := by
    have ends := comes.goesOn
    rw [← analyzeFiles_eq_performAll] at ends
    exact ends.trans (.perform _ .settle)
  have after := (GoesOn.course returns).trans toEnd
  rw [← Visitor.each_eq_through] at walked after
  have grows := (GoesOn.course (.of_run walked.1)).table.trans after.table
  have known : id.val < (ofUnits units options).table.size := inside.1.trans_le grows.symbols
  have named := grows.name id inside.1
  refine ⟨fun notInBody => ?_, fun ⟨body, inBody⟩ e happened r met isWritten => ?_⟩
  · have notPrimitive : Builtin.isPrimitive decl.name = false := by
      refine Bool.eq_false_iff.2 fun primitive =>
        only.noBuiltin decl.name ?_ (lastPart_simple plain)
      exact List.mem_append_left _ (List.contains_iff_mem.1 primitive)
    obtain ⟨meaning, isSimple, isFull, since⟩ :=
      accepts.meaning isOpen lifecycle simply plain notPrimitive notInBody
    have journey := (w.visit_journeys (v.remaining - 1)).each decl.members
      (WalkScope.isOpenIn_classBody inside)
    have ended := since.journey rfl (lifecycle.course course) journey
    obtain ⟨events, history, covers⟩ := ended.meets
    refine ⟨events, history, history ▸ after.history, fun e isEvent r met isWritten => ?_⟩
    obtain ⟨rest, toEnd⟩ := after.history
    obtain ⟨before, later, rfl⟩ := List.append_of_mem isEvent
    have split : (ofUnits units options).history.toList
        = (a.history.toList ++ before) ++ e :: (later ++ rest) := by
      rw [← toEnd, history]
      simp
    have happened : e ∈ (ofUnits units options).history.toList := by
      rw [split]
      exact List.mem_append_right _ List.mem_cons_self
    have candidate : (a.table.symbol id).name ∈ r.candidates := by
      rw [← isFull]
      exact covers r (List.mem_filterMap.2 ⟨e, isEvent, met⟩) (isSimple ▸ isWritten)
    have declared : declaredBy (a.history.toList ++ before) (a.table.symbol id).name = true := by
      have accepted := ((lifecycle.course course).declares _).1 ⟨id, inside.1, rfl, inside.2⟩
      exact declaredBy_of_accepted accepted _
    obtain ⟨target, rfl, isClass⟩ := linked_of_declared split met candidate declared
    rw [only.target known (lastPart_of_met happened met plain isWritten) isClass]
  · -- the name of the class ends in its number and the simple name
    have numbered := accepts.constructorName plain.noDollar plain.noDot isOpen
    rw [Visit.constructorName, inBody, Symbol.constructorName_eq, ← named] at numbered
    refine only.abandoned plain (fun same => ?_) happened met isWritten
    exact plain.ne_numberedName _ (same.symm.trans numbered)

end Context

/-- A class with a field of its own type. -/
def selfReferring : SourceUnit where
  level := .full
  tree :=
    { fileName := "A.java", root := ⟨0⟩
      arena := { nodes := #[
        ⟨.nowhere, .sourceFile none [] [⟨1⟩]⟩,
        ⟨⟨1, 1⟩, .classDef [] "A" [] none [] [⟨2⟩]⟩,
        ⟨⟨2, 3⟩, .variableDeclaration [] [⟨3⟩]⟩,
        ⟨⟨2, 5⟩, .variableDeclarator "A" "next" none⟩] } }

/-- The type of the field is linked to the class while this is visited. -/
theorem Context.ofUnits_visible_selfReferring : ∃ w v decl id a events,
    (start .usual).ComesTo ([selfReferring].map .analyze) w v ∧ w.Accepts v decl id a
      ∧ decl.name = "A" ∧ (ofUnits [selfReferring] .usual).DeclaresOnly decl.name id
      ∧ ((w.visit (v.remaining - 1)).each (.classBody id) decl.members a).history.toList
          = a.history.toList ++ events
      ∧ (∀ e ∈ events, ∀ r, e.met? = some r → r.IsWritten decl.name → e = .linked r id)
      ∧ (ofUnits [selfReferring] .usual).linkedRefs.map (·.2) = [id] := by
  let w := (start .usual).walkOf selfReferring
  let root := (start .usual).rootVisit selfReferring
  let header : Context := (w.inspect root.remaining .file ⟨0⟩
    ⟨.nowhere, .sourceFile none [] [⟨1⟩]⟩ root.before).2
  have admits : w.Admits root ⟨.nowhere, .sourceFile none [] [⟨1⟩]⟩ ⟨false, false⟩ header :=
    ⟨by decide, rfl, Prod.ext (by decide +kernel) rfl⟩
  let v : Visit :=
    { remaining := root.remaining - 1, mode := .nested, scope := .file, node := ⟨1⟩
      before := w.enterFile none [] [⟨1⟩] header }
  have goes : w.GoesThrough root .file (nested [⟨1⟩]) (w.enterFile none [] [⟨1⟩] header) :=
    .calls admits (.header rfl)
  have leads : w.LeadsTo root v := ⟨.file, [], .nested, ⟨1⟩, [], _, goes, rfl⟩
  let decl : Walk.TypeDecl :=
    { modifiers := [], name := "A", typeParams := [], isInterface := false, superclass := none
      interfaces := [], members := [⟨2⟩] }
  let a := (w.inspect v.remaining .file ⟨1⟩ ⟨⟨1, 1⟩, .classDef [] "A" [] none [] [⟨2⟩]⟩ v.before).2
  have admits' : w.Admits v ⟨⟨1, 1⟩, .classDef [] "A" [] none [] [⟨2⟩]⟩ ⟨false, false⟩ a :=
    ⟨by decide, rfl, Prod.ext (by decide +kernel) rfl⟩
  obtain ⟨⟨id, b⟩, begun, first⟩ : ∃ r, (w.qualifiedName .file "A" a).2.beginClass?
      (w.qualifiedName .file "A" a).1 none decl.head = some r ∧ (r.1 == ⟨25⟩) = true :=
    (Option.any_eq_true _ _).1 (by decide +kernel)
  obtain rfl : id = ⟨25⟩ := beq_iff_eq.1 first
  have comes : (start .usual).ComesTo ([selfReferring].map .analyze) w v :=
    .here (.single leads)
  have accepts : w.Accepts v decl ⟨25⟩ _ := .intro admits' rfl begun
  have only : (ofUnits [selfReferring] .usual).DeclaresOnly "A" ⟨25⟩ :=
    ⟨by decide +kernel, by decide +kernel⟩
  obtain ⟨seen, -⟩ := ofUnits_visible [selfReferring] .usual comes accepts (by decide) only
  obtain ⟨events, history, -, linked⟩ := seen nofun
  exact ⟨w, v, decl, ⟨25⟩, _, events, comes, accepts, rfl, only, history, linked, by decide +kernel⟩

/-- A class in the body of a method, with a field of its own type. -/
def selfReferringLocal : SourceUnit where
  level := .full
  tree :=
    { fileName := "A.java", root := ⟨0⟩
      arena := { nodes := #[
        ⟨.nowhere, .sourceFile none [] [⟨1⟩]⟩,
        ⟨⟨1, 1⟩, .classDef [] "A" [] none [] [⟨2⟩]⟩,
        ⟨⟨2, 3⟩, .methodDef [] [] "void" "m" [] [] (some ⟨3⟩)⟩,
        ⟨⟨2, 12⟩, .block [⟨4⟩]⟩,
        ⟨⟨3, 5⟩, .classDef [] "Local" [] none [] [⟨5⟩]⟩,
        ⟨⟨4, 7⟩, .variableDeclaration [] [⟨6⟩]⟩,
        ⟨⟨4, 13⟩, .variableDeclarator "Local" "next" none⟩] } }

/-- The class is accepted, and it is the only one of its simple name, but the type of its field is
not found. -/
theorem Context.ofUnits_selfReferringLocal :
    selfReferringLocal.tree.arena.get? ⟨4⟩
        = some ⟨⟨3, 5⟩, .classDef [] "Local" [] none [] [⟨5⟩]⟩
      ∧ selfReferringLocal.tree.arena.get? ⟨6⟩
        = some ⟨⟨4, 13⟩, .variableDeclarator "Local" "next" none⟩
      ∧ (ofUnits [selfReferringLocal] .usual).declarations = ["A", "A$1Local"]
      ∧ (∀ name ∈ Builtin.names, lastPart name ≠ "Local")
      ∧ (ofUnits [selfReferringLocal] .usual).linkedRefs.filter
          (fun e => e.1.position == ⟨4, 13⟩) = []
      ∧ (ofUnits [selfReferringLocal] .usual).unresolvedRecords
        = [.ofProblem "A.java" ⟨4, 13⟩ (.unresolved "Local")] :=
  ⟨rfl, rfl, by decide +kernel, by decide +kernel, by decide +kernel, by decide +kernel⟩

end LevelCheck
