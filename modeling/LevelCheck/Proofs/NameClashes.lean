import LevelCheck.Proofs.Declared
import LevelCheck.Proofs.Naming
import LevelCheck.Proofs.Nesting
import LevelCheck.Proofs.Refusals
set_option autoImplicit false

/-! # Which classes are refused

In a run over files that name plainly, a class is refused only if the file declares it at the top level,
and its package has a type of its simple name, or its class declares it, and has a member of its simple
name. A class in a body and an anonymous class are never refused. -/

namespace LevelCheck

namespace SymbolTable

variable {t : SymbolTable} {id : SymbolId}

/-- A class that lies directly in another is listed by it. -/
theorem ClassTree.isInner (classes : t.ClassTree) {owner : SymbolId}
    (member : (t.symbol id).outer = some (.symbol owner)) : id ∈ (t.symbol owner).innerClasses := by
  have around : t.outerClass? id = some owner := by
    rw [outerClass?, member]
    rfl
  have once := classes.inner owner id
  rw [if_pos around] at once
  exact List.count_pos_iff.1 (once ▸ Nat.one_pos)

end SymbolTable

namespace Walk

/-- The class of a visit is refused, and there is a class in its place that has its simple name. -/
inductive Clashes (w : Walk) (v : Visit) : Diagnostic → Prop where
  /-- A type at the top level of a file has the package and the simple name of a builtin type or of
  another that has been accepted at the top level of a file. -/
  | atFile {node : Node} {admission : Admission} {decl : TypeDecl} {a : Context} {f : FileScope}
      {other : SymbolId} (admits : w.Admits v node admission a)
      (is : node.data.typeDecl? = some decl) (outside : v.scope = .file)
      (inRun : a.file? w.file = some f) (declared : a.table.IsOpen (.symbol other))
      (accepted : (a.table.symbol other).name ∈ Builtin.names ++ a.declarations)
      (atFile : (a.table.symbol other).outer = none)
      (package : (a.table.symbol other).package = f.package)
      (simpleName : (a.table.symbol other).simpleName = decl.name) :
      Clashes w v (Diagnostic.ofProblem (a.fileName w.file) node.pos
        (.duplicateClass (f.qualify decl.name))).pruning
  /-- A member of a class has the simple name of another one that has been accepted. -/
  | inClass {node : Node} {admission : Admission} {decl : TypeDecl} {a : Context}
      {owner other : SymbolId} (admits : w.Admits v node admission a)
      (is : node.data.typeDecl? = some decl) (inside : v.scope = .classBody owner)
      (declared : a.table.IsOpen (.symbol other))
      (accepted : (a.table.symbol other).name ∈ a.declarations)
      (member : (a.table.symbol other).outer = some (.symbol owner))
      (isInner : other ∈ (a.table.symbol owner).innerClasses)
      (constructorName : (a.table.symbol other).constructorName = decl.name) :
      Clashes w v (Diagnostic.ofProblem (a.fileName w.file) node.pos
        (.duplicateClass (Resolution.memberName (a.table.symbol owner).name decl.name))).pruning

variable {w : Walk} {v : Visit}

/-- The next number of a class has not been given, so no class that takes it is refused. -/
theorem numbered_isNew {a : Context} (well : a.NamesWell) (lifecycle : a.Lifecycle) {ref : ScopeRef}
    (isOpen : a.table.IsOpen ref) {simple : String} (plain : IsPlainName simple)
    {head : Symbol → Symbol} : (numbered ref a).beginClass?
      (Resolution.memberName ((numbered ref a).table.symbol (a.table.enclosingSymbol ref)).name
        (numberedName (a.table.numberLocalClass (a.table.enclosingSymbol ref)).1 simple))
      (some ref) head ≠ none := by
  intro refused
  have counted : Run a (numbered ref a) := .deed (.enter (.number isOpen))
  obtain ⟨other, declared, named⟩ := Context.declared_of_refused refused
  have owner := lifecycle.owned.forest.scopes.enclosingSymbol_isOpen isOpen
  have older := (SymbolTable.SameLineage.numberLocalClass a.table
    (a.table.enclosingSymbol ref)).isOpen_iff other |>.1 declared
  -- the class of that name had been declared before, so its number is one of those given before
  rw [counted.precedes.table.name other older.1, counted.precedes.table.name _ owner.1] at named
  have le := (well.classes other older).number_le lifecycle.owned.forest owner plain named
  exact Nat.not_succ_le_self _ le

/-- What is refused has a reason. -/
theorem Refuses.clashes (plain : w.arena.NamesPlainly) (isOpen : v.scope.IsOpenIn v.before.table)
    (inRun : w.file.val < v.before.files.size) (lifecycle : v.before.Lifecycle)
    (well : v.before.NamesWell) {d : Diagnostic} (refuses : w.Refuses v d) : w.Clashes v d := by
  have keeps := namesWell_keeps plain
  cases refuses with
  | @name node admission a decl admits is refused =>
    obtain ⟨lifecycle, well⟩ := admits.keeps isOpen keeps lifecycle well
    have plainName := plain.types node (Arena.mem_of_get admits.2.1) decl is
    have isOpen := admits.run.precedes.isOpenIn isOpen
    have forest := lifecycle.owned.forest
    cases scope : v.scope with
    | file =>
      obtain ⟨f, found⟩ : ∃ f, a.file? w.file = some f := by
        have bound : w.file.val < a.files.size := by rwa [admits.run.precedes.files_size]
        exact ⟨_, Array.getElem?_eq_getElem bound⟩
      have qualified : w.qualifiedName .file decl.name a = (f.qualify decl.name, a) := by
        rw [qualifiedName, found]
      rw [scope, qualified] at refused
      rw [qualified]
      obtain ⟨other, declared, named⟩ := Context.declared_of_refused refused
      have noDollar : '$' ∉ (a.table.symbol other).name.toList := by
        have package := well.packages f (Array.mem_of_getElem? found)
        rw [named, FileScope.qualify]
        split <;> simp [package, plainName.noDollar]
      have atFile := (well.classes other declared).outside noDollar
      refine .atFile admits is scope found declared ?_ atFile ?_ ?_
      · exact (lifecycle.declares _).1 ⟨other, declared.1, rfl, declared.2⟩
      · rw [Symbol.package, named, f.package_qualify plainName.noDot]
      · rw [Symbol.simpleName, named, f.simpleName_qualify plainName.noDot]
    | classBody owner =>
      rw [scope] at refused isOpen
      have refused : a.beginClass? (Resolution.memberName (a.table.symbol owner).name decl.name)
          (some (.symbol owner)) decl.head = none := refused
      obtain ⟨other, declared, named⟩ := Context.declared_of_refused refused
      have member := (well.classes other declared).isMember forest (isOpen _ rfl) plainName named
      refine .inClass admits is scope declared ?_ member (forest.classes.isInner member)
        (Symbol.constructorName_member named plainName.noDollar plainName.noDot)
      have accepted := (lifecycle.declares _).1 ⟨other, declared.1, rfl, declared.2⟩
      have noBuiltin : ∀ name ∈ Builtin.names, '$' ∉ name.toList := by decide +kernel
      refine (List.mem_append.1 accepted).resolve_left fun isBuiltin => noBuiltin _ isBuiltin ?_
      rw [named]
      exact Resolution.dollar_mem_memberName _ _
    | body id =>
      rw [scope] at refused isOpen
      exact absurd refused (numbered_isNew well lifecycle (isOpen _ rfl) plainName)
  | @number node ref type members a builds refused =>
    obtain ⟨lifecycle, well⟩ := builds.keeps isOpen keeps lifecycle well
    have plainName : IsPlainName "" := by decide
    have isNew := @numbered_isNew a well lifecycle ref (builds.run isOpen).2 "" plainName (fun s => s)
    rw [numberedName, String.append_empty] at isNew
    exact absurd refused isNew

end Walk

/-! ## Runs -/

namespace Context

/-- The files of the requests name plainly. -/
def NamePlainly (requests : List Request) : Prop :=
  ∀ unit ∈ requests.filterMap Request.unit?, unit.tree.arena.NamesPlainly

variable {cx : Context} (lifecycle : cx.Lifecycle) (well : cx.NamesWell)
include lifecycle well

theorem NamesWell.analyzeFile {unit : SourceUnit} (plain : unit.tree.arena.NamesPlainly) :
    (cx.analyzeFile unit).2.NamesWell :=
  (cx.analyzeFile_journey unit).keeps (w := cx.walkOf unit) (Walk.namesWell_keeps plain)
    (lifecycle.addFile unit.tree.fileName unit.level) (well.addFile unit.tree.fileName unit.level)

/-- At every visit of a run, what has been declared is well named. -/
theorem ComesTo.namesWell {requests : List Request} (plain : NamePlainly requests) {w : Walk}
    {v : Visit} (comes : cx.ComesTo requests w v) :
    w.arena.NamesPlainly ∧ v.scope.IsOpenIn v.before.table ∧ w.file.val < v.before.files.size
      ∧ v.before.Lifecycle ∧ v.before.NamesWell := by
  induction comes with
  | @here cx unit rest v comes =>
    have plain := plain unit List.mem_cons_self
    have isOpen := WalkScope.isOpenIn_file (cx.rootVisit unit).before.table
    obtain ⟨course, inside⟩ := comes.course isOpen
    obtain ⟨lifecycle, well⟩ := comes.keeps isOpen (Walk.namesWell_keeps plain)
      (lifecycle.addFile unit.tree.fileName unit.level) (well.addFile unit.tree.fileName unit.level)
    refine ⟨plain, inside, ?_, lifecycle, well⟩
    rw [course.precedes.files_size]
    show cx.files.size < (cx.files.push _).size
    simp
  | @later cx request rest w v comes ih =>
    cases request with
    | analyze unit =>
      exact ih (lifecycle.perform _) (well.analyzeFile lifecycle (plain unit List.mem_cons_self))
        fun u isIn => plain u (List.mem_cons_of_mem _ isIn)
    | settle => exact ih (lifecycle.perform _) (well.settle lifecycle) plain

omit lifecycle well

theorem namesWell_start (options : Options) : (start options).NamesWell where
  classes := by
    intro id isOpen
    have builtin : ∀ s ∈ SymbolTable.seeded.symbols.toList, s.outer = none ∧ '$' ∉ s.name.toList := by
      decide +kernel
    rcases SymbolTable.seeded_symbol id with isIn | blank
    · exact .atFile (builtin _ isIn).1 (builtin _ isIn).2
    · rw [SymbolTable.isOpen_symbol] at isOpen
      have declared : (SymbolTable.seeded.symbol id).isDeclared := isOpen
      rw [blank] at declared
      contradiction
  packages := nofun

/-- A class is refused only for one in its place that has its simple name. In a run over files whose
simple names are plain and whose packages hold no `$`, whatever class is refused is declared at the top
level of a file, and its package has a builtin type or an accepted one of its simple name, or it is
declared by a class, which has an accepted member of its simple name; so no class in a body is refused
and no anonymous one. The records of refused classes are those of the visits that refuse them. -/
theorem performAll_clashes (options : Options) (requests : List Request)
    (plain : NamePlainly requests) :
    (∀ w v d, (start options).ComesTo requests w v → w.Refuses v d → w.Clashes v d)
      ∧ ∃ visits : List (Walk × Visit),
        (∀ entry ∈ visits, (start options).ComesTo requests entry.1 entry.2)
          ∧ List.Forall₂ (fun entry d => entry.1.Refuses entry.2 d ∧ entry.1.Clashes entry.2 d) visits
            (((start options).performAll requests).log.coded 1013) := by
  have clashes {w : Walk} {v : Visit} {d : Diagnostic} (comes : (start options).ComesTo requests w v)
      (refuses : w.Refuses v d) : w.Clashes v d := by
    obtain ⟨plain, isOpen, inRun, lifecycle, well⟩ :=
      comes.namesWell (lifecycle_start options) (namesWell_start options) plain
    exact refuses.clashes plain isOpen inRun lifecycle well
  refine ⟨fun w v d => clashes, ?_⟩
  obtain ⟨visits, records, log, comes, refused⟩ := (start options).performAll_refusals requests
  have none : (start options).log.coded 1013 = [] := rfl
  rw [none, List.nil_append] at log
  rw [log]
  have met := (List.forall₂_and_left _ _).2 ⟨comes, refused⟩
  exact ⟨visits, comes, met.imp fun entry d ⟨comes, refuses⟩ => ⟨refuses, clashes comes refuses⟩⟩

end Context

/-- A class with two members of one name, and two local classes of one name and an anonymous class in
a body. -/
def crowded : SourceUnit where
  level := .full
  tree :=
    { fileName := "A.java", root := ⟨0⟩
      arena := { nodes := #[
        ⟨.nowhere, .sourceFile (some "p") [] [⟨1⟩]⟩,
        ⟨⟨1, 1⟩, .classDef [] "A" [] none [] [⟨2⟩, ⟨3⟩, ⟨4⟩]⟩,
        ⟨⟨2, 3⟩, .classDef [] "B" [] none [] []⟩,
        ⟨⟨3, 3⟩, .classDef [] "B" [] none [] []⟩,
        ⟨⟨4, 3⟩, .methodDef [] [] "void" "m" [] [] (some ⟨5⟩)⟩,
        ⟨⟨4, 12⟩, .block [⟨6⟩, ⟨7⟩, ⟨8⟩]⟩,
        ⟨⟨5, 5⟩, .classDef [] "L" [] none [] []⟩,
        ⟨⟨6, 5⟩, .classDef [] "L" [] none [] []⟩,
        ⟨⟨7, 5⟩, .expressionStatement ⟨9⟩⟩,
        ⟨⟨7, 9⟩, .anonymousClass none "Object" [] []⟩] } }

/-- A file that declares a class of the same package and name. -/
def crowdedAgain : SourceUnit where
  level := .full
  tree :=
    { fileName := "B.java", root := ⟨0⟩
      arena := { nodes := #[
        ⟨.nowhere, .sourceFile (some "p") [] [⟨1⟩]⟩,
        ⟨⟨1, 1⟩, .classDef [] "A" [] none [] []⟩] } }

/-- The second member and the class of the second file are refused, and the three classes of the body
are accepted under numbers of their own. -/
theorem Context.performAll_clashes_crowded :
    NamePlainly [.analyze crowded, .analyze crowdedAgain]
      ∧ ((start .usual).performAll [.analyze crowded, .analyze crowdedAgain]).declarations
        = ["p.A", "p.A$B", "p.A$1L", "p.A$2L", "p.A$3"]
      ∧ (((start .usual).performAll [.analyze crowded, .analyze crowdedAgain]).log.coded 1013).map
          (fun d => (d.file, d.line)) = [(some "A.java", 3), (some "B.java", 1)]
      ∧ ∃ visits : List (Walk × Visit),
        (∀ entry ∈ visits, (start .usual).ComesTo [.analyze crowded, .analyze crowdedAgain]
            entry.1 entry.2)
          ∧ List.Forall₂ (fun entry d => entry.1.Clashes entry.2 d) visits
            (((start .usual).performAll [.analyze crowded, .analyze crowdedAgain]).log.coded 1013) := by
  have plain : NamePlainly [.analyze crowded, .analyze crowdedAgain] := by
    have each : ∀ unit ∈ [crowded, crowdedAgain], unit.tree.arena.NamesPlainly := by decide +kernel
    exact each
  obtain ⟨-, visits, comes, refused⟩ :=
    performAll_clashes .usual [.analyze crowded, .analyze crowdedAgain] plain
  exact ⟨plain, by decide +kernel, by decide +kernel, visits, comes, refused.imp fun _ _ => And.right⟩

end LevelCheck
