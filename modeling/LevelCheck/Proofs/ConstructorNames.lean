import LevelCheck.Proofs.ClassNames
import LevelCheck.Proofs.Supertypes
import LevelCheck.Proofs.Visits
set_option autoImplicit false

/-! # The names that constructors carry

A constructor is recorded unless it carries the name of its class, and that name is cut out of the
qualified one. What is cut out of the name of a class at the top level of a file and of a member is the
simple name. The name of a class in a body holds its number as well, which is not cut off: there a
constructor has to carry a name that begins with a digit, and one that carries the simple name is
recorded. -/

namespace LevelCheck

/-- The name that the constructors of the class have to carry that a visit declares by a simple name. -/
def Visit.constructorName (v : Visit) (simple : String) : String :=
  match v.scope with
  | .file | .classBody _ => simple
  | .body id =>
    numberedName (v.before.table.numberLocalClass (v.before.table.enclosingSymbol id.scope)).1 simple

namespace Walk

variable (w : Walk)

/-- The visit of a member of the class that a visit declares, after those of the members before it. -/
inductive ComesToMember (v : Visit) (decl : TypeDecl) (id : SymbolId) : Visit → Prop where
  | intro {before more : List NodeIndex} {idx : NodeIndex} {a : Context}
      (accepts : w.Accepts v decl id a) (is : decl.members = before ++ idx :: more) :
      ComesToMember v decl id
        { remaining := v.remaining - 1, mode := .nested, scope := .classBody id, node := idx
          before := (w.visit (v.remaining - 1)).each (.classBody id) before a }

variable {w} {v u : Visit} {decl : TypeDecl} {id : SymbolId}

/-- A class that is accepted lies in the scope of its declaration, and keeps the name that it has
been given there. -/
theorem Accepts.placed {a : Context} (isOpen : v.scope.IsOpenIn v.before.table)
    (accepts : w.Accepts v decl id a) : (a.table.symbol id).outer = v.scope.ref?
      ∧ ∃ c : Context, c.table = v.before.table ∧ c.files = v.before.files
        ∧ (a.table.symbol id).name = (w.qualifiedName v.scope decl.name c).1 := by
  obtain @⟨node, admission, inspected, b, admits, is, begun⟩ := accepts
  obtain ⟨log, trail, changed⟩ := admits.changes
  have opens := opens_declared (admits.run.precedes.isOpenIn isOpen) begun
  have linked := w.linkParents_run opens.isOpen node.pos
    (w.qualifiedName v.scope decl.name inspected).1 decl
  refine ⟨?_, inspected, by rw [changed], by rw [changed], ?_⟩
  · have lies := (Course.of_run linked).keepsSurroundings.outerOf opens.isOpen
    exact lies.trans (Context.beginClass_outerOf begun)
  · rw [linked.precedes.table.name id opens.isOpen.1]
    exact Context.beginClass_name begun decl.head_isHead

section

variable (noDollar : '$' ∉ decl.name.toList) (noDot : '.' ∉ decl.name.toList)
include noDollar noDot

/-- What is cut out of the qualified name. -/
theorem qualifiedName_constructorName {a : Context} (same : a.table = v.before.table) {s : Symbol}
    (named : s.name = (w.qualifiedName v.scope decl.name a).1) :
    s.constructorName = v.constructorName decl.name := by
  obtain ⟨remaining, mode, scope, idx, cx⟩ := v
  cases scope with
  | file =>
    have simple : s.simpleName = decl.name := by
      rw [Symbol.simpleName, named, qualifiedName]
      split
      · exact FileScope.simpleName_qualify _ noDot
      · exact Text.afterLast_of_absent noDot
    rw [Symbol.constructorName, simple]
    exact Text.afterLast_of_absent noDollar
  | classBody owner => exact Symbol.constructorName_member named noDollar noDot
  | body body =>
    have cut := Symbol.constructorName_member named (not_mem_numberedName rfl noDollar)
      (not_mem_numberedName rfl noDot)
    rw [cut, same]
    rfl

theorem Accepts.constructorName (isOpen : v.scope.IsOpenIn v.before.table) {a : Context}
    (accepts : w.Accepts v decl id a) :
    (a.table.symbol id).constructorName = v.constructorName decl.name := by
  obtain ⟨-, c, same, -, named⟩ := accepts.placed isOpen
  exact qualifiedName_constructorName noDollar noDot same named

end

/-- At the visit of a member its class is open, and has the name that it was declared by. -/
theorem ComesToMember.isOpen (member : w.ComesToMember v decl id u)
    (isOpen : v.scope.IsOpenIn v.before.table) : u.scope = .classBody id
      ∧ u.before.table.IsOpen (.symbol id)
      ∧ ∃ a, w.Accepts v decl id a ∧ (u.before.table.symbol id).name = (a.table.symbol id).name := by
  obtain @⟨before, more, idx, a, accepts, is⟩ := member
  obtain ⟨-, inside⟩ := accepts.course isOpen
  have run := Visitor.each_run (w.visit_runs (v.remaining - 1)) before
    (WalkScope.isOpenIn_classBody inside)
  exact ⟨rfl, run.precedes.table.isOpen inside, a, accepts, run.precedes.table.name id inside.1⟩

/-- Among the members of a class that the walk accepts, a constructor is recorded exactly if it does not
carry the name that constructors of the class have to. As it is entered this is the only record of its
kind that is made; what is left of its visit is that of its body. -/
theorem constructor_recorded (isOpen : v.scope.IsOpenIn v.before.table)
    (noDollar : '$' ∉ decl.name.toList) (noDot : '.' ∉ decl.name.toList)
    (member : w.ComesToMember v decl id u) {node : Node} {admission : Admission} {a : Context}
    (admits : w.Admits u node admission a) {m : MethodDecl} (is : node.data.methodDecl? = some m)
    (isConstructor : m.isConstructor = true) :
    let entered := w.enterMethod id node.pos m a
    w.after u = (w.visit (u.remaining - 1)).through (.body (.method entered.1))
        (m.body.toList.map (BlockMode.inline, ·)) entered.2
      ∧ entered.2.log.coded 1016 = u.before.log.coded 1016
        ++ (if m.name = v.constructorName decl.name then []
          else [.ofProblem (u.before.fileName w.file) node.pos
            (.constructorName m.name (v.constructorName decl.name))]) := by
  obtain ⟨inClass, inside, c, accepts, named⟩ := member.isOpen isOpen
  obtain ⟨log, trail, changed⟩ := admits.changes
  have required : (a.table.symbol id).constructorName = v.constructorName decl.name := by
    rw [← accepts.constructorName noDollar noDot isOpen, changed]
    exact congrArg (fun name => Text.afterLast '$' (Text.afterLast '.' name)) named
  have fileName : a.fileName w.file = u.before.fileName w.file := by rw [changed]; rfl
  have inspected : (w.inspect u.remaining u.scope u.node node u.before).2.log.coded 1016
      = u.before.log.coded 1016 := w.inspect_coded u.remaining u.scope u.node node u.before rfl
  rw [admits.2.2] at inspected
  refine ⟨?_, ?_⟩
  · rw [admits.after, inClass]
    cases data : node.data with
    | methodDef | constructorDef =>
      rw [data] at is
      cases is
      exact visitMethod_eq_through id node.pos _
    | _ => simp [data, NodeData.methodDecl?] at is
  · rw [w.enterMethod_coded ⟨by decide, by decide, by decide⟩ (by decide), inspected, fileName,
      constructorProblem?, required, isConstructor]
    by_cases same : m.name = v.constructorName decl.name
    · simp [same]
    · simp [same, Diagnostic.ofProblem, Diagnostic.error, Problem.code]

/-- A class with a constructor of another name. -/
def misnamed : Walk where
  arena := { nodes := #[
    ⟨⟨1, 1⟩, .classDef [] "A" [] none [] [⟨1⟩]⟩,
    ⟨⟨2, 3⟩, .constructorDef [] "B" [] [] ⟨2⟩⟩,
    ⟨⟨2, 7⟩, .block []⟩] }
  policy := .full
  file := ⟨0⟩

/-- It is recorded as it is entered. -/
theorem constructor_recorded_misnamed : ∃ v decl id u node admission a m,
    v.scope.IsOpenIn v.before.table ∧ decl.name = "A" ∧ misnamed.ComesToMember v decl id u
      ∧ misnamed.Admits u node admission a ∧ node.data.methodDecl? = some m ∧ m.isConstructor = true
      ∧ (misnamed.enterMethod id node.pos m a).2.log.coded 1016 = u.before.log.coded 1016
        ++ [.ofProblem (u.before.fileName misnamed.file) node.pos (.constructorName "B" "A")] := by
  let v : Visit :=
    { remaining := 2, mode := .nested, scope := .file, node := ⟨0⟩, before := .start .usual }
  let decl : TypeDecl :=
    { modifiers := [], name := "A", typeParams := [], isInterface := false, superclass := none
      interfaces := [], members := [⟨1⟩] }
  let m : MethodDecl :=
    { modifiers := [], typeParams := [], returnType := none, name := "B", params := [], throws := []
      body := some ⟨2⟩, isConstructor := true }
  let a := (misnamed.inspect 2 .file ⟨0⟩ ⟨⟨1, 1⟩, .classDef [] "A" [] none [] [⟨1⟩]⟩ v.before).2
  have admits : misnamed.Admits v ⟨⟨1, 1⟩, .classDef [] "A" [] none [] [⟨1⟩]⟩ ⟨false, false⟩ a :=
    ⟨by decide, rfl, Prod.ext (by decide +kernel) rfl⟩
  -- the name is free in a run that has just started, and nothing is wrong with the node
  let inner (r : SymbolId × Context) : Context :=
    misnamed.linkParents r.1 ⟨1, 1⟩ (misnamed.qualifiedName .file "A" a).1 decl r.2
  obtain ⟨⟨id, b⟩, begun, admitted⟩ : ∃ r, (misnamed.qualifiedName .file "A" a).2.beginClass?
      (misnamed.qualifiedName .file "A" a).1 none decl.head = some r
        ∧ (misnamed.inspect 1 (.classBody r.1) ⟨1⟩ ⟨⟨2, 3⟩, .constructorDef [] "B" [] [] ⟨2⟩⟩
            (inner r)).1 == some ⟨false, false⟩ :=
    (Option.any_eq_true _ _).1 (by decide +kernel)
  let u : Visit :=
    { remaining := 1, mode := .nested, scope := .classBody id, node := ⟨1⟩, before := inner (id, b) }
  have accepts : misnamed.Accepts v decl id (inner (id, b)) := .intro admits rfl begun
  have first : decl.members = [] ++ (⟨1⟩ : NodeIndex) :: [] := rfl
  have member : misnamed.ComesToMember v decl id u := .intro accepts first
  have admits' : misnamed.Admits u ⟨⟨2, 3⟩, .constructorDef [] "B" [] [] ⟨2⟩⟩ ⟨false, false⟩ _ :=
    ⟨Nat.one_pos, rfl, Prod.ext (beq_iff_eq.1 admitted) rfl⟩
  have isOpen := WalkScope.isOpenIn_file v.before.table
  obtain ⟨-, recorded⟩ := constructor_recorded (m := m) isOpen (by decide) (by decide) member admits'
    rfl rfl
  exact ⟨v, decl, id, u, _, _, _, m, isOpen, rfl, member, admits', rfl, rfl, recorded⟩

end Walk

/-- A class in the body of a method, with a constructor of its simple name. -/
def localConstructor : SourceUnit where
  level := .full
  tree :=
    { fileName := "A.java", root := ⟨0⟩
      arena := { nodes := #[
        ⟨.nowhere, .sourceFile none [] [⟨1⟩]⟩,
        ⟨⟨1, 1⟩, .classDef [] "A" [] none [] [⟨2⟩]⟩,
        ⟨⟨2, 3⟩, .methodDef [] [] "void" "m" [] [] (some ⟨3⟩)⟩,
        ⟨⟨2, 12⟩, .block [⟨4⟩]⟩,
        ⟨⟨3, 5⟩, .classDef [] "Local" [] none [] [⟨5⟩]⟩,
        ⟨⟨4, 7⟩, .constructorDef [] "Local" [] [] ⟨6⟩⟩,
        ⟨⟨4, 15⟩, .block []⟩] } }

/-- The class is accepted, and its constructor is recorded: it would have to be called `1Local`. -/
theorem Context.ofUnits_localConstructor :
    localConstructor.tree.arena.get? ⟨4⟩
        = some ⟨⟨3, 5⟩, .classDef [] "Local" [] none [] [⟨5⟩]⟩
      ∧ localConstructor.tree.arena.get? ⟨5⟩ = some ⟨⟨4, 7⟩, .constructorDef [] "Local" [] [] ⟨6⟩⟩
      ∧ (ofUnits [localConstructor] .usual).declarations = ["A", "A$1Local"]
      ∧ (ofUnits [localConstructor] .usual).log.coded 1016
        = [.ofProblem "A.java" ⟨4, 7⟩ (.constructorName "Local" "1Local")] :=
  ⟨rfl, rfl, by decide +kernel, by decide +kernel⟩

end LevelCheck
