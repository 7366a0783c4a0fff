import LevelCheck.Proofs.ClassNames
import LevelCheck.Proofs.WrittenTypes
import LevelCheck.Proofs.Supertypes
import LevelCheck.Proofs.Visits
set_option autoImplicit false

/-! # No two classes want one name by accident

A class counts the classes that are declared in its bodies and the anonymous ones together, and never
down, so none of them comes to a number that was given before. As long as simple names are plain and
packages hold no `$`, the name of a declared class tells where the class lies and what its own name is.
So a class is refused only if one of its simple name has been declared in its place: in its package, or
among the members of its class. -/

namespace LevelCheck

/-! ## Numbers -/

namespace SymbolTable

/-- No class has counted down. -/
def CountsUp (t u : SymbolTable) : Prop :=
  ∀ id, (t.symbol id).localClasses ≤ (u.symbol id).localClasses

namespace CountsUp

variable {t u v : SymbolTable}

theorem refl (t : SymbolTable) : t.CountsUp t := fun _ => Nat.le_refl _

theorem trans (first : t.CountsUp u) (second : u.CountsUp v) : t.CountsUp v :=
  fun id => (first id).trans (second id)

theorem of_symbols (same : u.symbols = t.symbols) : t.CountsUp u := by
  intro id
  rw [symbol, symbol, same]

theorem modifySymbol (t : SymbolTable) (id : SymbolId) {f : Symbol → Symbol}
    (up : ∀ s, s.localClasses ≤ (f s).localClasses) : t.CountsUp (t.modifySymbol id f) := by
  intro other
  rw [symbol_modifySymbol]
  split
  · exact up _
  · exact Nat.le_refl _

theorem numberLocalClass (t : SymbolTable) (id : SymbolId) :
    t.CountsUp (t.numberLocalClass id).2 := modifySymbol t id fun _ => Nat.le_succ _

theorem getOrAddPlaceholder (t : SymbolTable) (name : String) :
    t.CountsUp (t.getOrAddPlaceholder name).2 := by
  cases found : t.lookup? name with
  | some id =>
    rw [getOrAddPlaceholder_of_some found]
    exact refl t
  | none =>
    rw [getOrAddPlaceholder_of_none found]
    have same (id : SymbolId) : _ = (t.symbol id).localClasses :=
      view_addSymbol t (s := .placeholder name) id Symbol.localClasses rfl
    exact fun id => Nat.le_of_eq (same id).symm

theorem step (step : TableStep t u) : t.CountsUp u := by
  cases step with
  | number => exact numberLocalClass t _
  | superclass | interface => exact modifySymbol t _ fun _ => Nat.le_refl _
  | method => exact modifySymbol { t with methods := _ } _ fun _ => Nat.le_refl _
  | params =>
    rw [addParams_table]
    exact of_symbols rfl
  | fields =>
    rw [addFields_table]
    exact modifySymbol (t.appendVars _) _ fun _ => Nat.le_refl _
  | @locals body =>
    rw [addVars_table]
    cases body <;> exact of_symbols rfl
  | @block scope =>
    cases scope with
    | symbol id => exact modifySymbol { t with blocks := _ } id fun _ => Nat.le_refl _
    | method | block => exact of_symbols rfl

theorem fill (t : SymbolTable) (link : Link) (target : SymbolId) : t.CountsUp (t.fill link target) := by
  cases link with
  | superclass | interface => exact modifySymbol t _ fun _ => Nat.le_refl _
  | returnType | thrownType | variableType | existence => exact of_symbols rfl
  | anonymousBase =>
    rw [SymbolTable.fill]
    split <;> exact modifySymbol t _ fun _ => Nat.le_refl _

theorem beginClass {a b : Context} {id : SymbolId} {qualified : String} {outer : Option ScopeRef}
    {head : Symbol → Symbol} (begun : a.beginClass? qualified outer head = some (id, b))
    (isHead : Symbol.IsHead head) : a.table.CountsUp b.table := by
  obtain ⟨t, started, rfl⟩ := Context.beginClass_some begun
  obtain ⟨t', placed, -, rfl⟩ := beginDefinition_ok started
  have referred := getOrAddPlaceholder a.table qualified
  rw [placed] at referred
  have visiting := referred.trans (modifySymbol t' id
    (f := fun s => { s with state := .visiting }) fun _ => Nat.le_refl _)
  have headed := visiting.trans (modifySymbol _ id (f := fun s => { head s with outer }) fun s => by
    rw [isHead s])
  cases outer with
  | none => exact headed
  | some scope => exact headed.trans (modifySymbol _ _ fun _ => Nat.le_refl _)

/-- No class counts down, whatever a run does. -/
theorem holdsAcross : HoldsAcross CountsUp where
  refl := refl
  trans := trans
  step := step
  refers := getOrAddPlaceholder
  opens opens := by
    obtain ⟨begun, isHead, -, -⟩ := opens
    exact beginClass begun isHead
  finishes t id := modifySymbol t id fun _ => Nat.le_refl _
  fills := fill

end CountsUp

end SymbolTable

/-! ## Names of declared classes -/

namespace SymbolTable

theorem symbol_numberLocalClass {t : SymbolTable} {id : SymbolId} (known : id.val < t.size) :
    ((t.numberLocalClass id).2.symbol id).localClasses = (t.numberLocalClass id).1 := by
  rw [SymbolTable.numberLocalClass, symbol_modifySymbol, if_pos ⟨rfl, known⟩]

/-- The name of a class is made up of where it lies and of its own name. -/
inductive IsNamed (t : SymbolTable) (id : SymbolId) : Prop where
  | atFile (outside : (t.symbol id).outer = none) (noDollar : '$' ∉ (t.symbol id).name.toList)
  | member {owner : SymbolId} {simple : String} (inside : (t.symbol id).outer = some (.symbol owner))
      (plain : IsPlainName simple)
      (named : (t.symbol id).name = Resolution.memberName (t.symbol owner).name simple)
  /-- The class around it has given it a number. -/
  | numbered {scope : ScopeRef} {n : Nat} {simple : String} (inside : (t.symbol id).outer = some scope)
      (plain : IsPlainName simple) (given : n ≤ (t.symbol (t.enclosingSymbol scope)).localClasses)
      (named : (t.symbol id).name
        = Resolution.memberName (t.symbol (t.enclosingSymbol scope)).name (numberedName n simple))

/-- Every class that is declared has such a name. -/
def WellNamed (t : SymbolTable) : Prop := ∀ id, t.IsOpen (.symbol id) → t.IsNamed id

section

variable {t u : SymbolTable} (forest : t.Forest) (keeps : t.KeepsSurroundings u) (counts : t.CountsUp u)
include forest keeps counts

theorem IsNamed.keep {id : SymbolId} (isOpen : t.IsOpen (.symbol id)) (isNamed : t.IsNamed id) :
    u.IsNamed id := by
  have name := keeps.grows.name id isOpen.1
  have outer : (u.symbol id).outer = (t.symbol id).outer := keeps.outerOf isOpen
  cases isNamed with
  | atFile outside noDollar => exact .atFile (outer.trans outside) (name ▸ noDollar)
  | @member owner simple inside plain named =>
    have around := forest.classes.outerOpen id _ inside
    refine .member (outer.trans inside) plain ?_
    rw [name, named, keeps.grows.name owner around.1]
  | @numbered scope n simple inside plain given named =>
    have around := forest.classes.outerOpen id scope inside
    have enclosing := forest.scopes.enclosingSymbol_of_grows keeps.grows around
    have known := (forest.scopes.enclosingSymbol_isOpen around).1
    refine .numbered (outer.trans inside) plain (n := n) ?_ ?_
    · rw [enclosing]
      exact given.trans (counts _)
    · rw [enclosing, name, named, keeps.grows.name _ known]

/-- As long as no class is declared, the classes are named as they were. -/
theorem WellNamed.keep (named : t.WellNamed)
    (older : ∀ id, u.IsOpen (.symbol id) → t.IsOpen (.symbol id)) : u.WellNamed :=
  fun id isOpen => (named id (older id isOpen)).keep forest keeps counts (older id isOpen)

end

/-! ### Which class has a name -/

section

variable {t : SymbolTable} (forest : t.Forest) {id : SymbolId} (isNamed : t.IsNamed id)
include isNamed

/-- A class whose name holds no `$` lies at the top level of a file. -/
theorem IsNamed.outside (noDollar : '$' ∉ (t.symbol id).name.toList) : (t.symbol id).outer = none := by
  cases isNamed with
  | atFile outside => exact outside
  | member _ _ named | numbered _ _ _ named =>
    rw [named] at noDollar
    exact absurd (Resolution.dollar_mem_memberName _ _) noDollar

include forest

/-- A class that is named like a member of another is a member of it. -/
theorem IsNamed.isMember {owner : SymbolId} (isOpen : t.IsOpen (.symbol owner)) {simple : String}
    (plain : IsPlainName simple)
    (is : (t.symbol id).name = Resolution.memberName (t.symbol owner).name simple) :
    (t.symbol id).outer = some (.symbol owner) := by
  cases isNamed with
  | atFile _ noDollar =>
    rw [is] at noDollar
    exact absurd (Resolution.dollar_mem_memberName _ _) noDollar
  | @member other own inside plain' named =>
    have around := forest.classes.outerOpen id _ inside
    have same := Resolution.memberName_inj plain'.noDollar plain.noDollar (named.symm.trans is)
    rw [inside, forest.classes.names other owner around.1 isOpen.1 same.1]
  | numbered _ plain' _ named =>
    have same := Resolution.memberName_inj (not_mem_numberedName rfl plain'.noDollar) plain.noDollar
      (named.symm.trans is)
    exact absurd same.2.symm (plain.ne_numberedName _)

/-- A class that is named by a number of another has been given one that the other has come to. -/
theorem IsNamed.number_le {owner : SymbolId} (isOpen : t.IsOpen (.symbol owner)) {n : Nat}
    {simple : String} (plain : IsPlainName simple) (is : (t.symbol id).name
      = Resolution.memberName (t.symbol owner).name (numberedName n simple)) :
    n ≤ (t.symbol owner).localClasses := by
  have noDollar : '$' ∉ (numberedName n simple).toList := not_mem_numberedName rfl plain.noDollar
  cases isNamed with
  | atFile _ noDollar =>
    rw [is] at noDollar
    exact absurd (Resolution.dollar_mem_memberName _ _) noDollar
  | member _ plain' named =>
    have same := Resolution.memberName_inj plain'.noDollar noDollar (named.symm.trans is)
    exact absurd same.2 (plain'.ne_numberedName n)
  | @numbered scope m own inside plain' given named =>
    have around := forest.scopes.enclosingSymbol_isOpen (forest.classes.outerOpen id scope inside)
    have same := Resolution.memberName_inj (not_mem_numberedName rfl plain'.noDollar) noDollar
      (named.symm.trans is)
    rw [forest.classes.names _ owner around.1 isOpen.1 same.1] at given
    rwa [← plain'.number_inj plain same.2]

end

end SymbolTable

/-! ## What keeps classes well named -/

/-- The package that the header of a file names. -/
def NodeData.package? : NodeData → Option String
  | .sourceFile package .. => package
  | _ => none

/-- The names that an arena declares are plain, and the packages that it names hold no `$`. -/
structure Arena.NamesPlainly (arena : Arena) : Prop where
  types : ∀ node ∈ arena.nodes, ∀ decl ∈ node.data.typeDecl?, IsPlainName decl.name
  packages : ∀ node ∈ arena.nodes, ∀ package ∈ node.data.package?, '$' ∉ package.toList

instance (arena : Arena) : Decidable arena.NamesPlainly :=
  decidable_of_iff
    ((∀ node ∈ arena.nodes, ∀ decl ∈ node.data.typeDecl?, IsPlainName decl.name)
      ∧ ∀ node ∈ arena.nodes, ∀ package ∈ node.data.package?, '$' ∉ package.toList)
    ⟨fun ⟨types, packages⟩ => ⟨types, packages⟩, fun plain => ⟨plain.types, plain.packages⟩⟩

theorem Arena.mem_of_get {arena : Arena} {idx : NodeIndex} {node : Node}
    (found : arena.get? idx = some node) : node ∈ arena.nodes := by
  rw [Arena.get?] at found
  split at found
  · cases found
  · exact Array.mem_of_getElem? found

/-- No file is in a package that holds a `$`, and every class that is declared is named by where it
lies. -/
structure Context.NamesWell (cx : Context) : Prop where
  classes : cx.table.WellNamed
  packages : ∀ f ∈ cx.files, '$' ∉ f.package.toList

namespace Context

open SymbolTable

variable {a b : Context}

namespace NamesWell

variable (well : a.NamesWell) (lifecycle : a.Lifecycle)
include well lifecycle

/-- What declares no class and reads no header leaves all names as they are. -/
theorem course (course : Course a b) (older : ∀ id, b.table.IsOpen (.symbol id) →
    a.table.IsOpen (.symbol id)) (files : b.files = a.files) : b.NamesWell where
  classes := well.classes.keep lifecycle.owned.forest course.keepsSurroundings
    (CountsUp.holdsAcross.course course) older
  packages := files ▸ well.packages

theorem deed (deed : Deed a b) (files : b.files = a.files) : b.NamesWell := by
  refine well.course lifecycle (.deed (.rest a) deed) (fun id isOpen => ?_) files
  rwa [isOpen_symbol, Symbol.isDeclared, deed.state id, ← Symbol.isDeclared, ← isOpen_symbol] at isOpen

theorem opens {id : SymbolId} (opens : Opens a id b) (isNamed : b.table.IsNamed id) :
    b.NamesWell := by
  have course := (Course.rest a).opens opens
  obtain ⟨-, -, others⟩ := opens.state
  refine ⟨fun other isOpen => ?_, ?_⟩
  · by_cases is : other = id
    · exact is ▸ isNamed
    · rw [isOpen_symbol, Symbol.isDeclared, others other is, ← Symbol.isDeclared,
        ← isOpen_symbol] at isOpen
      exact (well.classes other isOpen).keep lifecycle.owned.forest course.keepsSurroundings
        (CountsUp.holdsAcross.course course) isOpen
  · obtain ⟨begun, -, -, -⟩ := opens
    obtain ⟨t, -, rfl⟩ := beginClass_some begun
    exact well.packages

theorem defineComplete {id : SymbolId} (isOpen : a.table.IsOpen (.symbol id)) :
    (a.defineComplete id).NamesWell := by
  have silent := Silent.defineComplete isOpen
  exact well.course lifecycle (.completes (.rest a) isOpen) (fun _ => silent.table.isOpen _ nofun)
    silent.files

theorem settle : a.settle.NamesWell := by
  have silent := Silent.settle a
  exact ⟨well.classes.keep lifecycle.owned.forest (KeepsSurroundings.holdsAcross.settle a)
    (CountsUp.holdsAcross.settle a) fun _ => silent.table.isOpen _ nofun,
    silent.files ▸ well.packages⟩

/-- A class around a scope counts one more. -/
theorem numbered {ref : ScopeRef} (isOpen : a.table.IsOpen ref) : (Walk.numbered ref a).NamesWell :=
  well.deed lifecycle (.enter (.number isOpen)) rfl

omit lifecycle in
theorem addFile (name : String) (level : Level) : (a.addFile name level).2.NamesWell := by
  refine ⟨well.classes, fun f isIn => ?_⟩
  rcases Array.mem_push.1 isIn with before | rfl
  · exact well.packages f before
  · simp [FileScope.start]

end NamesWell

/-- A class that is begun under the next number of the class around it is well named. -/
theorem isNamed_numbered (forest : a.table.Forest) {ref : ScopeRef} (isOpen : a.table.IsOpen ref)
    {simple : String} (plain : IsPlainName simple) {head : Symbol → Symbol} (isHead : Symbol.IsHead head)
    {id : SymbolId} (begun : (Walk.numbered ref a).beginClass?
      (Resolution.memberName ((Walk.numbered ref a).table.symbol (a.table.enclosingSymbol ref)).name
        (numberedName (a.table.numberLocalClass (a.table.enclosingSymbol ref)).1 simple))
      (some ref) head = some (id, b)) : b.table.IsNamed id := by
  have counted : Course a (Walk.numbered ref a) := .deed (.rest a) (.enter (.number isOpen))
  have begins := Precedes.beginClass begun isHead
  have owner := forest.scopes.enclosingSymbol_isOpen isOpen
  have enclosing := forest.scopes.enclosingSymbol_of_grows (counted.precedes.trans begins).table isOpen
  refine .numbered (beginClass_outerOf begun) plain
    (n := (a.table.numberLocalClass (a.table.enclosingSymbol ref)).1) ?_ ?_
  · have given : ((Walk.numbered ref a).table.symbol (a.table.enclosingSymbol ref)).localClasses
        = (a.table.numberLocalClass (a.table.enclosingSymbol ref)).1 := by
      rw [symbol_numberLocalClass owner.1]
    rw [enclosing, ← given]
    exact CountsUp.beginClass begun isHead _
  · rw [enclosing, begins.table.name _ (counted.precedes.table.isOpen owner).1]
    exact beginClass_name begun isHead

end Context

/-! ## What a walk keeps -/

namespace Walk

variable {w : Walk} {scope : WalkScope} {a b c : Context} {id : SymbolId}

theorem qualifiedName_namesWell (well : a.NamesWell) (lifecycle : a.Lifecycle)
    (isOpen : scope.IsOpenIn a.table) (simple : String) :
    (w.qualifiedName scope simple a).2.NamesWell := by
  cases scope with
  | file =>
    rw [qualifiedName]
    split <;> exact well
  | classBody => exact well
  | body id => exact well.numbered lifecycle (isOpen _ rfl)

/-- A class that a node declares is well named, if its simple name is plain. -/
theorem declared_isNamed (well : a.NamesWell) (lifecycle : a.Lifecycle) (isOpen : scope.IsOpenIn a.table)
    {decl : TypeDecl} (plain : IsPlainName decl.name)
    (begun : (w.qualifiedName scope decl.name a).2.beginClass? (w.qualifiedName scope decl.name a).1
      scope.ref? decl.head = some (id, b)) : b.table.IsNamed id := by
  have named := Context.beginClass_name begun decl.head_isHead
  have outer := Context.beginClass_outerOf begun
  cases scope with
  | file =>
    refine .atFile outer ?_
    rw [named, qualifiedName]
    split
    · next f inRun =>
      have noDollar := well.packages f (Array.mem_of_getElem? inRun)
      show '$' ∉ (f.qualify decl.name).toList
      rw [FileScope.qualify]
      split <;> simp [noDollar, plain.noDollar]
    · exact plain.noDollar
  | classBody owner =>
    have precedes := Context.Precedes.beginClass begun decl.head_isHead
    refine .member outer plain ?_
    rw [named, precedes.table.name owner (isOpen _ rfl).1]
    rfl
  | body id =>
    exact Context.isNamed_numbered lifecycle.owned.forest (isOpen _ rfl) plain decl.head_isHead begun

theorem Errand.namesWell (plain : w.arena.NamesPlainly) {places : Link → Prop}
    {todo todo' : List Mention} (lifecycle : a.Lifecycle) (errand : w.Errand places todo a todo' b)
    (well : a.NamesWell) : b.NamesWell := by
  have deed := errand.deed
  cases errand with
  | write | root | report => exact well.deed lifecycle deed rfl
  | link | mention => exact well.deed lifecycle deed (Context.Silent.linkType ..).files
  | @header _ idx node package imports types _ found is =>
    refine ⟨well.classes, fun f isIn => ?_⟩
    obtain ⟨i, bound, rfl⟩ := Array.mem_iff_getElem.1 isIn
    simp only [enterFile, Context.modifyFile, Array.getElem_modify]
    split
    · rw [FileScope.header_package]
      cases named : package with
      | none => simp
      | some name =>
        refine plain.packages node (Arena.mem_of_get found) name ?_
        rw [is, NodeData.package?, named]
        rfl
    · exact well.packages _ (Array.getElem_mem _)

/-- Whatever a walk does, classes are well named, if the arena names plainly. -/
theorem namesWell_keeps (plain : w.arena.NamesPlainly) :
    w.Keeps Context.Lifecycle Context.NamesWell where
  steady course lifecycle := lifecycle.course course
  refuses {idx node a} lifecycle _ well := by
    refine well.deed lifecycle (.refuse a w idx node) ?_
    rw [w.refuseDepth_eq]
  inspects {remaining scope idx node a} lifecycle _ _ well := by
    refine well.deed lifecycle (.inspect a w remaining scope idx node) ?_
    obtain ⟨log, is⟩ := w.inspect_changes a remaining scope idx node
    rw [is]
  calls lifecycle isOpen found calls well :=
    (calls.errands isOpen found).keeps Context.Lifecycle (P := fun _ cx => cx.NamesWell)
      (fun course lifecycle => lifecycle.course course)
      (fun lifecycle errand well => errand.namesWell plain lifecycle well) lifecycle well
  refusesName {scope simple idx node a} lifecycle isOpen _ well := by
    have named := w.qualifiedName_run isOpen simple
    exact (qualifiedName_namesWell well lifecycle isOpen simple).deed (lifecycle.run named)
      (.prune _ w.file idx node.pos trivial) rfl
  declares {remaining scope idx node admission decl id a b c} lifecycle isOpen found admits is begun
      well := by
    have isOpen' := Journeys.isOpen_inspected isOpen admits
    have inspected := Deed.inspect a w remaining scope idx node
    rw [admits] at inspected
    have well := well.deed lifecycle inspected ?_
    · have lifecycle := lifecycle.deed inspected
      have opens := opens_declared isOpen' begun
      have named := w.qualifiedName_run isOpen' decl.name
      have plainName := plain.types node (Arena.mem_of_get found) decl is
      have isNamed := declared_isNamed well lifecycle isOpen' plainName begun
      have well := (qualifiedName_namesWell well lifecycle isOpen' decl.name).opens
        (lifecycle.run named) opens isNamed
      have linked := w.linkParents_run opens.isOpen node.pos (w.qualifiedName scope decl.name b).1 decl
      have silent := w.linkParents_silent id node.pos (w.qualifiedName scope decl.name b).1 decl c
      exact well.course ((lifecycle.run named).opens opens) (.of_run linked)
        (fun _ => silent.table.isOpen _ nofun) silent.files
    · obtain ⟨log, is⟩ := w.inspect_changes a remaining scope idx node
      rw [admits] at is
      rw [is]
  refusesNumber {ref idx node a} lifecycle isOpen _ well := by
    have counted : Run a (numbered ref a) := .deed (.enter (.number isOpen))
    exact (well.numbered lifecycle isOpen).deed (lifecycle.run counted)
      (.prune _ w.file idx node.pos trivial) rfl
  declaresAnonymous {idx node outer type arguments members ref id a b} lifecycle isOpen _ _ _ begun
      well := by
    have counted : Run a (numbered ref a) := .deed (.enter (.number isOpen))
    have opens := anonymous_opens isOpen begun
    have isNamed : b.table.IsNamed id := by
      have plain : IsPlainName "" := by decide
      have isHead : Symbol.IsHead fun s => s := fun _ => rfl
      refine Context.isNamed_numbered lifecycle.owned.forest isOpen plain isHead ?_
      rwa [numberedName, String.append_empty]
    have counts := well.numbered lifecycle isOpen
    have lifecycle := lifecycle.run counted
    have well := counts.opens lifecycle opens isNamed
    have around := (counted.precedes.trans opens.precedes).table.isOpen isOpen
    have linked := w.linkType_run around type node.pos (.anonymousBase id) opens.isOpen
    have silent := Context.Silent.linkType b w.file (some ref) type node.pos (.anonymousBase id)
    exact well.course (lifecycle.opens opens) (.of_run linked) (fun _ => silent.table.isOpen _ nofun)
      silent.files
  completes lifecycle isOpen well := well.defineComplete lifecycle isOpen

end Walk

end LevelCheck
