import LevelCheck.Proofs.ReferenceFates
set_option autoImplicit false

/-! # Which class a reference is linked to

The names that a reference may denote are tried in order, but against what has been declared when the
reference is met: the first declared candidate is taken, even if an earlier one is declared later. A
reference that finds none waits for one of its candidates, which then comes before all others; the
others are tried in order when the run is settled. So where a class is declared matters only to a
reference of which several candidates are declared. -/

namespace LevelCheck

/-! ## Where names come from -/

namespace Resolution

/-- Where a name comes from that a type may denote. -/
inductive Origin where
  /-- The classes around the type, from the innermost outwards: the class itself, if that is its simple
  name, and its member. -/
  | enclosing
  /-- A type at the top level of the file; a dotted name denotes a member of one. -/
  | ownFile
  /-- The types that are imported one by one. -/
  | imported
  /-- The package of the file. -/
  | ownPackage
  /-- The packages that are imported as a whole. -/
  | onDemand
  /-- The name itself, as a qualified one. -/
  | qualified
  deriving DecidableEq, Repr

/-- The names of an origin that a type name may denote, where it is written in a file within a class. -/
def Origin.names (t : SymbolTable) (f : FileScope) (enclosing : Option SymbolId) (name : String) :
    Origin → List String
  | .enclosing => (enclosing.elim [] t.enclosingClasses).flatMap (classCandidates t name)
  | .ownFile =>
    if isDotted name then
      match Text.cutFirst? '.' name with
      | some (head, rest) => ((f.class? head).map (memberName · (Text.replace "." "$" rest))).toList
      | none => []
    else (f.class? name).toList
  | .imported => f.imports.filter fun i => Text.afterLast '.' i == name
  | .ownPackage => [f.qualify name]
  | .onDemand => f.importedPackages.map fun p => p ++ "." ++ name
  | .qualified => [name]

/-- The order in which names are tried: a simple name by all origins in turn, a dotted one as a qualified
name before it is one of a member, and the name of a primitive type as itself only. -/
def Origin.order (t : SymbolTable) (name : String) : List Origin :=
  if Builtin.isPrimitive name && (t.lookup? name).isSome then [.qualified]
  else if isDotted name then [.qualified, .ownFile]
  else [.enclosing, .ownFile, .imported, .ownPackage, .onDemand, .qualified]

end Resolution

/-! ## Which candidate is taken -/

namespace Context

/-- At the end of the run the reference is linked to the class, at once or after it had waited. -/
def Links (cx : Context) (r : Reference) (target : SymbolId) : Prop :=
  (r, target) ∈ cx.linkedRefs ∨ r ∈ cx.deferredRefs ∧ (r.waiting, target) ∈ cx.resumedRefs

/-- The name is the only candidate of the reference whose class has been visited. -/
structure Determines (cx : Context) (r : Reference) (name : String) : Prop where
  candidate : name ∈ r.candidates
  visited : cx.visits name
  only : ∀ other ∈ r.candidates, cx.visits other → other = name

/-- References are linked in the order of their candidates, as far as these have been declared. -/
structure LinksInOrder (cx : Context) : Prop where
  /-- A reference that is linked at once is linked to the first candidate that is builtin or declared
  by then. -/
  now : ∀ before r target after, cx.history.toList = before ++ .linked r target :: after →
    r.candidates.find? (declaredBy before) = some (cx.table.symbol target).name
  /-- A reference waits only if no candidate is builtin or declared by then. -/
  waits : ∀ before r after, cx.history.toList = before ++ .deferred r :: after →
    ∀ name ∈ r.candidates, declaredBy before name = false
  /-- A reference that has waited is linked to the class that it waited for, or else to the first
  candidate that has been visited. -/
  later : ∀ r ∈ cx.deferredRefs, ∀ target, (r.waiting, target) ∈ cx.resumedRefs →
    (r.key :: r.candidates).find? cx.visits = some (cx.table.symbol target).name
  /-- A reference that has waited is linked if any of its candidates has been visited. -/
  found : ∀ r ∈ cx.deferredRefs, cx.resolves r → ∃ target, cx.Links r target
  /-- A single visited candidate is what the reference is linked to, wherever it is declared. -/
  determined : ∀ r target, cx.Links r target → ∀ name, cx.Determines r name →
    (cx.table.symbol target).name = name

/-- What is met before a run is settled has its place in the history before that. -/
theorem Settles.met_before {a b : Context} (settles : a.Settles b) {before after : List Event}
    {e : Event} (is : b.history.toList = before ++ e :: after)
    (met : ∀ r target, e ≠ .resumed r target ∧ e ≠ .abandoned r) :
    ∃ rest, a.history.toList = before ++ e :: rest := by
  -- settling adds nothing but resumed and abandoned references
  have tail (isIn : e ∈ (a.pending.ready a.table).map (fun e => Event.resumed e.1 e.2)
      ++ (a.pending.stuck a.table).map .abandoned) : False := by
    rcases List.mem_append.1 isIn with resumed | abandoned
    · obtain ⟨entry, _, rfl⟩ := List.mem_map.1 resumed
      exact (met entry.1 entry.2).1 rfl
    · obtain ⟨r, _, rfl⟩ := List.mem_map.1 abandoned
      exact (met r default).2 rfl
  rw [settles.history] at is
  rcases List.append_eq_append_iff.1 is with ⟨more, _, last⟩ | ⟨more, isBefore, last⟩
  · exact (tail (by rw [last]; simp)).elim
  · cases more with
    | nil =>
      rw [List.nil_append] at last
      exact (tail (by rw [← last]; exact List.mem_cons_self)).elim
    | cons first rest =>
      rw [List.cons_append] at last
      rw [(List.cons.inj last).1]
      exact ⟨rest, isBefore⟩

/-- The first visited name that a waiting reference may denote. -/
theorem find_waiting {cx : Context} {r : Reference} :
    (r.waiting.name :: r.waiting.alternatives).find? cx.visits
      = (r.key :: r.candidates).find? cx.visits := by
  simp only [Reference.waiting, List.find?_cons, List.find?_filter, Bool.decide_and,
    Bool.decide_eq_true]
  cases visited : cx.visits r.key with
  | true => rfl
  | false =>
    -- the name waited for is left out of the alternatives, but has not been visited
    refine congrArg (List.find? · r.candidates) (funext fun name => ?_)
    by_cases is : name = r.key
    · rw [is, visited, Bool.and_false]
    · rw [bne_iff_ne.2 is, Bool.true_and]

theorem Ledger.linksInOrder {cx : Context} (ledger : cx.Ledger []) (finished : cx.Finished) :
    cx.settle.LinksInOrder := by
  have settles := cx.settle_settles
  have settled := ledger.settled finished
  have unique := (ledger.owned.forest.classes.names).of_roll settles.roll
  generalize cx.settle = last at *
  have name (id : SymbolId) : (last.table.symbol id).name = (cx.table.symbol id).name :=
    SymbolTable.name_of_roll settles.roll id
  refine ⟨?_, ?_, ?_, ?_, ?_⟩
  · intro before r target after is
    obtain ⟨rest, is⟩ := settles.met_before is fun _ _ => ⟨nofun, nofun⟩
    rw [name]
    exact (ledger.chronicle.fits before _ rest is).2
  · intro before r after is
    obtain ⟨rest, is⟩ := settles.met_before is fun _ _ => ⟨nofun, nofun⟩
    exact (ledger.chronicle.fits before _ rest is).2
  · intro r deferred target resumed
    rw [← find_waiting]
    rw [settles.resumedRefs_eq] at resumed
    rcases List.mem_append.1 resumed with before | ready
    · -- the class that the reference waited for has been visited
      obtain ⟨isOpen, named⟩ := ledger.resumed_fits before
      have visited := (settles.isClassOf finished isOpen (List.mem_singleton.2 rfl)).visits unique
      rw [name, named] at visited ⊢
      exact List.find?_cons_of_pos visited
    · -- the reference is resumed in the end, with what its names denote then
      obtain ⟨p, _, is⟩ := List.mem_filterMap.1 ready
      obtain ⟨id, found, same⟩ := Option.map_eq_some_iff.1 is
      obtain ⟨rfl, rfl⟩ := Prod.mk.inj same
      rw [← settles.target_eq, PendingReference.target?] at found
      refine SymbolTable.find_of_findSome (fun n id here => ?_) found
      exact ((unique.lookupComplete_iff n id).1 here).2.1
  · intro r deferred resolves
    obtain ⟨target, resumed⟩ := settled.exists_resumed deferred resolves
    exact ⟨target, .inr ⟨deferred, resumed⟩⟩
  · -- whichever way the reference is linked, the class is a visited candidate
    intro r target links n determines
    have isClass : last.IsClassOf target r.candidates := by
      rcases links with now | ⟨deferred, resumed⟩
      · exact settled.linked _ now
      · obtain ⟨known, complete, named⟩ := settled.target _ resumed
        exact ⟨known, complete, (settled.candidates r deferred _).1 named⟩
    exact determines.only _ isClass.2.2 (isClass.visits unique)

/-- References of a batch are linked in the order of their candidates. -/
theorem ofUnits_inOrder (units : List SourceUnit) (options : Options) :
    (ofUnits units options).LinksInOrder :=
  ((ledger_start options).analyzeFiles units).linksInOrder
    ((finished_start options).analyzeFiles units)

section

variable {units : List SourceUnit} {options : Options} {w : Walk} {u : TypeUse} {a : Context}
  {r : Reference} {e : Event}

theorem MeetsOnce.happened (meets : (ofUnits units options).MeetsOnce w u a r e) :
    e ∈ (ofUnits units options).history.toList :=
  meets.kept.subset (List.mem_append_right _ List.mem_cons_self)

/-- A type that is used, and may denote a single class that is visited, is linked to that class. -/
theorem Uses.determined (uses : (start options).Uses (units.map .analyze) w u a)
    (refers : w.Refers u a r) {name : String} (determines : (ofUnits units options).Determines r name) :
    ∃ target, (ofUnits units options).Links r target
      ∧ ((ofUnits units options).table.symbol target).name = name := by
  have inOrder := ofUnits_inOrder units options
  obtain ⟨r', e, once⟩ := uses.meetsOnce refers.names
  obtain rfl := refers.unique once.refers
  have links : ∃ target, (ofUnits units options).Links r target := by
    have happened := once.happened
    cases once.meets with
    | @atOnce target => exact ⟨target, .inl (List.mem_filterMap.2 ⟨_, happened, rfl⟩)⟩
    | waits =>
      exact inOrder.found r (List.mem_filterMap.2 ⟨_, happened, rfl⟩)
        (List.any_eq_true.2 ⟨name, determines.candidate, determines.visited⟩)
  obtain ⟨target, links⟩ := links
  exact ⟨target, links, inOrder.determined r target links name determines⟩

end

/-- A file with a class `B`. -/
def isUsed : SourceUnit where
  level := .full
  tree :=
    { fileName := "B.java", root := ⟨0⟩
      arena :=
        { nodes := #[
            ⟨.nowhere, .sourceFile none [] [⟨1⟩]⟩,
            ⟨⟨1, 1⟩, .classDef [] "B" [] none [] []⟩] } }

end Context

end LevelCheck
