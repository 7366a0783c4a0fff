import LevelCheck.Proofs.ScopeChains
set_option autoImplicit false

/-! # Classes that are only referred to

A class that has been referred to and not declared has a name and nothing else. A walk writes to the
records of declared classes only: it enters things in scopes that are open, and fills places that
belong to them, the ones of references that wait among them. So the record stays blank until the
declaration of the class begins. -/

namespace LevelCheck

namespace SymbolTable

/-- Every class that is only referred to is blank but for its name. -/
def Blank (t : SymbolTable) : Prop :=
  ∀ id, (t.symbol id).state = .placeholder → t.symbol id = .placeholder (t.symbol id).name

variable {t t' : SymbolTable}

theorem seeded_symbol (id : SymbolId) :
    seeded.symbol id ∈ seeded.symbols.toList ∨ seeded.symbol id = default := by
  rw [symbol, Array.getD_eq_getD_getElem?]
  cases found : seeded.symbols[id.val]? with
  | none => exact .inr rfl
  | some s => exact .inl (Array.mem_toList_iff.2 (Array.mem_of_getElem? found))

theorem seeded_blank : seeded.Blank := by
  intro id
  have complete : ∀ s ∈ seeded.symbols.toList, s.state ≠ .placeholder := by decide +kernel
  rcases seeded_symbol id with isIn | blank
  · exact fun referred => absurd referred (complete _ isIn)
  · rw [blank]
    exact fun _ => rfl

namespace Blank

variable (blank : t.Blank)
include blank

theorem of_symbols (same : t'.symbols = t.symbols) : t'.Blank := by
  intro id
  rw [symbol, same]
  exact blank id

/-- A class is changed that is declared by then. -/
theorem modifySymbol {id : SymbolId} {f : Symbol → Symbol}
    (declared : (f (t.symbol id)).isDeclared) : (t.modifySymbol id f).Blank := by
  intro other
  rw [symbol_modifySymbol]
  split
  · next is =>
    intro referred
    rw [is.1] at referred
    rw [Symbol.isDeclared, referred] at declared
    exact absurd declared Bool.false_ne_true
  · exact blank other

theorem getOrAddPlaceholder (name : String) : (t.getOrAddPlaceholder name).2.Blank := by
  cases found : t.lookup? name with
  | some id =>
    rw [getOrAddPlaceholder_of_some found]
    exact blank
  | none =>
    rw [getOrAddPlaceholder_of_none found]
    intro id
    rw [symbol_addSymbol]
    split
    · exact fun _ => rfl
    · exact blank id

/-- Filling a place that belongs to a class leaves the classes that are only referred to. -/
theorem fill {link : Link} (openPlace : t.OpenPlace link) (target : SymbolId) :
    (t.fill link target).Blank := by
  cases link with
  | superclass child | interface child index =>
    have isOpen : t.IsOpen (.symbol child) := openPlace
    exact blank.modifySymbol isOpen.2
  | variableType declared | returnType method | thrownType method index =>
    exact blank.of_symbols rfl
  | existence => exact blank
  | anonymousBase child =>
    have isOpen : t.IsOpen (.symbol child) := openPlace
    rw [SymbolTable.fill]
    split <;> exact blank.modifySymbol isOpen.2

theorem addMethod {m : Method} (isOpen : t.IsOpen (.symbol m.owner)) :
    (t.addMethod m).2.Blank := by
  have added : ({ t with methods := t.methods.push m } : SymbolTable).Blank := blank.of_symbols rfl
  exact added.modifySymbol isOpen.2

theorem addBlock {outer : ScopeRef} (isOpen : t.IsOpen outer) : (t.addBlock outer).2.Blank := by
  cases outer with
  | symbol id =>
    have added : ({ t with blocks := t.blocks.push { outer := .symbol id, vars := [], blocks := [] } }
        : SymbolTable).Blank := blank.of_symbols rfl
    exact added.modifySymbol isOpen.2
  | method id | block id => exact blank.of_symbols rfl

theorem step (forest : t.Forest) (step : TableStep t t') : t'.Blank := by
  cases step with
  | number isOpen =>
    have classOpen := forest.scopes.enclosingSymbol_isOpen isOpen
    exact blank.modifySymbol classOpen.2
  | superclass isOpen known => exact blank.modifySymbol isOpen.2
  | interface isOpen written => exact blank.modifySymbol isOpen.2
  | method isOpen => exact blank.addMethod isOpen
  | params isOpen only areNew =>
    rw [addParams_table]
    exact blank.of_symbols rfl
  | @fields id isOpen vars areNew =>
    have added : (t.appendVars vars).Blank := blank.of_symbols rfl
    rw [addFields_table]
    exact added.modifySymbol isOpen.2
  | @locals body isOpen vars areNew policy =>
    rw [addVars_table]
    cases body <;> exact blank.of_symbols rfl
  | block isOpen => exact blank.addBlock isOpen

theorem finishDefinition (id : SymbolId) : (t.finishDefinition id).Blank :=
  blank.modifySymbol rfl

/-- A class is entered that is declared by then, in a scope of the table. -/
theorem enterClass (forest : t.Forest) {id : SymbolId} (isOpen : t.IsOpen (.symbol id))
    {outer : Option ScopeRef} (around : ∀ s ∈ outer, t.IsOpen s) {head : Symbol → Symbol}
    (isHead : Symbol.IsHead head) : (t.enterClass id outer head).Blank := by
  have headed : (t.modifySymbol id fun s => { head s with outer }).Blank :=
    blank.modifySymbol (isHead.isDeclared _ isOpen.2)
  cases outer with
  | none => exact headed
  | some scope =>
    -- the class around the scope is declared before and after the first change
    have parentOpen := forest.scopes.enclosingSymbol_isOpen (around scope rfl)
    have declared : ((t.modifySymbol id fun s => { head s with outer := some scope }).symbol
        (t.enclosingSymbol scope)).isDeclared := by
      have same := view_modifySymbol t id (t.enclosingSymbol scope)
        (f := fun s => { head s with outer := some scope }) Symbol.state isHead.state
      rw [Symbol.isDeclared, same]
      exact parentOpen.2
    rw [SymbolTable.enterClass]
    simp only [addInnerClass, enclosingSymbol_modifySymbol]
    exact headed.modifySymbol declared

end Blank

end SymbolTable

/-! ## The state of a run -/

namespace Context

/-- The classes that are only referred to are blank, and no reference waits to be filled in with one
of them. -/
structure Untouched (cx : Context) : Prop where
  blank : cx.table.Blank
  places : ∀ r ∈ cx.pending.all, cx.table.OpenPlace r.link

theorem untouched_start (options : Options) : (start options).Untouched :=
  ⟨SymbolTable.seeded_blank, nofun⟩

namespace Untouched

variable {cx next : Context} (untouched : cx.Untouched)
include untouched

theorem grow (blank : next.table.Blank) (grows : cx.table.Grows next.table)
    (waiting : ∀ r ∈ next.pending.all, r ∈ cx.pending.all) : next.Untouched :=
  ⟨blank, fun r waits => grows.openPlace (untouched.places r (waiting r waits))⟩

theorem happened (e : Event) : (cx.happened e).Untouched := ⟨untouched.blank, untouched.places⟩

theorem apply (file : FileId) (pos : Position) {link : Link} (openPlace : cx.table.OpenPlace link)
    (target : SymbolId) : (cx.apply file pos link target).Untouched := by
  have precedes := Precedes.apply cx file pos link target
  refine untouched.grow ?_ precedes.table fun r waits => ?_
  · rw [apply_table]
    exact untouched.blank.fill openPlace target
  · rw [Context.apply] at waits
    split at waits <;> exact waits

theorem resumeEach {ready : List (PendingReference × SymbolId)}
    (places : ∀ e ∈ ready, cx.table.OpenPlace e.1.link) :
    (ready.foldl (fun cx e => resume e.1 e.2 cx) cx).Untouched := by
  induction ready generalizing cx with
  | nil => exact untouched
  | cons e rest ih =>
    have noted := untouched.happened (.resumed e.1 e.2)
    have resumed := noted.apply e.1.file e.1.position (places e List.mem_cons_self) e.2
    have grows := (Precedes.resume cx e.1 e.2).table
    exact ih resumed fun e' isIn => grows.openPlace (places e' (List.mem_cons_of_mem _ isIn))

theorem linkType (file : FileId) (scope : Option ScopeRef) (written : String) (pos : Position)
    {link : Link} (openPlace : cx.table.OpenPlace link) :
    (cx.linkType file scope written pos link).Untouched := by
  cases cx.linkType_linking file scope written pos link with
  | none is => rw [is]; exact untouched
  | now inRun found is =>
    rw [is]
    exact (untouched.happened _).apply file pos openPlace _
  | @later f r inRun met waits undeclared is =>
    have grows := SymbolTable.Grows.getOrAddPlaceholder cx.table r.key
    rw [is]
    refine ⟨untouched.blank.getOrAddPlaceholder r.key, fun other waits => ?_⟩
    rcases List.mem_cons.1 ((cx.pending.request_perm r.waiting).mem_iff.1 waits) with rfl | before
    · have place : r.waiting.link = link := by rw [met]; rfl
      rw [place]
      exact grows.openPlace openPlace
    · exact grows.openPlace (untouched.places other before)

theorem deed (forest : cx.table.Forest) (deed : Deed cx next) : next.Untouched := by
  cases deed with
  | inspect w remaining scope idx node =>
    obtain ⟨log, is⟩ := w.inspect_changes cx remaining scope idx node
    rw [is]
    exact ⟨untouched.blank, untouched.places⟩
  | refuse w idx node =>
    rw [w.refuseDepth_eq]
    exact ⟨untouched.blank, untouched.places⟩
  | report | prune | header => exact ⟨untouched.blank, untouched.places⟩
  | enter step => exact untouched.grow (untouched.blank.step forest step) step.grows fun _ is => is
  | link file isOpen written pos openPlace =>
    exact untouched.linkType file _ written pos openPlace

theorem opens (forest : cx.table.Forest) {id : SymbolId} (opens : Opens cx id next) :
    next.Untouched := by
  have precedes := opens.precedes
  obtain @⟨qualified, outer, head, begun, isHead, around, -⟩ := opens
  obtain ⟨t, started, rfl⟩ := beginClass_some begun
  obtain ⟨known, -, visiting⟩ := SymbolTable.beginDefinition_named started
  have isOpen : t.IsOpen (.symbol id) := ⟨known, by rw [Symbol.isDeclared, visiting]; rfl⟩
  have grows := SymbolTable.Grows.beginDefinition started
  -- the declaration begins first, and the class is entered in its scope after that
  have began : t.Blank := by
    obtain ⟨t', placed, -, rfl⟩ := SymbolTable.beginDefinition_ok started
    have placedBlank := untouched.blank.getOrAddPlaceholder qualified
    rw [placed] at placedBlank
    exact placedBlank.modifySymbol rfl
  have entered := began.enterClass (forest.beginDefinition started).1 isOpen
    (fun s isIn => grows.isOpen (around s isIn)) isHead
  exact untouched.grow entered precedes.table fun _ waits => waits

theorem defineComplete (id : SymbolId) : (cx.defineComplete id).Untouched := by
  have grows := SymbolTable.Grows.finishDefinition cx.table id
  have released : ({ cx with table := cx.table.finishDefinition id, pending := (cx.waitingFor id).2 }
      : Context).Untouched :=
    untouched.grow (untouched.blank.finishDefinition id) grows fun _ waits =>
      Pending.mem_release (.inr waits)
  have places : ∀ e ∈ (cx.waitingFor id).1.map (·, id),
      (cx.table.finishDefinition id).OpenPlace e.1.link := by
    intro e isIn
    obtain ⟨r, waits, rfl⟩ := List.mem_map.1 isIn
    exact grows.openPlace (untouched.places r (Pending.mem_release (.inl waits)))
  have resumed := released.resumeEach places
  rw [defineComplete_eq]
  rwa [List.foldl_map] at resumed

theorem abandonEach (stuck : List PendingReference) : (stuck.foldl abandon cx).Untouched := by
  induction stuck generalizing cx with
  | nil => exact untouched
  | cons r rest ih => exact ih ⟨untouched.blank, untouched.places⟩

theorem settle : cx.settle.Untouched := by
  rw [settle_eq]
  have emptied : ({ cx with pending := .empty } : Context).Untouched := ⟨untouched.blank, nofun⟩
  refine (emptied.resumeEach fun e isIn => ?_).abandonEach _
  obtain ⟨r, waits, is⟩ := List.mem_filterMap.1 isIn
  obtain ⟨id, -, rfl⟩ := Option.map_eq_some_iff.1 is
  exact untouched.places r waits

end Untouched

end Context

end LevelCheck
