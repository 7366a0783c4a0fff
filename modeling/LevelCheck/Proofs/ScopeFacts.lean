import LevelCheck.Proofs.Placeholders
set_option autoImplicit false

/-! # What a walk reads of a scope

In the bodies of a class a walk reads few things of a scope: the names of the variables declared in
it, how many classes have been numbered in it, and whether it is a constructor. `Touches` says of a
change of the table that it opens and changes no scope but one, or none at all. Each way of changing
the table that a walk knows touches the scope that it is about, and linking references touches
none. -/

namespace LevelCheck

/-! ## The facts about a scope -/

/-- What a walk reads of a scope, the scope around it apart. -/
structure ScopeFacts where
  /-- The names of the variables that are declared directly in it. -/
  names : List String
  /-- How many classes have been numbered in it. -/
  localClasses : Nat
  isConstructor : Bool

/-- The facts about a scope in which nothing has been declared. -/
def ScopeFacts.blank (isConstructor : Bool) : ScopeFacts :=
  { names := [], localClasses := 0, isConstructor }

/-- The facts about a scope with further variables. -/
def ScopeFacts.add (facts : ScopeFacts) (names : List String) : ScopeFacts :=
  { facts with names := facts.names ++ names }

namespace SymbolTable

/-- The facts about a scope of the table. -/
def facts (t : SymbolTable) (scope : ScopeRef) : ScopeFacts where
  names := t.varNames (t.varsOf scope)
  localClasses := match scope with
    | .symbol id => (t.symbol id).localClasses
    | .method _ | .block _ => 0
  isConstructor := match scope with
    | .method id => (t.method id).isConstructor
    | .symbol _ | .block _ => false

theorem facts_symbol (t : SymbolTable) (id : SymbolId) : t.facts (.symbol id) =
    { names := t.varNames (t.symbol id).fields, localClasses := (t.symbol id).localClasses
      isConstructor := false } := rfl

theorem facts_method (t : SymbolTable) (id : MethodId) : t.facts (.method id) =
    { names := t.varNames (t.method id).vars, localClasses := 0
      isConstructor := (t.method id).isConstructor } := rfl

theorem facts_block (t : SymbolTable) (id : BlockId) : t.facts (.block id) =
    { names := t.varNames (t.block id).vars, localClasses := 0, isConstructor := false } := rfl

/-- The scope around a scope, within its class. -/
def around? (t : SymbolTable) : ScopeRef → Option ScopeRef
  | .symbol _ => none
  | .method id => some (.symbol (t.method id).owner)
  | .block id => some (t.block id).outer

theorem Grows.around {t u : SymbolTable} (grows : t.Grows u) {scope : ScopeRef}
    (isOpen : t.IsOpen scope) : u.around? scope = t.around? scope := by
  cases scope with
  | symbol id => rfl
  | method id => rw [around?, around?, grows.owner id isOpen]
  | block id => rw [around?, around?, grows.outer id isOpen]

/-! ## Variables of a scope -/

/-- What a scope lists are variables of the table. -/
theorem VariableLists.known {t : SymbolTable} (lists : t.VariableLists) {scope : ScopeRef}
    {v : VariableId} (isIn : v ∈ t.varsOf scope) : v.val < t.vars.size := by
  have once := lists.lists scope v
  by_contra beyond
  rw [varScope?, if_neg beyond, if_neg (Option.some_ne_none scope).symm] at once
  exact List.count_eq_zero.1 once isIn

/-- Further variables leave the names of those that a scope lists. -/
theorem VariableLists.varNames_appendVars {t : SymbolTable} (lists : t.VariableLists)
    (vs : List Variable) (scope : ScopeRef) :
    (t.appendVars vs).varNames (t.varsOf scope) = t.varNames (t.varsOf scope) := by
  refine List.map_congr_left fun v isIn => ?_
  rw [var, var, appendVars, Array.getD_eq_getD_getElem?, Array.getD_eq_getD_getElem?,
    Array.getElem?_append_left (lists.known isIn)]

/-- The variables that a declaration enters carry the names that it gives. -/
theorem varNames_nextVariables (t : SymbolTable) (vs : List Variable) :
    (t.appendVars vs).varNames (t.nextVariables vs.length) = vs.map (·.name) := by
  refine List.ext_getElem (by simp [varNames, nextVariables]) fun i bound bound' => ?_
  rw [List.length_map] at bound'
  simp [varNames, nextVariables, var, appendVars, Array.getD_eq_getD_getElem?, bound']

/-- A scope lists new variables after those that it had. -/
theorem VariableLists.facts_list {t u : SymbolTable} (lists : t.VariableLists) {vs : List Variable}
    {scope : ScopeRef} (vars : u.vars = (t.appendVars vs).vars)
    (listed : u.varsOf scope = t.varsOf scope ++ t.nextVariables vs.length)
    (localClasses : (u.facts scope).localClasses = (t.facts scope).localClasses)
    (isConstructor : (u.facts scope).isConstructor = (t.facts scope).isConstructor) :
    u.facts scope = (t.facts scope).add (vs.map (·.name)) := by
  have read : u.varNames = (t.appendVars vs).varNames := by
    funext ids
    simp only [varNames, var, vars]
  have names : (u.facts scope).names = (t.facts scope).names ++ vs.map (·.name) := by
    show u.varNames (u.varsOf scope) = t.varNames (t.varsOf scope) ++ vs.map (·.name)
    rw [listed, read, ← varNames_nextVariables t vs, ← lists.varNames_appendVars vs]
    exact List.map_append
  rw [ScopeFacts.add, ← names, ← localClasses, ← isConstructor]

section

variable {t : SymbolTable} (lists : t.VariableLists) (vs : List Variable)
include lists

theorem VariableLists.facts_addFields {id : SymbolId} (isOpen : t.IsOpen (.symbol id)) :
    (t.addFields id vs).2.facts (.symbol id) = (t.facts (.symbol id)).add (vs.map (·.name)) := by
  have listed := view_modifySymbol_known (t.appendVars vs) isOpen.1
    (fun s => { s with fields := s.fields ++ t.nextVariables vs.length }) Symbol.fields id
  rw [if_pos rfl] at listed
  rw [addFields_table]
  exact lists.facts_list rfl listed
    (view_modifySymbol (t.appendVars vs) id id Symbol.localClasses fun _ => rfl) rfl

theorem VariableLists.facts_addParams {id : MethodId} (isOpen : t.IsOpen (.method id)) :
    (t.addParams id vs).2.facts (.method id) = (t.facts (.method id)).add (vs.map (·.name)) := by
  have listed := view_modifyMethod_known (t.appendVars vs) isOpen
    (fun m => { m with
      params := m.params ++ t.nextVariables vs.length
      vars := m.vars ++ t.nextVariables vs.length }) Method.vars id
  rw [if_pos rfl] at listed
  rw [addParams_table]
  exact lists.facts_list rfl listed rfl
    (view_modifyMethod (t.appendVars vs) id id Method.isConstructor fun _ => rfl)

theorem VariableLists.facts_addVars {body : BodyId} (isOpen : t.IsOpen body.scope) (policy : DuplicateScope) :
    (t.addVars body vs policy).2.facts body.scope
      = (t.facts body.scope).add (vs.map (·.name)) := by
  rw [addVars_table]
  cases body with
  | method id =>
    have listed := view_modifyMethod_known (t.appendVars vs) isOpen
      (fun m => { m with vars := m.vars ++ t.nextVariables vs.length }) Method.vars id
    rw [if_pos rfl] at listed
    exact lists.facts_list rfl listed rfl
      (view_modifyMethod (t.appendVars vs) id id Method.isConstructor fun _ => rfl)
  | block id =>
    have listed := view_modifyBlock_known (t.appendVars vs) isOpen
      (fun b => { b with vars := b.vars ++ t.nextVariables vs.length }) Block.vars id
    rw [if_pos rfl] at listed
    exact lists.facts_list rfl listed rfl rfl

end

/-! ## Changes at one scope -/

/-- The second table has grown from the first, and differs from it at one scope at most: every other
scope that is open was open before, and shows the same facts. -/
structure Touches (t u : SymbolTable) (touched : Option ScopeRef) : Prop where
  grows : t.Grows u
  isOpen : ∀ s, s ∉ touched → u.IsOpen s → t.IsOpen s
  facts : ∀ s, s ∉ touched → t.IsOpen s → u.facts s = t.facts s

theorem addBlock_fst (t : SymbolTable) (outer : ScopeRef) :
    (t.addBlock outer).1 = ⟨t.blocks.size⟩ := by cases outer <;> rfl

namespace Touches

variable {t u v : SymbolTable} {touched : Option ScopeRef}

theorem refl (t : SymbolTable) (touched : Option ScopeRef) : t.Touches t touched :=
  ⟨.refl t, fun _ _ isOpen => isOpen, fun _ _ _ => rfl⟩

theorem trans (first : t.Touches u touched) (second : u.Touches v touched) : t.Touches v touched where
  grows := first.grows.trans second.grows
  isOpen s other isOpen := first.isOpen s other (second.isOpen s other isOpen)
  facts s other isOpen :=
    (second.facts s other (first.grows.isOpen isOpen)).trans (first.facts s other isOpen)

/-- A change at no scope is one at any. -/
theorem weaken (touches : t.Touches u none) (touched : Option ScopeRef) : t.Touches u touched :=
  ⟨touches.grows, fun s _ => touches.isOpen s nofun, fun s _ => touches.facts s nofun⟩

/-- A change at a scope that does not show there. -/
theorem quiet {scope : ScopeRef} (touches : t.Touches u (some scope))
    (isOpen : u.IsOpen scope → t.IsOpen scope)
    (facts : t.IsOpen scope → u.facts scope = t.facts scope) : t.Touches u none where
  grows := touches.grows
  isOpen s _ inside := by
    by_cases is : s = scope
    · rw [is] at inside ⊢
      exact isOpen inside
    · exact touches.isOpen s (fun h => is (Option.some.inj h).symm) inside
  facts s _ inside := by
    by_cases is : s = scope
    · rw [is] at inside ⊢
      exact facts inside
    · exact touches.facts s (fun h => is (Option.some.inj h).symm) inside

/-- A scope that is open was open before, unless it is the one that the change opens. -/
theorem older (touches : t.Touches u touched) {scope : ScopeRef}
    (before : scope ∈ touched → t.IsOpen scope) (isOpen : u.IsOpen scope) : t.IsOpen scope := by
  by_cases is : scope ∈ touched
  · exact before is
  · exact touches.isOpen scope is isOpen

theorem methods_size (touches : t.Touches u touched)
    (before : ∀ id, .method id ∈ touched → t.IsOpen (.method id)) :
    u.methods.size = t.methods.size := by
  have none : ¬ t.methods.size < u.methods.size := fun more =>
    Nat.lt_irrefl _ (touches.older (before ⟨t.methods.size⟩) more)
  exact (Nat.not_lt.1 none).antisymm touches.grows.methods

theorem blocks_size (touches : t.Touches u touched)
    (before : ∀ id, .block id ∈ touched → t.IsOpen (.block id)) :
    u.blocks.size = t.blocks.size := by
  have none : ¬ t.blocks.size < u.blocks.size := fun more =>
    Nat.lt_irrefl _ (touches.older (before ⟨t.blocks.size⟩) more)
  exact (Nat.not_lt.1 none).antisymm touches.grows.blocks

/-! ### Changes of one record -/

theorem modifySymbol (t : SymbolTable) (id : SymbolId) {f : Symbol → Symbol}
    (name : ∀ s, (f s).name = s.name) (declared : ∀ s, s.isDeclared → (f s).isDeclared) :
    t.Touches (t.modifySymbol id f) (some (.symbol id)) := by
  have read (s : SymbolId) (other : ScopeRef.symbol s ∉ some (ScopeRef.symbol id)) :
      (t.modifySymbol id f).symbol s = t.symbol s := by
    rw [symbol_modifySymbol, if_neg]
    rintro ⟨rfl, -⟩
    exact other rfl
  refine ⟨.modifySymbol t id name declared, fun s other isOpen => ?_, fun s other _ => ?_⟩
  · cases s with
    | symbol s =>
      rw [IsOpen, size_modifySymbol, read s other] at isOpen
      exact isOpen
    | method m | block b => exact isOpen
  · cases s with
    | symbol s =>
      rw [facts_symbol, facts_symbol, read s other]
      rfl
    | method m | block b => rfl

/-- A change of a class that does not show. -/
theorem modifySymbol_quiet (t : SymbolTable) (id : SymbolId) {f : Symbol → Symbol}
    (keeps : ∀ s, ((f s).name, (f s).state, (f s).fields, (f s).localClasses)
      = (s.name, s.state, s.fields, s.localClasses)) : t.Touches (t.modifySymbol id f) none := by
  simp only [Prod.mk.injEq] at keeps
  have declared (s : Symbol) : (f s).isDeclared = s.isDeclared := by
    rw [Symbol.isDeclared, Symbol.isDeclared, (keeps s).2.1]
  have touches := modifySymbol t id (fun s => (keeps s).1) fun s before => (declared s).trans before
  refine touches.quiet (fun isOpen => ?_) fun _ => ?_
  · rw [IsOpen, size_modifySymbol, view_modifySymbol t id id Symbol.isDeclared declared] at isOpen
    exact isOpen
  · rw [facts_symbol, facts_symbol, view_modifySymbol t id id Symbol.fields fun s => (keeps s).2.2.1,
      view_modifySymbol t id id Symbol.localClasses fun s => (keeps s).2.2.2]
    rfl

theorem modifyMethod (t : SymbolTable) (id : MethodId) {f : Method → Method}
    (owner : ∀ m, (f m).owner = m.owner) :
    t.Touches (t.modifyMethod id f) (some (.method id)) := by
  refine ⟨.modifyMethod t id owner, fun s other isOpen => ?_, fun s other _ => ?_⟩
  · cases s with
    | symbol s | block b => exact isOpen
    | method m =>
      rw [IsOpen, SymbolTable.modifyMethod, Array.size_modify] at isOpen
      exact isOpen
  · cases s with
    | symbol s | block b => rfl
    | method m =>
      have read : (t.modifyMethod id f).method m = t.method m := by
        rw [method_modifyMethod, if_neg]
        rintro ⟨rfl, -⟩
        exact other rfl
      rw [facts_method, facts_method, read]
      rfl

theorem modifyMethod_quiet (t : SymbolTable) (id : MethodId) {f : Method → Method}
    (keeps : ∀ m, ((f m).owner, (f m).vars, (f m).isConstructor)
      = (m.owner, m.vars, m.isConstructor)) : t.Touches (t.modifyMethod id f) none := by
  simp only [Prod.mk.injEq] at keeps
  refine (modifyMethod t id fun m => (keeps m).1).quiet (fun isOpen => ?_) fun _ => ?_
  · rw [IsOpen, SymbolTable.modifyMethod, Array.size_modify] at isOpen
    exact isOpen
  · rw [facts_method, facts_method, view_modifyMethod t id id Method.vars fun m => (keeps m).2.1,
      view_modifyMethod t id id Method.isConstructor fun m => (keeps m).2.2]
    rfl

theorem modifyBlock (t : SymbolTable) (id : BlockId) {f : Block → Block}
    (outer : ∀ b, (f b).outer = b.outer) : t.Touches (t.modifyBlock id f) (some (.block id)) := by
  refine ⟨.modifyBlock t id outer, fun s other isOpen => ?_, fun s other _ => ?_⟩
  · cases s with
    | symbol s | method m => exact isOpen
    | block b =>
      rw [IsOpen, SymbolTable.modifyBlock, Array.size_modify] at isOpen
      exact isOpen
  · cases s with
    | symbol s | method m => rfl
    | block b =>
      have read : (t.modifyBlock id f).block b = t.block b := by
        rw [block_modifyBlock, if_neg]
        rintro ⟨rfl, -⟩
        exact other rfl
      rw [facts_block, facts_block, read]
      rfl

theorem modifyBlock_quiet (t : SymbolTable) (id : BlockId) {f : Block → Block}
    (keeps : ∀ b, ((f b).outer, (f b).vars) = (b.outer, b.vars)) :
    t.Touches (t.modifyBlock id f) none := by
  simp only [Prod.mk.injEq] at keeps
  refine (modifyBlock t id fun b => (keeps b).1).quiet (fun isOpen => ?_) fun _ => ?_
  · rw [IsOpen, SymbolTable.modifyBlock, Array.size_modify] at isOpen
    exact isOpen
  · rw [facts_block, facts_block, view_modifyBlock t id id Block.vars fun b => (keeps b).2]
    rfl

/-- A change of a variable that keeps its name does not show. -/
theorem modifyVariable_quiet (t : SymbolTable) (id : VariableId) {f : Variable → Variable}
    (name : ∀ v, (f v).name = v.name) : t.Touches (t.modifyVariable id f) none := by
  have grows : t.Grows (t.modifyVariable id f) :=
    { Grows.refl t with vars := by simp [SymbolTable.modifyVariable] }
  have names (ids : List VariableId) : (t.modifyVariable id f).varNames ids = t.varNames ids := by
    refine List.map_congr_left fun v _ => ?_
    rw [var_modifyVariable]
    split
    · exact name _
    · rfl
  refine ⟨grows, fun s _ isOpen => ?_, fun s _ _ => ?_⟩
  · cases s with
    | symbol s | method m | block b => exact isOpen
  · cases s with
    | symbol s => rw [facts_symbol, names]; rfl
    | method m => rw [facts_method, names]; rfl
    | block b => rw [facts_block, names]; rfl

/-- Filling the place of a reference does not show. -/
theorem fill (t : SymbolTable) (link : Link) (target : SymbolId) :
    t.Touches (t.fill link target) none := by
  cases link with
  | superclass child | interface child index =>
    exact modifySymbol_quiet t child fun _ => rfl
  | variableType declared => exact modifyVariable_quiet t declared fun _ => rfl
  | returnType method | thrownType method index =>
    exact modifyMethod_quiet t method fun _ => rfl
  | existence => exact refl t none
  | anonymousBase child =>
    rw [SymbolTable.fill]
    split <;> exact modifySymbol_quiet t child fun _ => rfl

/-- The completion of a class that is open does not show. -/
theorem finishDefinition {id : SymbolId} (isOpen : t.IsOpen (.symbol id)) :
    t.Touches (t.finishDefinition id) none := by
  have touches : t.Touches (t.finishDefinition id) (some (.symbol id)) :=
    modifySymbol t id (fun _ => rfl) fun _ _ => rfl
  refine touches.quiet (fun _ => isOpen) fun _ => ?_
  have fields : ((t.finishDefinition id).symbol id).fields = (t.symbol id).fields :=
    view_modifySymbol t id id Symbol.fields fun _ => rfl
  have count : ((t.finishDefinition id).symbol id).localClasses = (t.symbol id).localClasses :=
    view_modifySymbol t id id Symbol.localClasses fun _ => rfl
  rw [facts_symbol, facts_symbol, fields, count]
  rfl

/-! ### New records -/

/-- A reference to a class does not show, whether the class is known or not. -/
theorem getOrAddPlaceholder (t : SymbolTable) (name : String) :
    t.Touches (t.getOrAddPlaceholder name).2 none := by
  cases found : t.lookup? name with
  | some id =>
    rw [getOrAddPlaceholder_of_some found]
    exact refl t none
  | none =>
    rw [getOrAddPlaceholder_of_none found]
    refine ⟨.addSymbol t _, fun s _ isOpen => ?_, fun s _ isOpen => ?_⟩
    · cases s with
      | symbol s =>
        -- the new class is only referred to, so it is not open
        obtain ⟨known, declared⟩ := isOpen
        rw [symbol_addSymbol] at declared
        split at declared
        · cases declared
        · next older =>
          rw [size_addSymbol] at known
          exact ⟨by omega, declared⟩
      | method m | block b => exact isOpen
    · cases s with
      | symbol s =>
        have older : (t.addSymbol (.placeholder name)).2.symbol s = t.symbol s := by
          rw [symbol_addSymbol, if_neg (Nat.ne_of_lt isOpen.1)]
        rw [facts_symbol, facts_symbol, older]
        rfl
      | method m | block b => rfl

theorem addMethod (t : SymbolTable) (m : Method) :
    t.Touches (t.addMethod m).2 (some (.method (t.addMethod m).1)) := by
  have pushed : t.Touches { t with methods := t.methods.push m } (some (.method ⟨t.methods.size⟩)) := by
    refine ⟨.pushMethod t m, fun s other isOpen => ?_, fun s other isOpen => ?_⟩
    · cases s with
      | symbol s | block b => exact isOpen
      | method id =>
        have isNew : id.val ≠ t.methods.size := fun is => other (by rw [← is]; rfl)
        rw [IsOpen, Array.size_push] at isOpen
        exact Nat.lt_of_le_of_ne (Nat.lt_succ_iff.1 isOpen) isNew
    · cases s with
      | symbol s | block b => rfl
      | method id =>
        have older : ({ t with methods := t.methods.push m } : SymbolTable).method id = t.method id := by
          rw [method, getD_push, if_neg (Nat.ne_of_lt isOpen), method]
        rw [facts_method, facts_method, older]
        rfl
  refine pushed.trans (weaken ?_ _)
  exact modifySymbol_quiet _ m.owner fun _ => rfl

theorem addBlock (t : SymbolTable) (outer : ScopeRef) :
    t.Touches (t.addBlock outer).2 (some (.block (t.addBlock outer).1)) := by
  have pushed : t.Touches { t with blocks := t.blocks.push { outer, vars := [], blocks := [] } }
      (some (.block ⟨t.blocks.size⟩)) := by
    refine ⟨.pushBlock t _, fun s other isOpen => ?_, fun s other isOpen => ?_⟩
    · cases s with
      | symbol s | method m => exact isOpen
      | block id =>
        have isNew : id.val ≠ t.blocks.size := fun is => other (by rw [← is]; rfl)
        rw [IsOpen, Array.size_push] at isOpen
        exact Nat.lt_of_le_of_ne (Nat.lt_succ_iff.1 isOpen) isNew
    · cases s with
      | symbol s | method m => rfl
      | block id =>
        have older : ({ t with blocks := t.blocks.push { outer, vars := [], blocks := [] } }
            : SymbolTable).block id = t.block id := by
          rw [block, getD_push, if_neg (Nat.ne_of_lt isOpen), block]
        rw [facts_block, facts_block, older]
        rfl
  rw [addBlock_table, addBlock_fst]
  refine pushed.trans (weaken ?_ _)
  cases outer with
  | symbol id => exact modifySymbol_quiet _ id fun _ => rfl
  | method id => exact modifyMethod_quiet _ id fun _ => rfl
  | block id => exact modifyBlock_quiet _ id fun _ => rfl

/-! ### Declarations -/

theorem beginDefinition {name : String} {id : SymbolId} (begun : t.beginDefinition name = .ok (id, u)) :
    t.Touches u (some (.symbol id)) := by
  obtain ⟨t', placed, -, rfl⟩ := beginDefinition_ok begun
  have referred := getOrAddPlaceholder t name
  rw [placed] at referred
  exact (referred.weaken _).trans (modifySymbol t' id (fun _ => rfl) fun _ _ => rfl)

theorem enterClass (t : SymbolTable) (id : SymbolId) (outer : Option ScopeRef)
    {head : Symbol → Symbol} (isHead : Symbol.IsHead head) :
    t.Touches (t.enterClass id outer head) (some (.symbol id)) := by
  have headed : t.Touches (t.modifySymbol id fun s => { head s with outer }) (some (.symbol id)) :=
    modifySymbol t id isHead.name fun s => isHead.isDeclared s
  cases outer with
  | none => exact headed
  | some scope =>
    refine headed.trans (weaken ?_ _)
    exact modifySymbol_quiet _ _ fun _ => rfl

/-! ### Variables -/

section

variable {vs : List Variable}

/-- Variables that no scope lists do not show. -/
theorem appendVars (lists : t.VariableLists) (vs : List Variable) :
    t.Touches (t.appendVars vs) none := by
  refine ⟨.appendVars t vs, fun s _ isOpen => ?_, fun s _ _ => ?_⟩
  · cases s with
    | symbol s | method m | block b => exact isOpen
  · have names := lists.varNames_appendVars vs s
    cases s with
    | symbol s => rw [facts_symbol, facts_symbol]; exact congrArg (ScopeFacts.mk · _ _) names
    | method m => rw [facts_method, facts_method]; exact congrArg (ScopeFacts.mk · _ _) names
    | block b => rw [facts_block, facts_block]; exact congrArg (ScopeFacts.mk · _ _) names

theorem addFields (lists : t.VariableLists) (id : SymbolId) (vs : List Variable) :
    t.Touches (t.addFields id vs).2 (some (.symbol id)) := by
  rw [addFields_table]
  exact ((appendVars lists vs).weaken _).trans (modifySymbol _ id (fun _ => rfl) fun _ h => h)

theorem addParams (lists : t.VariableLists) (id : MethodId) (vs : List Variable) :
    t.Touches (t.addParams id vs).2 (some (.method id)) := by
  rw [addParams_table]
  exact ((appendVars lists vs).weaken _).trans (modifyMethod _ id fun _ => rfl)

theorem addVars (lists : t.VariableLists) (body : BodyId) (vs : List Variable)
    (policy : DuplicateScope) : t.Touches (t.addVars body vs policy).2 (some body.scope) := by
  rw [addVars_table]
  refine ((appendVars lists vs).weaken _).trans ?_
  cases body with
  | method id => exact modifyMethod _ id fun _ => rfl
  | block id => exact modifyBlock _ id fun _ => rfl

end

end Touches

/-! ### The facts about what is new -/

/-- Nothing has been declared in a class whose declaration begins. -/
theorem Blank.facts_begun {t u : SymbolTable} (blank : t.Blank) {name : String} {id : SymbolId}
    (begun : t.beginDefinition name = .ok (id, u)) : u.facts (.symbol id) = .blank false := by
  obtain ⟨t', placed, referred, rfl⟩ := beginDefinition_ok begun
  have blank' := blank.getOrAddPlaceholder name
  rw [placed] at blank'
  have empty : t'.symbol id = .placeholder (t'.symbol id).name := blank' id referred
  have fields := view_modifySymbol t' id id Symbol.fields
    (f := fun s => { s with state := .visiting }) fun _ => rfl
  have count := view_modifySymbol t' id id Symbol.localClasses
    (f := fun s => { s with state := .visiting }) fun _ => rfl
  rw [facts_symbol, fields, count, empty]
  rfl

theorem facts_enterClass (t : SymbolTable) (id : SymbolId) (outer : Option ScopeRef)
    {head : Symbol → Symbol} (isHead : Symbol.IsHead head) (s : SymbolId) :
    (t.enterClass id outer head).facts (.symbol s) = t.facts (.symbol s) := by
  have vars : (t.enterClass id outer head).vars = t.vars := by cases outer <;> rfl
  have read : (t.enterClass id outer head).varNames = t.varNames := by
    funext ids
    simp only [varNames, var, vars]
  rw [facts_symbol, facts_symbol, read,
    view_enterClass t id outer isHead s Symbol.fields fun _ _ _ _ _ _ => rfl,
    view_enterClass t id outer isHead s Symbol.localClasses fun _ _ _ _ _ _ => rfl]

theorem facts_addMethod (t : SymbolTable) {m : Method} (vars : m.vars = []) :
    (t.addMethod m).2.facts (.method (t.addMethod m).1) = .blank m.isConstructor := by
  have read := (Walk.addMethod_isNew t m).2
  rw [facts_method, read, vars]
  rfl

theorem addBlock_isNew (t : SymbolTable) (outer : ScopeRef) :
    ((t.addBlock outer).2.block (t.addBlock outer).1).vars = []
      ∧ ((t.addBlock outer).2.block (t.addBlock outer).1).outer = outer := by
  have pushed : ({ t with blocks := t.blocks.push { outer, vars := [], blocks := [] } }
      : SymbolTable).block ⟨t.blocks.size⟩ = { outer, vars := [], blocks := [] } := by
    rw [block, getD_push, if_pos rfl]
  rw [addBlock_table, addBlock_fst, listBlock_block _ _ _ Block.vars fun _ _ => rfl,
    listBlock_block _ _ _ Block.outer fun _ _ => rfl, pushed]
  exact ⟨rfl, rfl⟩

theorem facts_addBlock (t : SymbolTable) (outer : ScopeRef) :
    (t.addBlock outer).2.facts (.block (t.addBlock outer).1) = .blank false := by
  rw [facts_block, (t.addBlock_isNew outer).1]
  rfl

/-- A class that is numbered in an open one is counted there. -/
theorem facts_numberLocalClass {t : SymbolTable} {id : SymbolId} (isOpen : t.IsOpen (.symbol id)) :
    (t.numberLocalClass id).2.facts (.symbol id)
      = { t.facts (.symbol id) with localClasses := (t.facts (.symbol id)).localClasses + 1 } := by
  have count := view_modifySymbol_known t isOpen.1
    (fun s => { s with localClasses := s.localClasses + 1 }) Symbol.localClasses id
  have fields := view_modifySymbol t id id Symbol.fields
    (f := fun s => { s with localClasses := s.localClasses + 1 }) fun _ => rfl
  rw [if_pos rfl] at count
  rw [numberLocalClass, facts_symbol, count, fields]
  rfl

end SymbolTable

end LevelCheck
