import LevelCheck.Proofs.Growth
set_option autoImplicit false

/-! # What does not depend on finality and levels

Runs over the same trees may differ in the levels of their files, and with those in which variables
are final. Nothing else in the table or in what a file says about names depends on either: whatever
function of finality, or of levels, is put in their place, the table is read and changed as before,
and type names denote the same classes. -/

namespace LevelCheck

/-! ## Files -/

namespace FileScope

/-- The file with a function of its level in the place of that. -/
def mapLevel (h : Level → Level) (f : FileScope) : FileScope := { f with level := h f.level }

variable (h : Level → Level) (f : FileScope)

theorem addImport_mapLevel (i : ImportDecl) :
    (f.mapLevel h).addImport i = (f.addImport i).mapLevel h := by
  have contains : (f.mapLevel h).importedPackages.contains i.name
      = f.importedPackages.contains i.name := rfl
  rw [addImport, addImport, contains]
  cases i.onDemand <;> cases f.importedPackages.contains i.name <;> rfl

/-- The header of a file and the types it declares are read alike at every level. -/
theorem header_mapLevel (package : Option String) (imports : List ImportDecl)
    (types : List String) :
    types.foldl declareClass ((f.mapLevel h).recordHeader package imports)
      = (types.foldl declareClass (f.recordHeader package imports)).mapLevel h := by
  have packaged : { f.mapLevel h with package := package.getD "" }
      = ({ f with package := package.getD "" } : FileScope).mapLevel h := rfl
  rw [recordHeader, recordHeader, packaged]
  rw [List.foldl_hom (mapLevel h) fun f i => f.addImport_mapLevel h i]
  exact List.foldl_hom (mapLevel h) fun _ _ => rfl

end FileScope

/-! ## Tables -/

/-- The variable with a function of its finality in the place of that. -/
def Variable.mapFinal (g : Bool → Bool) (v : Variable) : Variable :=
  { v with isFinal := g v.isFinal }

namespace SymbolTable

/-- The table with a function of the finality of each variable in the place of that. -/
def mapFinal (g : Bool → Bool) (t : SymbolTable) : SymbolTable :=
  { t with vars := t.vars.map (Variable.mapFinal g) }

variable (t : SymbolTable) (g : Bool → Bool)

/-! ### Reading -/

@[simp] theorem symbol_mapFinal (id : SymbolId) : (t.mapFinal g).symbol id = t.symbol id := rfl

@[simp] theorem method_mapFinal (id : MethodId) : (t.mapFinal g).method id = t.method id := rfl

@[simp] theorem block_mapFinal (id : BlockId) : (t.mapFinal g).block id = t.block id := rfl

theorem roll_mapFinal : (t.mapFinal g).roll = t.roll := rfl

@[simp] theorem lookup_mapFinal (name : String) : (t.mapFinal g).lookup? name = t.lookup? name :=
  lookup_of_roll (t.roll_mapFinal g) name

@[simp] theorem lookupDeclared_mapFinal : (t.mapFinal g).lookupDeclared? = t.lookupDeclared? :=
  funext fun name => lookupDeclared_of_roll (t.roll_mapFinal g) name

@[simp] theorem varNames_mapFinal (vars : List VariableId) :
    (t.mapFinal g).varNames vars = t.varNames vars := by
  refine List.map_congr_left fun v _ => ?_
  simp only [var, mapFinal, Array.getD_eq_getD_getElem?, Array.getElem?_map]
  cases t.vars[v.val]? <;> rfl

@[simp] theorem nextVariables_mapFinal (count : Nat) :
    (t.mapFinal g).nextVariables count = t.nextVariables count := by
  simp only [nextVariables, mapFinal, Array.size_map]

@[simp] theorem enclosingSymbol_mapFinal (scope : ScopeRef) :
    (t.mapFinal g).enclosingSymbol scope = t.enclosingSymbol scope := by
  refine enclosingSymbol_congr (fun id => ?_) ?_ scope
  · rfl
  · rfl

theorem outwardFrom_mapFinal (n : Nat) (scope : ScopeRef) :
    (t.mapFinal g).outwardFrom n scope = t.outwardFrom n scope := by
  have outer : (t.mapFinal g).outerOf = t.outerOf := by
    funext scope
    cases scope <;> rfl
  induction n generalizing scope with
  | zero => rfl
  | succ n ih =>
    rw [outwardFrom, outwardFrom, outer]
    cases t.outerOf scope with
    | none => rfl
    | some next => simp only [ih]

@[simp] theorem outward_mapFinal (scope : ScopeRef) :
    (t.mapFinal g).outward scope = t.outward scope := t.outwardFrom_mapFinal g _ scope

@[simp] theorem isTypeParam_mapFinal (scope : ScopeRef) (name : String) :
    (t.mapFinal g).isTypeParam scope name = t.isTypeParam scope name := by
  have params : (t.mapFinal g).typeParamsOf = t.typeParamsOf := by
    funext scope
    cases scope <;> rfl
  rw [isTypeParam, isTypeParam, outward_mapFinal, params]

theorem classesFrom_mapFinal (n : Nat) (id : SymbolId) :
    (t.mapFinal g).classesFrom n id = t.classesFrom n id := by
  induction n generalizing id with
  | zero => rfl
  | succ n ih =>
    rw [classesFrom, classesFrom, symbol_mapFinal]
    cases (t.symbol id).outer with
    | none => rfl
    | some outer => simp only [ih, enclosingSymbol_mapFinal]

@[simp] theorem enclosingClasses_mapFinal (id : SymbolId) :
    (t.mapFinal g).enclosingClasses id = t.enclosingClasses id := t.classesFrom_mapFinal g _ id

theorem bodiesFrom_mapFinal (n : Nat) (scope : ScopeRef) :
    (t.mapFinal g).bodiesFrom n scope = t.bodiesFrom n scope := by
  induction n generalizing scope with
  | zero => rfl
  | succ n ih =>
    cases scope with
    | symbol id | method id => rfl
    | block id => rw [bodiesFrom, bodiesFrom, ih, block_mapFinal]

@[simp] theorem bodies_mapFinal (scope : ScopeRef) :
    (t.mapFinal g).bodies scope = t.bodies scope := t.bodiesFrom_mapFinal g _ scope

theorem enclosingMethodFrom_mapFinal (n : Nat) (scope : ScopeRef) :
    (t.mapFinal g).enclosingMethodFrom? n scope = t.enclosingMethodFrom? n scope := by
  induction n generalizing scope with
  | zero => cases scope <;> rfl
  | succ n ih =>
    cases scope with
    | symbol id | method id => rfl
    | block id => rw [enclosingMethodFrom?, enclosingMethodFrom?, ih, block_mapFinal]

@[simp] theorem isConstructor_mapFinal (body : BodyId) :
    (t.mapFinal g).isConstructor body = t.isConstructor body := by
  have method : (t.mapFinal g).enclosingMethod? body.scope = t.enclosingMethod? body.scope :=
    t.enclosingMethodFrom_mapFinal g _ body.scope
  simp only [isConstructor, method, method_mapFinal]

@[simp] theorem namesInBody_mapFinal (body : BodyId) (policy : DuplicateScope) :
    (t.mapFinal g).namesInBody body policy = t.namesInBody body policy := by
  have vars : (t.mapFinal g).bodyVars = t.bodyVars := by
    funext body
    cases body <;> rfl
  cases policy <;> simp only [namesInBody, varNames_mapFinal, bodies_mapFinal, vars]

@[simp] theorem objectRef_mapFinal : (t.mapFinal g).objectRef = t.objectRef := by
  simp only [objectRef, lookup_mapFinal]

@[simp] theorem linkProblem_mapFinal (link : Link) (target : SymbolId) :
    (t.mapFinal g).linkProblem? link target = t.linkProblem? link target := by
  cases link <;> rfl

/-! ### Changing -/

theorem modifySymbol_mapFinal (id : SymbolId) (f : Symbol → Symbol) :
    (t.mapFinal g).modifySymbol id f = (t.modifySymbol id f).mapFinal g := rfl

theorem modifyMethod_mapFinal (id : MethodId) (f : Method → Method) :
    (t.mapFinal g).modifyMethod id f = (t.modifyMethod id f).mapFinal g := rfl

theorem modifyVariable_mapFinal (id : VariableId) {f : Variable → Variable}
    (commutes : ∀ v, f (v.mapFinal g) = (f v).mapFinal g) :
    (t.mapFinal g).modifyVariable id f = (t.modifyVariable id f).mapFinal g := by
  have vars := map_modify_comm t.vars id.val f f fun v => (commutes v).symm
  rw [modifyVariable, modifyVariable, mapFinal, mapFinal, vars]

theorem addMethod_mapFinal (m : Method) :
    (t.mapFinal g).addMethod m = ((t.addMethod m).1, (t.addMethod m).2.mapFinal g) := rfl

theorem addBlock_mapFinal (outer : ScopeRef) :
    (t.mapFinal g).addBlock outer = ((t.addBlock outer).1, (t.addBlock outer).2.mapFinal g) := by
  cases outer <;> rfl

theorem getOrAddPlaceholder_mapFinal (name : String) :
    (t.mapFinal g).getOrAddPlaceholder name
      = ((t.getOrAddPlaceholder name).1, (t.getOrAddPlaceholder name).2.mapFinal g) := by
  rw [getOrAddPlaceholder, getOrAddPlaceholder, lookup_mapFinal]
  cases t.lookup? name <;> rfl

theorem beginDefinition_mapFinal (name : String) :
    (t.mapFinal g).beginDefinition name
      = (t.beginDefinition name).map fun begun => (begun.1, begun.2.mapFinal g) := by
  simp only [beginDefinition, getOrAddPlaceholder_mapFinal, symbol_mapFinal]
  split <;> rfl

theorem enterClass_mapFinal (id : SymbolId) (outer : Option ScopeRef) (head : Symbol → Symbol) :
    (t.mapFinal g).enterClass id outer head = (t.enterClass id outer head).mapFinal g := by
  cases outer with
  | none => rfl
  | some scope =>
    simp only [enterClass, addInnerClass, modifySymbol_mapFinal, enclosingSymbol_mapFinal]

theorem fill_mapFinal (link : Link) (target : SymbolId) :
    (t.mapFinal g).fill link target = (t.fill link target).mapFinal g := by
  cases link with
  | variableType declared => exact t.modifyVariable_mapFinal g declared fun _ => rfl
  | anonymousBase child =>
    simp only [fill, symbol_mapFinal, objectRef_mapFinal, modifySymbol_mapFinal]
    split <;> rfl
  | _ => rfl

theorem appendVars_mapFinal (vars : List Variable) :
    (t.mapFinal g).appendVars (vars.map (Variable.mapFinal g)) = (t.appendVars vars).mapFinal g := by
  simp only [mapFinal, appendVars, Array.map_append, List.map_toArray]

theorem listVars_mapFinal (body : BodyId) (ids : List VariableId) :
    (t.mapFinal g).listVars body ids = (t.listVars body ids).mapFinal g := by
  cases body <;> rfl

end SymbolTable

/-! ## Resolving -/

namespace Resolution

variable (t : SymbolTable) (g : Bool → Bool) (f : FileScope) (h : Level → Level)
  (enclosing : Option SymbolId) (name : String)

@[simp] theorem candidates_mapLevel :
    candidates (t.mapFinal g) (f.mapLevel h) enclosing name = candidates t f enclosing name := by
  have around (id : SymbolId) :
      classCandidates (t.mapFinal g) name id = classCandidates t name id := rfl
  have simple : simpleCandidates (t.mapFinal g) (f.mapLevel h) enclosing name
      = simpleCandidates t f enclosing name := by
    cases enclosing with
    | none => rfl
    | some id =>
      simp only [simpleCandidates, SymbolTable.enclosingClasses_mapFinal, funext around]
      rfl
  rw [candidates, candidates, simple]
  rfl

@[simp] theorem names_mapLevel :
    names (t.mapFinal g) (f.mapLevel h) enclosing name = names t f enclosing name := by
  simp only [names, SymbolTable.lookup_mapFinal, candidates_mapLevel]

@[simp] theorem ofName_mapLevel :
    ofName (t.mapFinal g) (f.mapLevel h) enclosing name = ofName t f enclosing name := by
  have key : waitingName (f.mapLevel h) name = waitingName f name := rfl
  simp only [ofName, ofCandidates, SymbolTable.lookup_mapFinal, candidates_mapLevel,
    SymbolTable.lookupDeclared_mapFinal, key]

end Resolution

end LevelCheck
