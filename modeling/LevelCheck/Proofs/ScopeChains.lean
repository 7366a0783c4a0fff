import LevelCheck.Proofs.Ownership
set_option autoImplicit false

/-! # Ways outward

From every scope of a table the scopes around it lead outward to an end. The ids of classes are no
measure of how far that is, since a class may have been referred to before the class around it was.
But a class carries the name of the class around it and more, so names get shorter on the way out;
and within one class blocks get lower numbers. On a way along which something goes down no scope
comes twice, so it is no longer than there are scopes. This is why the functions that follow scopes
outward for a bounded number of steps reach the end, and satisfy the equations of following them
without a bound. -/

namespace LevelCheck

/-! ## Chains

What leads from one element to the next, where a rank goes down and the elements can be numbered. -/

section Chains

variable {α : Type} (next : α → Option α)

/-- Where a number of steps from an element leads, if it leads that far. -/
def climb : Nat → α → Option α
  | 0, x => some x
  | n + 1, x => (next x).bind (climb n)

/-- An element and those that it leads to, at most the given number of them. -/
def chainFrom : Nat → α → List α
  | 0, _ => []
  | n + 1, x =>
    x ::
      match next x with
      | some y => chainFrom n y
      | none => []

theorem climb_add (n m : Nat) (x : α) : climb next (n + m) x = (climb next n x).bind (climb next m) := by
  induction n generalizing x with
  | zero => simp [climb]
  | succ n ih =>
    rw [Nat.succ_add, climb, climb]
    cases next x with
    | none => rfl
    | some y => simp [ih]

/-- A chain that ends within a number of steps is not made longer by more steps. -/
theorem chainFrom_succ {n : Nat} {x : α} (ends : climb next n x = none) :
    chainFrom next (n + 1) x = chainFrom next n x := by
  induction n generalizing x with
  | zero => simp [climb] at ends
  | succ n ih =>
    rw [climb] at ends
    rw [chainFrom, chainFrom]
    cases step : next x with
    | none => rfl
    | some y =>
      rw [step, Option.bind_some] at ends
      simp [ih ends]

variable {next} {β : Type} [Preorder β] {rank : α → β} {good : α → Prop}
  (down : ∀ x y, good x → next x = some y → good y ∧ rank y < rank x)
include down

theorem climb_good {n : Nat} {x y : α} (isGood : good x) (leads : climb next n x = some y) : good y := by
  induction n generalizing x with
  | zero =>
    obtain rfl : x = y := by simpa [climb] using leads
    exact isGood
  | succ n ih =>
    rw [climb, Option.bind_eq_some_iff] at leads
    obtain ⟨z, step, further⟩ := leads
    exact ih (down x z isGood step).1 further

theorem rank_climb_lt {n : Nat} {x y : α} (isGood : good x) (leads : climb next (n + 1) x = some y) :
    rank y < rank x := by
  induction n generalizing x with
  | zero =>
    rw [climb, Option.bind_eq_some_iff] at leads
    obtain ⟨z, step, there⟩ := leads
    obtain rfl : z = y := by simpa [climb] using there
    exact (down x z isGood step).2
  | succ n ih =>
    rw [climb, Option.bind_eq_some_iff] at leads
    obtain ⟨z, step, further⟩ := leads
    obtain ⟨isGood', lower⟩ := down x z isGood step
    exact (ih isGood' further).trans lower

/-- There are no more steps than elements, since no element comes twice. -/
theorem climb_eq_none {count : Nat} (number : α → Nat) (bounded : ∀ x, good x → number x < count)
    (separates : ∀ x y, good x → good y → number x = number y → x = y) {x : α} (isGood : good x) :
    climb next count x = none := by
  by_contra leads
  -- then each of the first steps leads somewhere as well
  have reached (i : Fin (count + 1)) : ∃ y, climb next i x = some y := by
    have split := climb_add next i (count - i) x
    rw [Nat.add_sub_cancel' (Nat.le_of_lt_succ i.isLt)] at split
    cases there : climb next i x with
    | none => rw [there] at split; exact absurd split leads
    | some y => exact ⟨y, rfl⟩
  choose place isPlace using reached
  have placeGood (i : Fin (count + 1)) : good (place i) := climb_good down isGood (isPlace i)
  -- two of them lead to elements of the same number
  obtain ⟨i, j, differ, same⟩ := Fintype.exists_ne_map_eq_of_card_lt
    (fun i : Fin (count + 1) => (⟨number (place i), bounded _ (placeGood i)⟩ : Fin count)) (by simp)
  have same : place i = place j :=
    separates _ _ (placeGood i) (placeGood j) (congrArg Fin.val same)
  have apart {i j : Fin (count + 1)} (before : i < j) : rank (place j) < rank (place i) := by
    obtain ⟨k, hk⟩ : ∃ k, (j : Nat) = i + (k + 1) := ⟨j - i - 1, by omega⟩
    refine rank_climb_lt down (n := k) (placeGood i) ?_
    have split := climb_add next i (k + 1) x
    rw [← hk, isPlace, isPlace, Option.bind_some] at split
    exact split.symm
  rcases lt_or_gt_of_ne differ with before | after
  · exact absurd (apart before) (by rw [same]; exact lt_irrefl _)
  · exact absurd (apart after) (by rw [same]; exact lt_irrefl _)

end Chains

namespace SymbolTable

variable {t : SymbolTable}

/-! ## The chain of scopes -/

/-- The scope is one of the table. -/
def Holds (t : SymbolTable) : ScopeRef → Prop
  | .symbol id => id.val < t.size
  | .method id => id.val < t.methods.size
  | .block id => id.val < t.blocks.size

/-- The number of scopes of the table. -/
def scopeCount (t : SymbolTable) : Nat := t.symbols.size + t.methods.size + t.blocks.size

theorem IsOpen.holds {scope : ScopeRef} (isOpen : t.IsOpen scope) : t.Holds scope := by
  cases scope with
  | symbol id => exact isOpen.1
  | method id => exact isOpen
  | block id => exact isOpen

/-- The scopes in a row: classes, then methods, then blocks. -/
def scopeNumber (t : SymbolTable) : ScopeRef → Nat
  | .symbol id => id.val
  | .method id => t.symbols.size + id.val
  | .block id => t.symbols.size + t.methods.size + id.val

theorem scopeNumber_lt {scope : ScopeRef} (holds : t.Holds scope) :
    t.scopeNumber scope < t.scopeCount := by
  cases scope <;> simp only [Holds, size, scopeNumber, scopeCount] at * <;> omega

theorem scopeNumber_inj {s s' : ScopeRef} (holds : t.Holds s) (holds' : t.Holds s')
    (same : t.scopeNumber s = t.scopeNumber s') : s = s' := by
  cases s <;> cases s' <;> simp only [Holds, size, scopeNumber] at *
  case symbol.symbol id id' =>
    obtain rfl : id = id' := SymbolId.ext same
    rfl
  case method.method id id' =>
    obtain rfl : id = id' := MethodId.ext (by omega)
    rfl
  case block.block id id' =>
    obtain rfl : id = id' := BlockId.ext (by omega)
    rfl
  all_goals omega

/-- How far inside of its class a scope lies. -/
def rankInClass : ScopeRef → Nat
  | .symbol _ => 0
  | .method _ => 1
  | .block id => id.val + 2

/-- How far inside a scope lies: first by the name of the class around it, then within that class. -/
def scopeRank (t : SymbolTable) (scope : ScopeRef) : ℕ ×ₗ ℕ :=
  toLex ((t.symbol (t.enclosingSymbol scope)).name.length, rankInClass scope)

theorem length_memberName (outer own : String) :
    outer.length < (Resolution.memberName outer own).length := by
  have mark : "$".length = 1 := rfl
  rw [Resolution.memberName, String.length_append, String.length_append]
  omega

theorem outwardFrom_eq (t : SymbolTable) (n : Nat) (scope : ScopeRef) :
    t.outwardFrom n scope = chainFrom t.outerOf n scope := by
  induction n generalizing scope with
  | zero => rfl
  | succ n ih =>
    rw [outwardFrom, chainFrom]
    cases t.outerOf scope with
    | none => rfl
    | some outer => simp [ih]

theorem classesFrom_eq (t : SymbolTable) (n : Nat) (id : SymbolId) :
    t.classesFrom n id = chainFrom t.outerClass? n id := by
  induction n generalizing id with
  | zero => rfl
  | succ n ih =>
    rw [classesFrom, chainFrom, outerClass?]
    cases (t.symbol id).outer with
    | none => rfl
    | some outer => simp [ih]

namespace Forest

variable (forest : t.Forest)
include forest

/-- Every step outward stays in the table and leads further out. -/
theorem outerOf_lower (scope outer : ScopeRef) (holds : t.Holds scope)
    (step : t.outerOf scope = some outer) :
    t.Holds outer ∧ t.scopeRank outer < t.scopeRank scope := by
  cases scope with
  | symbol id =>
    -- from a class the way leads into a class of a shorter name
    refine ⟨(forest.classes.outerOpen id outer step).holds, ?_⟩
    have around : t.outerClass? id = some (t.enclosingSymbol outer) := by
      rw [outerClass?, show (t.symbol id).outer = some outer from step, Option.map_some]
    obtain ⟨own, name⟩ := forest.classes.named id _ around
    have inner : t.enclosingSymbol (.symbol id) = id := by simp only [enclosingSymbol, enclosingSymbolFrom]
    rw [scopeRank, scopeRank, Prod.Lex.toLex_lt_toLex, inner, name]
    exact .inl (length_memberName _ _)
  | method id =>
    obtain rfl : ScopeRef.symbol (t.method id).owner = outer := Option.some.inj step
    refine ⟨(forest.scopes.owner_isOpen holds).holds, ?_⟩
    rw [scopeRank, scopeRank, Prod.Lex.toLex_lt_toLex]
    simp [enclosingSymbol, enclosingSymbolFrom, rankInClass]
  | block id =>
    -- from a block the way leads to what lies before it in the same class
    obtain rfl : (t.block id).outer = outer := Option.some.inj step
    refine ⟨(forest.scopes.outer_isOpen holds).holds, ?_⟩
    rw [scopeRank, scopeRank, Prod.Lex.toLex_lt_toLex, forest.scopes.enclosingSymbol_block holds]
    refine .inr ⟨rfl, ?_⟩
    cases outer : (t.block id).outer with
    | symbol owner => simp [rankInClass]
    | method m => simp [rankInClass]
    | block b =>
      have inward := forest.scopes.inward id b (outer ▸ if_pos holds)
      simpa [rankInClass] using inward

/-- The way outward from a scope ends before it has passed all scopes. -/
theorem climb_outerOf {scope : ScopeRef} (holds : t.Holds scope) :
    climb t.outerOf t.scopeCount scope = none :=
  climb_eq_none forest.outerOf_lower t.scopeNumber (fun _ => scopeNumber_lt)
    (fun _ _ => scopeNumber_inj) holds

theorem outward_eq {scope : ScopeRef} (holds : t.Holds scope) :
    t.outward scope
      = scope ::
        match t.outerOf scope with
        | some outer => t.outward outer
        | none => [] := by
  have enough (outer : ScopeRef) (step : t.outerOf scope = some outer) :
      t.outward outer = t.outwardFrom t.scopeCount outer := by
    have ends := forest.climb_outerOf (forest.outerOf_lower scope outer holds step).1
    rw [outward, outwardFrom_eq, outwardFrom_eq]
    exact chainFrom_succ t.outerOf ends
  rw [outward, outwardFrom]
  cases step : t.outerOf scope with
  | none => rfl
  | some outer => simp only [enough outer step, scopeCount]

/-! ## The chain of classes -/

theorem outerClass_lower (id outer : SymbolId) (_ : id.val < t.size)
    (step : t.outerClass? id = some outer) :
    outer.val < t.size ∧ (t.symbol outer).name.length < (t.symbol id).name.length := by
  obtain ⟨own, name⟩ := forest.classes.named id outer step
  obtain ⟨scope, around, rfl⟩ := Option.map_eq_some_iff.1 step
  have isOpen := forest.scopes.enclosingSymbol_isOpen (forest.classes.outerOpen id scope around)
  refine ⟨isOpen.1, ?_⟩
  rw [name]
  exact length_memberName _ _

theorem climb_outerClass {id : SymbolId} (known : id.val < t.size) :
    climb t.outerClass? t.size id = none :=
  climb_eq_none forest.outerClass_lower SymbolId.val (fun _ known => known)
    (fun _ _ _ _ same => SymbolId.ext same) known

theorem enclosingClasses_eq {id : SymbolId} (known : id.val < t.size) :
    t.enclosingClasses id
      = id ::
        match (t.symbol id).outer with
        | some outer => t.enclosingClasses (t.enclosingSymbol outer)
        | none => [] := by
  rw [enclosingClasses, classesFrom]
  cases around : (t.symbol id).outer with
  | none => rfl
  | some outer =>
    have step : t.outerClass? id = some (t.enclosingSymbol outer) := by
      rw [outerClass?, around, Option.map_some]
    have ends := forest.climb_outerClass (forest.outerClass_lower id _ known step).1
    have enough := chainFrom_succ t.outerClass? ends
    rw [← classesFrom_eq, ← classesFrom_eq] at enough
    simp only [enclosingClasses, enough]

end Forest

/-! ## Within a class

What is followed from block to block ends at the method or the class around the block. -/

/-- How many scopes a way outward passes at most before it leaves the blocks. -/
def stepsOut : ScopeRef → Nat
  | .symbol _ => 1
  | .method _ => 1
  | .block id => id.val + 2

theorem stepsOut_pos (scope : ScopeRef) : 0 < stepsOut scope := by
  cases scope <;> simp [stepsOut]

theorem stepsOut_le {scope : ScopeRef} (holds : t.Holds scope) : stepsOut scope ≤ t.blocks.size + 1 := by
  cases scope <;> simp only [Holds, stepsOut] at * <;> omega

namespace ScopeTree

variable (scopes : t.ScopeTree)
include scopes

theorem stepsOut_outer {id : BlockId} (known : id.val < t.blocks.size) :
    stepsOut (t.block id).outer < stepsOut (.block id) := by
  cases outer : (t.block id).outer with
  | symbol owner => simp [stepsOut]
  | method m => simp [stepsOut]
  | block b =>
    have inward := scopes.inward id b (outer ▸ if_pos known)
    simpa [stepsOut] using inward

/-- A function that passes on from a block to the scope around it does not depend on its bound, if
that is enough for the way out. -/
theorem bound_irrelevant {β : Type} (follow : Nat → ScopeRef → β) (pass : BlockId → β → β)
    (block : ∀ n id, follow (n + 1) (.block id) = pass id (follow n (t.block id).outer))
    (symbol : ∀ n id, follow (n + 1) (.symbol id) = follow 1 (.symbol id))
    (method : ∀ n id, follow (n + 1) (.method id) = follow 1 (.method id))
    {scope : ScopeRef} (holds : t.Holds scope) {n m : Nat} (enough : stepsOut scope ≤ n)
    (enough' : stepsOut scope ≤ m) : follow n scope = follow m scope := by
  induction n generalizing m scope with
  | zero =>
    have := stepsOut_pos scope
    omega
  | succ n ih =>
    obtain ⟨m, rfl⟩ : ∃ k, m = k + 1 := ⟨m - 1, by have := stepsOut_pos scope; omega⟩
    cases scope with
    | symbol id => rw [symbol n, symbol m]
    | method id => rw [method n, method m]
    | block id =>
      have closer := scopes.stepsOut_outer holds
      have outside := ih (scopes.outer_isOpen holds).holds (m := m) (by omega) (by omega)
      rw [block, block, outside]

theorem enclosingMethod_block {id : BlockId} (known : id.val < t.blocks.size) :
    t.enclosingMethod? (.block id) = t.enclosingMethod? (t.block id).outer := by
  have holds := (scopes.outer_isOpen known).holds
  have within : stepsOut (.block id) ≤ t.blocks.size + 1 := stepsOut_le known
  have closer := scopes.stepsOut_outer known
  rw [enclosingMethod?, enclosingMethodFrom?]
  refine scopes.bound_irrelevant t.enclosingMethodFrom? (fun _ rest => rest) ?_ ?_ ?_ holds
    (by omega) (by omega)
  · intro n id
    rw [enclosingMethodFrom?]
  · intro n id
    simp [enclosingMethodFrom?]
  · intro n id
    simp [enclosingMethodFrom?]

theorem bodies_block {id : BlockId} (known : id.val < t.blocks.size) :
    t.bodies (.block id) = .block id :: t.bodies (t.block id).outer := by
  have holds := (scopes.outer_isOpen known).holds
  have within : stepsOut (.block id) ≤ t.blocks.size + 1 := stepsOut_le known
  have closer := scopes.stepsOut_outer known
  rw [bodies, bodiesFrom]
  refine congrArg (BodyId.block id :: ·) ?_
  refine scopes.bound_irrelevant t.bodiesFrom (fun id rest => .block id :: rest) ?_ ?_ ?_ holds
    (by omega) (by omega)
  · intro n id
    rw [bodiesFrom]
  · intro n id
    simp [bodiesFrom]
  · intro n id
    simp [bodiesFrom]

end ScopeTree

/-! ## What the ends of the chains are good for -/

/-- The ways outward from the scopes of the table end, and what is looked up along them is found
scope by scope, without any bound. -/
structure LeadsOutward (t : SymbolTable) : Prop where
  /-- A class in a scope carries the name of the class around that scope, and a name of its own. -/
  named : ∀ id, ∀ scope ∈ (t.symbol id).outer, ∃ own,
    (t.symbol id).name = (t.symbol (t.enclosingSymbol scope)).name ++ "$" ++ own
  method : ∀ id, t.outerOf (.method id) = some (.symbol (t.method id).owner)
  block : ∀ id outer, id.val < t.blocks.size → (t.block id).outer = .block outer → outer.val < id.val
  stays : ∀ scope, t.Holds scope → ∀ outer ∈ t.outerOf scope, t.Holds outer
  ends : ∀ scope, t.Holds scope → climb t.outerOf t.scopeCount scope = none
  classesEnd : ∀ id, id.val < t.size → climb t.outerClass? t.size id = none
  lookupVar : ∀ scope name, t.Holds scope →
    t.lookupVar? scope name = ((t.varsOf scope).find? fun v => (t.var v).name == name).or
      ((t.outerOf scope).bind fun outer => t.lookupVar? outer name)
  isTypeParam : ∀ scope name, t.Holds scope →
    t.isTypeParam scope name = ((t.typeParamsOf scope).contains name
      || (t.outerOf scope).any fun outer => t.isTypeParam outer name)
  enclosingSymbol : ∀ scope, t.Holds scope → t.enclosingSymbol scope
    = match scope with
      | .symbol id => id
      | .method id => (t.method id).owner
      | .block id => t.enclosingSymbol (t.block id).outer
  enclosingMethod : ∀ scope, t.Holds scope → t.enclosingMethod? scope
    = match scope with
      | .symbol _ => none
      | .method id => some id
      | .block id => t.enclosingMethod? (t.block id).outer
  bodies : ∀ scope, t.Holds scope → t.bodies scope
    = match scope with
      | .symbol _ => []
      | .method id => [.method id]
      | .block id => .block id :: t.bodies (t.block id).outer
  enclosingClasses : ∀ id, id.val < t.size → t.enclosingClasses id
    = id ::
      match (t.symbol id).outer with
      | some outer => t.enclosingClasses (t.enclosingSymbol outer)
      | none => []

theorem Forest.leadsOutward (forest : t.Forest) : t.LeadsOutward where
  named id scope around := by
    have outer : t.outerClass? id = some (t.enclosingSymbol scope) := by
      rw [outerClass?, around, Option.map_some]
    exact forest.classes.named id _ outer
  method _ := rfl
  block id outer known is := forest.scopes.inward id outer (is ▸ if_pos known)
  stays scope holds outer step := (forest.outerOf_lower scope outer holds step).1
  ends _ holds := forest.climb_outerOf holds
  classesEnd _ known := forest.climb_outerClass known
  lookupVar scope name holds := by
    rw [lookupVar?, forest.outward_eq holds, List.findSome?_cons]
    cases here : (t.varsOf scope).find? fun v => (t.var v).name == name with
    | some v => simp
    | none =>
      cases t.outerOf scope with
      | none => simp
      | some outer => simp [lookupVar?]
  isTypeParam scope name holds := by
    rw [isTypeParam, forest.outward_eq holds, List.any_cons]
    cases t.outerOf scope with
    | none => simp
    | some outer => simp [isTypeParam]
  enclosingSymbol scope holds := by
    cases scope with
    | symbol id => simp [enclosingSymbol, enclosingSymbolFrom]
    | method id => simp [enclosingSymbol, enclosingSymbolFrom]
    | block id => exact forest.scopes.enclosingSymbol_block holds
  enclosingMethod scope holds := by
    cases scope with
    | symbol id => simp [enclosingMethod?, enclosingMethodFrom?]
    | method id => simp [enclosingMethod?, enclosingMethodFrom?]
    | block id => exact forest.scopes.enclosingMethod_block holds
  bodies scope holds := by
    cases scope with
    | symbol id => simp [bodies, bodiesFrom]
    | method id => simp [bodies, bodiesFrom]
    | block id => exact forest.scopes.bodies_block holds
  enclosingClasses id known := forest.enclosingClasses_eq known

end SymbolTable

/-! ## Runs -/

namespace Context

/-- What a walk comes to is in order, also in the middle of it. -/
theorem Owned.steps {a b : Context} (owned : a.Owned) (steps : Steps a b) : b.Owned :=
  steps.keeps (fun step owned => owned.act step) (fun begins owned => owned.opens begins)
    (fun isOpen owned => owned.defineComplete isOpen) owned

theorem Owned.analyzeFiles {cx : Context} (owned : cx.Owned) (units : List SourceUnit) :
    (cx.analyzeFiles units).Owned := by
  induction units generalizing cx with
  | nil => exact owned
  | cons unit rest ih => exact ih (owned.perform (.analyze unit))

/-- After any files, and in every state that the walk of a further file comes to, the ways outward
end. -/
theorem analyzeFiles_leadsOutward (options : Options) (units : List SourceUnit) :
    ((start options).analyzeFiles units).table.LeadsOutward
      ∧ ∀ (name : String) (level : Level) (state : Context),
        Steps (((start options).analyzeFiles units).addFile name level).2 state →
        state.table.LeadsOutward := by
  have owned := (owned_start options).analyzeFiles units
  refine ⟨owned.forest.leadsOutward, ?_⟩
  intro name level state steps
  have underway := (owned.addFile name level).steps steps
  exact underway.forest.leadsOutward

end Context

end LevelCheck
