import LevelCheck.Proofs.Lifecycle
import LevelCheck.Proofs.ScopeFacts
set_option autoImplicit false

/-! # Scopes that stand for each other

One table may hold the scopes of another among scopes of its own: it was there first, or other files
have left their classes in it. A class of the one stands for the class of the same name in the other,
and a method or a block for the one that comes as much later as the table held methods or blocks
before. `Beside` says that scopes that stand for each other show the same facts and lie in scopes that
stand for each other. What a walk reads on its way outward is then the same in both tables, and a
change of both tables at scopes that stand for each other keeps them beside each other. -/

namespace LevelCheck

theorem optionRel_imp {α β : Type} {R S : α → β → Prop} (imp : ∀ x y, R x y → S x y) {x : Option α}
    {y : Option β} (rel : Option.Rel R x y) : Option.Rel S x y := by
  cases rel with
  | none => exact .none
  | some both => exact .some (imp _ _ both)

namespace SymbolTable

/-! ## Scopes that stand for each other -/

/-- How many methods and blocks a table held before those that stand for others. -/
structure Offsets where
  methods : Nat
  blocks : Nat

/-- Classes of one name stand for each other, unless they are builtin, and methods and blocks that
come equally late. -/
inductive Offsets.Pairs (k : Offsets) (t t' : SymbolTable) : ScopeRef → ScopeRef → Prop where
  | symbol {id id' : SymbolId} (name : (t.symbol id).name = (t'.symbol id').name)
      (own : (t.symbol id).name ∉ Builtin.names) : Pairs k t t' (.symbol id) (.symbol id')
  | method {id id' : MethodId} (later : id.val = k.methods + id'.val) :
      Pairs k t t' (.method id) (.method id')
  | block {id id' : BlockId} (later : id.val = k.blocks + id'.val) :
      Pairs k t t' (.block id) (.block id')

/-- Open scopes of two tables that stand for each other. -/
structure Twins (k : Offsets) (t t' : SymbolTable) (s s' : ScopeRef) : Prop where
  isOpen : t.IsOpen s
  isOpen' : t'.IsOpen s'
  pairs : k.Pairs t t' s s'

namespace Twins

variable {k : Offsets} {t t' u u' : SymbolTable} {s s' r r' : ScopeRef}

/-- Scopes stand for each other as long as the tables grow. -/
theorem grow (twins : Twins k t t' s s') (grows : t.Grows u) (grows' : t'.Grows u') :
    Twins k u u' s s' := by
  obtain ⟨isOpen, isOpen', pairs⟩ := twins
  refine ⟨grows.isOpen isOpen, grows'.isOpen isOpen', ?_⟩
  cases pairs with
  | @symbol id id' name own =>
    rw [← grows.name id isOpen.1] at name own
    rw [← grows'.name id' isOpen'.1] at name
    exact .symbol name own
  | method later => exact .method later
  | block later => exact .block later

/-- Scopes that have been open before stood for each other then. -/
theorem back (twins : Twins k u u' s s') (grows : t.Grows u) (grows' : t'.Grows u')
    (isOpen : t.IsOpen s) (isOpen' : t'.IsOpen s') : Twins k t t' s s' := by
  refine ⟨isOpen, isOpen', ?_⟩
  cases twins.pairs with
  | @symbol id id' name own =>
    rw [grows.name id isOpen.1] at name own
    rw [grows'.name id' isOpen'.1] at name
    exact .symbol name own
  | method later => exact .method later
  | block later => exact .block later

/-- Each scope stands for one other, and no two for the same. -/
theorem unique (twins : Twins k t t' s s') (others : Twins k t t' r r') (names : t.UniqueNames)
    (names' : t'.UniqueNames) : s = r ↔ s' = r' := by
  obtain ⟨isOpen, isOpen', pairs⟩ := twins
  obtain ⟨otherOpen, otherOpen', otherPairs⟩ := others
  cases pairs with
  | @symbol id id' name own =>
    cases otherPairs with
    | @symbol c c' name' own' =>
      -- the classes of a pair have one name, and there is no other of that name
      rw [ScopeRef.symbol.injEq, ScopeRef.symbol.injEq]
      constructor
      · rintro rfl
        exact names' id' c' isOpen'.1 otherOpen'.1 (name.symm.trans name')
      · rintro rfl
        exact names id c isOpen.1 otherOpen.1 (name.trans name'.symm)
    | method | block => simp
  | method later =>
    cases otherPairs with
    | method later' =>
      rw [ScopeRef.method.injEq, ScopeRef.method.injEq, MethodId.ext_iff, MethodId.ext_iff]
      omega
    | symbol | block => simp
  | block later =>
    cases otherPairs with
    | block later' =>
      rw [ScopeRef.block.injEq, ScopeRef.block.injEq, BlockId.ext_iff, BlockId.ext_iff]
      omega
    | symbol | method => simp

end Twins

/-- The scopes of the second table stand for scopes of the first, which show the same facts and lie in
scopes that stand for each other. -/
structure Beside (k : Offsets) (t t' : SymbolTable) : Prop where
  methods : t.methods.size = k.methods + t'.methods.size
  blocks : t.blocks.size = k.blocks + t'.blocks.size
  declares : ∀ name, t'.Declares name → t.Declares name
  facts : ∀ s s', Twins k t t' s s' → t.facts s = t'.facts s'
  around : ∀ s s', Twins k t t' s s' → Option.Rel (Twins k t t') (t.around? s) (t'.around? s')

/-- A change that opens no class declares none. -/
theorem Touches.declares {t u : SymbolTable} {touched : Option ScopeRef}
    (touches : t.Touches u touched) (before : ∀ id, .symbol id ∈ touched → t.IsOpen (.symbol id))
    (name : String) : u.Declares name ↔ t.Declares name :=
  touches.grows.declares_iff (fun id declared =>
    (touches.older (before id) ⟨known_of_isDeclared declared, declared⟩).2) name

namespace Beside

variable {k : Offsets} {t t' u u' : SymbolTable}

section

variable (beside : Beside k t t') {touched touched' : Option ScopeRef}
  (touches : t.Touches u touched) (touches' : t'.Touches u' touched')
  (apart : ∀ s s', Twins k u u' s s' → (s ∈ touched ↔ s' ∈ touched'))
include beside touches touches' apart

/-- Tables that change at scopes that stand for each other stay beside each other. -/
theorem step (methods : u.methods.size = k.methods + u'.methods.size)
    (blocks : u.blocks.size = k.blocks + u'.blocks.size)
    (declares : ∀ name, u'.Declares name → u.Declares name)
    (pair : ∀ s ∈ touched, ∀ s' ∈ touched', u.facts s = u'.facts s'
      ∧ Option.Rel (Twins k u u') (u.around? s) (u'.around? s')) : Beside k u u' := by
  -- scopes that the changes do not touch stood for each other before
  have older {s s' : ScopeRef} (twins : Twins k u u' s s') (here : s ∉ touched) :
      s' ∉ touched' ∧ Twins k t t' s s' := by
    have there : s' ∉ touched' := fun isIn => here ((apart s s' twins).2 isIn)
    exact ⟨there, twins.back touches.grows touches'.grows (touches.isOpen s here twins.isOpen)
      (touches'.isOpen s' there twins.isOpen')⟩
  refine ⟨methods, blocks, declares, fun s s' twins => ?_, fun s s' twins => ?_⟩
  · by_cases here : s ∈ touched
    · exact (pair s here s' ((apart s s' twins).1 here)).1
    · obtain ⟨there, before⟩ := older twins here
      rw [touches.facts s here before.isOpen, touches'.facts s' there before.isOpen',
        beside.facts s s' before]
  · by_cases here : s ∈ touched
    · exact (pair s here s' ((apart s s' twins).1 here)).2
    · obtain ⟨-, before⟩ := older twins here
      rw [touches.grows.around before.isOpen, touches'.grows.around before.isOpen']
      exact optionRel_imp (fun _ _ outer => outer.grow touches.grows touches'.grows)
        (beside.around s s' before)

/-- If the scopes have been open before, then no more than the facts about them can change. -/
theorem step_older (older : ∀ s ∈ touched, t.IsOpen s) (older' : ∀ s ∈ touched', t'.IsOpen s)
    (pair : ∀ s ∈ touched, ∀ s' ∈ touched', Twins k t t' s s' ∧ u.facts s = u'.facts s') :
    Beside k u u' := by
  refine beside.step touches touches' apart ?_ ?_ (fun name => ?_) fun s here s' there => ?_
  · rw [touches.methods_size fun id => older _, touches'.methods_size fun id => older' _,
      beside.methods]
  · rw [touches.blocks_size fun id => older _, touches'.blocks_size fun id => older' _, beside.blocks]
  · rw [touches.declares fun id => older _, touches'.declares fun id => older' _]
    exact beside.declares name
  · obtain ⟨twins, facts⟩ := pair s here s' there
    rw [touches.grows.around twins.isOpen, touches'.grows.around twins.isOpen']
    exact ⟨facts, optionRel_imp (fun _ _ outer => outer.grow touches.grows touches'.grows)
      (beside.around s s' twins)⟩

end

/-- A change that does not show. -/
theorem quiet (beside : Beside k t t') (touches : t.Touches u none)
    (touches' : t'.Touches u' none) : Beside k u u' :=
  beside.step_older touches touches' (fun _ _ _ => ⟨nofun, nofun⟩) nofun nofun nofun

/-- A change of open scopes that stand for each other. -/
theorem change (beside : Beside k t t') {r r' : ScopeRef} (twins : Twins k t t' r r')
    (touches : t.Touches u (some r)) (touches' : t'.Touches u' (some r')) (names : t.UniqueNames)
    (names' : t'.UniqueNames) (facts : u.facts r = u'.facts r') : Beside k u u' := by
  have only {s : ScopeRef} {r : ScopeRef} : s ∈ some r ↔ s = r := by
    rw [Option.mem_some, eq_comm]
  refine beside.step_older touches touches' (fun s s' both => ?_) ?_ ?_ ?_
  · -- one of the scopes has been open before, so the other has been as well
    have before (isOpen : t.IsOpen s) (isOpen' : t'.IsOpen s') : s = r ↔ s' = r' :=
      (both.back touches.grows touches'.grows isOpen isOpen').unique twins names names'
    rw [only, only]
    by_contra differ
    have isOpen : t.IsOpen s := by
      by_cases is : s = r
      · exact is ▸ twins.isOpen
      · exact touches.isOpen s (fun isIn => is (only.1 isIn)) both.isOpen
    have isOpen' : t'.IsOpen s' := by
      by_cases is : s' = r'
      · exact is ▸ twins.isOpen'
      · exact touches'.isOpen s' (fun isIn => is (only.1 isIn)) both.isOpen'
    exact differ (before isOpen isOpen')
  · rintro s ⟨⟩
    exact twins.isOpen
  · rintro s ⟨⟩
    exact twins.isOpen'
  · rintro s ⟨⟩ s' ⟨⟩
    exact ⟨twins, facts⟩

/-- Scopes that stand for each other are opened. -/
theorem enter (beside : Beside k t t') {r r' : ScopeRef} (twins : Twins k u u' r r')
    (touches : t.Touches u (some r)) (touches' : t'.Touches u' (some r')) (names : u.UniqueNames)
    (names' : u'.UniqueNames) (methods : u.methods.size = k.methods + u'.methods.size)
    (blocks : u.blocks.size = k.blocks + u'.blocks.size)
    (declares : ∀ name, u'.Declares name → u.Declares name) (facts : u.facts r = u'.facts r')
    (around : Option.Rel (Twins k u u') (u.around? r) (u'.around? r')) : Beside k u u' := by
  refine beside.step touches touches' (fun s s' both => ?_) methods blocks declares ?_
  · rw [Option.mem_some, Option.mem_some, eq_comm (a := r), eq_comm (a := r')]
    exact both.unique twins names names'
  · rintro s ⟨⟩ s' ⟨⟩
    exact ⟨facts, around⟩

/-! ### The way outward -/

section

variable (beside : Beside k t t') (scopes : t.ScopeTree)
include beside scopes

/-- What holds of classes and methods that stand for each other, and is passed on inward from block to
block, holds of all scopes that stand for each other. -/
theorem induct {P : ScopeRef → ScopeRef → Prop}
    (symbol : ∀ id id', Twins k t t' (.symbol id) (.symbol id') → P (.symbol id) (.symbol id'))
    (method : ∀ id id', Twins k t t' (.method id) (.method id') → P (.method id) (.method id'))
    (block : ∀ id id', Twins k t t' (.block id) (.block id') →
      P (t.block id).outer (t'.block id').outer → P (.block id) (.block id'))
    {s s' : ScopeRef} (twins : Twins k t t' s s') : P s s' := by
  have within (n : Nat) : ∀ s s', Twins k t t' s s' → stepsOut s ≤ n → P s s' := by
    induction n with
    | zero => exact fun s s' _ bound => absurd bound (Nat.not_le.2 (stepsOut_pos s))
    | succ n ih =>
      intro s s' twins bound
      cases twins.pairs with
      | symbol => exact symbol _ _ twins
      | method => exact method _ _ twins
      | @block id id' =>
        -- the blocks lie in scopes that stand for each other, and are closer to the class
        have closer := scopes.stepsOut_outer twins.isOpen
        cases beside.around _ _ twins with
        | some outer => exact block id id' twins (ih _ _ outer (by omega))
  exact within _ s s' twins le_rfl

variable (scopes' : t'.ScopeTree)
include scopes'

/-- The classes around scopes that stand for each other do so as well. -/
theorem enclosingSymbol {s s' : ScopeRef} (twins : Twins k t t' s s') :
    Twins k t t' (.symbol (t.enclosingSymbol s)) (.symbol (t'.enclosingSymbol s')) := by
  refine beside.induct scopes (P := fun s s' =>
    Twins k t t' (.symbol (t.enclosingSymbol s)) (.symbol (t'.enclosingSymbol s'))) ?_ ?_ ?_ twins
  · intro id id' twins
    simpa only [SymbolTable.enclosingSymbol, enclosingSymbolFrom] using twins
  · intro id id' twins
    cases beside.around _ _ twins with
    | some owner => simpa only [SymbolTable.enclosingSymbol, enclosingSymbolFrom] using owner
  · intro id id' twins outer
    rwa [scopes.enclosingSymbol_block twins.isOpen, scopes'.enclosingSymbol_block twins.isOpen']

/-- Whether a body lies in a constructor is the same in both tables. -/
theorem isConstructor {body body' : BodyId} (twins : Twins k t t' body.scope body'.scope) :
    t.isConstructor body = t'.isConstructor body' := by
  have methods := beside.induct scopes (P := fun s s' =>
    Option.Rel (fun id id' => Twins k t t' (.method id) (.method id')) (t.enclosingMethod? s)
      (t'.enclosingMethod? s')) (fun id id' _ => ?_) (fun id id' twins => ?_)
      (fun id id' twins outer => ?_) twins
  · rw [SymbolTable.isConstructor, SymbolTable.isConstructor]
    generalize t.enclosingMethod? body.scope = found at *
    generalize t'.enclosingMethod? body'.scope = found' at *
    cases methods with
    | none => rfl
    | some twins => exact congrArg ScopeFacts.isConstructor (beside.facts _ _ twins)
  · simp only [enclosingMethod?, enclosingMethodFrom?]
    exact .none
  · simp only [enclosingMethod?, enclosingMethodFrom?]
    exact .some twins
  · rwa [scopes.enclosingMethod_block twins.isOpen, scopes'.enclosingMethod_block twins.isOpen']

/-- The names that a new variable must not repeat are the same in both tables. -/
theorem namesInBody {body body' : BodyId} (twins : Twins k t t' body.scope body'.scope)
    (policy : DuplicateScope) : t.namesInBody body policy = t'.namesInBody body' policy := by
  have names (t : SymbolTable) (body : BodyId) :
      t.varNames (t.bodyVars body) = (t.facts body.scope).names := by
    cases body <;> rfl
  cases policy with
  | immediate =>
    rw [SymbolTable.namesInBody, SymbolTable.namesInBody, names, names, beside.facts _ _ twins]
  | enclosingBodies =>
    refine beside.induct scopes (P := fun s s' =>
      (t.bodies s).flatMap (fun b => t.varNames (t.bodyVars b))
        = (t'.bodies s').flatMap fun b => t'.varNames (t'.bodyVars b)) ?_ ?_ ?_ twins
    · intro id id' _
      simp [bodies, bodiesFrom]
    · intro id id' twins
      have same : t.varNames (t.bodyVars (.method id)) = t'.varNames (t'.bodyVars (.method id')) :=
        congrArg ScopeFacts.names (beside.facts _ _ twins)
      simpa [bodies, bodiesFrom] using same
    · intro id id' twins outer
      have same := congrArg ScopeFacts.names (beside.facts _ _ twins)
      rw [scopes.bodies_block twins.isOpen, scopes'.bodies_block twins.isOpen', List.flatMap_cons,
        List.flatMap_cons, outer]
      exact congrArg (· ++ _) same

end

end Beside

end SymbolTable

end LevelCheck
