import LevelCheck.Proofs.ScopeChains
set_option autoImplicit false

/-! # Declarations of variables

A declaration registers all its variables, those whose names collide like any other. A name collides
where it stands if it is taken by then: by a variable that was there before, or by an earlier one of
the same declaration. Which variables were there before is what parameters, fields and local
variables differ in. For local variables it depends on a policy, and may be up to the bodies around
the one that declares them; on the way outward blocks have lower and lower numbers, so the way is
followed to its end. -/

namespace LevelCheck

/-! ## Collisions -/

/-- The name at the place collides: it is taken, or stands at an earlier place as well. -/
def CollidesAt (taken : String → Prop) (names : List String) (i : Nat) (n : String) : Prop :=
  names[i]? = some n ∧ (taken n ∨ ∃ j < i, names[j]? = some n)

/-- The first of two names collides before the other one ever does. -/
def CollidesBefore (taken : String → Prop) (names : List String) (m n : String) : Prop :=
  ∃ i, CollidesAt taken names i m ∧ ∀ j ≤ i, ¬ CollidesAt taken names j n

section

variable {seen : List String} {name : String} {rest : List String}

theorem collidesAt_zero {n : String} : CollidesAt (· ∈ seen) (name :: rest) 0 n
    ↔ name = n ∧ name ∈ seen := by
  simp only [CollidesAt, List.getElem?_cons_zero, Option.some.injEq, Nat.not_lt_zero, false_and,
    exists_false, or_false]
  constructor
  · rintro ⟨rfl, known⟩
    exact ⟨rfl, known⟩
  · rintro ⟨rfl, known⟩
    exact ⟨rfl, known⟩

/-- What stands behind a name is held against that name too. -/
theorem collidesAt_succ {i : Nat} {n : String} : CollidesAt (· ∈ seen) (name :: rest) (i + 1) n
    ↔ CollidesAt (· ∈ name :: seen) rest i n := by
  simp only [CollidesAt, List.getElem?_cons_succ, List.mem_cons]
  refine and_congr_right fun _ => ?_
  constructor
  · rintro (known | ⟨j, before, stands⟩)
    · exact .inl (.inr known)
    · cases j with
      | zero => exact .inl (.inl (Option.some.inj stands).symm)
      | succ j => exact .inr ⟨j, Nat.lt_of_succ_lt_succ before, stands⟩
  · rintro ((rfl | known) | ⟨j, before, stands⟩)
    · exact .inr ⟨0, Nat.succ_pos i, rfl⟩
    · exact .inl known
    · exact .inr ⟨j + 1, Nat.succ_lt_succ before, stands⟩

theorem CollidesBefore.cons {m n : String}
    (later : CollidesBefore (· ∈ name :: seen) rest m n) (notHere : ¬ (name = n ∧ name ∈ seen)) :
    CollidesBefore (· ∈ seen) (name :: rest) m n := by
  obtain ⟨i, collides, free⟩ := later
  refine ⟨i + 1, collidesAt_succ.2 collides, fun j within => ?_⟩
  cases j with
  | zero => exact mt collidesAt_zero.1 notHere
  | succ j => exact mt collidesAt_succ.1 (free j (Nat.le_of_succ_le_succ within))

end

/-! ## Bodies among the scopes -/

theorem BodyId.scope_injective : Function.Injective BodyId.scope := by
  intro body other same
  cases body <;> cases other <;> cases same <;> rfl

theorem ScopeRef.eq_symbol_or_body (scope : ScopeRef) :
    (∃ id, scope = .symbol id) ∨ ∃ body : BodyId, scope = body.scope := by
  cases scope with
  | symbol id => exact .inl ⟨id, rfl⟩
  | method id => exact .inr ⟨.method id, rfl⟩
  | block id => exact .inr ⟨.block id, rfl⟩

namespace SymbolTable

/-- Names are reported in the order in which they first collide. -/
theorem pairwise_collisions (seen reported names : List String) :
    (collisions seen reported names).Pairwise (CollidesBefore (· ∈ seen) names) := by
  induction names generalizing seen reported with
  | nil => exact .nil
  | cons name rest ih =>
    unfold collisions
    by_cases known : name ∈ seen
    · -- a name that has been seen before adds nothing to what has been seen
      have same : (· ∈ name :: seen) = (· ∈ seen) := by
        funext n
        simp only [List.mem_cons, eq_iff_iff, or_iff_right_iff_imp]
        rintro rfl
        exact known
      have later (reported : List String) (isReported : name ∈ reported) :
          (collisions seen reported rest).Pairwise (CollidesBefore (· ∈ seen) (name :: rest)) := by
        refine (ih seen reported).imp_of_mem fun {m n} _ isIn before => ?_
        rw [← same] at before
        refine before.cons ?_
        rintro ⟨rfl, -⟩
        exact (mem_collisions.1 isIn).1 isReported
      by_cases twice : name ∈ reported
      · simpa [known, twice] using later reported twice
      · have first : ∀ n ∈ collisions seen (name :: reported) rest,
            CollidesBefore (· ∈ seen) (name :: rest) name n := by
          intro n isIn
          refine ⟨0, collidesAt_zero.2 ⟨rfl, known⟩, fun j within collides => ?_⟩
          obtain rfl := Nat.le_zero.1 within
          obtain ⟨rfl, -⟩ := collidesAt_zero.1 collides
          exact (mem_collisions.1 isIn).1 List.mem_cons_self
        simpa [known, twice] using ⟨first, later (name :: reported) List.mem_cons_self⟩
    · have later := (ih (name :: seen) reported).imp fun {m n} before =>
        before.cons fun here => known here.2
      simpa [known] using later

/-! ## What is taken -/

/-- Blocks in blocks have higher numbers than those around them. -/
def NumbersInward (t : SymbolTable) : Prop :=
  ∀ id outer, (t.block id).outer = .block outer → outer.val < id.val

/-- The second body is the first one or lies around it, within the method or the initializer. -/
inductive LiesAround (t : SymbolTable) : BodyId → BodyId → Prop where
  | here (body : BodyId) : t.LiesAround body body
  | further {id : BlockId} {outer around : BodyId} (lies : (t.block id).outer = outer.scope)
      (further : t.LiesAround outer around) : t.LiesAround (.block id) around

/-- The name is that of a variable that a new one in the body must not repeat. -/
def IsTaken (t : SymbolTable) (body : BodyId) (policy : DuplicateScope) (n : String) : Prop :=
  match policy with
  | .immediate => ∃ v ∈ t.bodyVars body, (t.var v).name = n
  | .enclosingBodies => ∃ around, t.LiesAround body around
      ∧ ∃ v ∈ t.bodyVars around, (t.var v).name = n

section

variable {t : SymbolTable}

theorem liesAround_method {id : MethodId} {around : BodyId} :
    t.LiesAround (.method id) around ↔ around = .method id := by
  constructor
  · rintro ⟨⟩
    rfl
  · rintro rfl
    exact .here _

theorem liesAround_block {id : BlockId} {around : BodyId} : t.LiesAround (.block id) around
    ↔ around = .block id ∨ ∃ outer : BodyId, (t.block id).outer = outer.scope
      ∧ t.LiesAround outer around := by
  constructor
  · rintro (_ | ⟨lies, further⟩)
    · exact .inl rfl
    · exact .inr ⟨_, lies, further⟩
  · rintro (rfl | ⟨outer, lies, further⟩)
    · exact .here _
    · exact .further lies further

/-- The way outward from a block is followed to its end within as many steps as its number says. -/
theorem mem_bodiesFrom (inward : t.NumbersInward) {n : Nat} {body around : BodyId}
    (enough : ∀ id, body = .block id → id.val < n) :
    around ∈ t.bodiesFrom (n + 1) body.scope ↔ t.LiesAround body around := by
  induction n generalizing body with
  | zero =>
    cases body with
    | method id => simp [BodyId.scope, bodiesFrom, liesAround_method]
    | block id => exact absurd (enough id rfl) (Nat.not_lt_zero _)
  | succ n ih =>
    cases body with
    | method id => simp [BodyId.scope, bodiesFrom, liesAround_method]
    | block id =>
      have within := enough id rfl
      rw [BodyId.scope, bodiesFrom, List.mem_cons, liesAround_block]
      refine or_congr_right ?_
      -- the way ends at a class; from a body it goes on
      rcases (t.block id).outer.eq_symbol_or_body with ⟨s, lies⟩ | ⟨outer, lies⟩
      · rw [lies]
        refine ⟨fun isIn => absurd isIn List.not_mem_nil, ?_⟩
        rintro ⟨other, is, -⟩
        cases other <;> cases is
      · have lower : ∀ b, outer = .block b → b.val < n := by
          rintro b rfl
          have := inward id b lies
          omega
        rw [lies, ih lower]
        refine ⟨fun further => ⟨outer, rfl, further⟩, ?_⟩
        rintro ⟨other, is, further⟩
        rwa [BodyId.scope_injective is]

theorem mem_bodies_iff (inward : t.NumbersInward) {body around : BodyId}
    (holds : t.Holds body.scope) :
    around ∈ t.bodies body.scope ↔ t.LiesAround body around := by
  refine mem_bodiesFrom inward fun id is => ?_
  subst is
  exact holds

theorem mem_namesInBody_iff (inward : t.NumbersInward) {body : BodyId} (holds : t.Holds body.scope)
    (policy : DuplicateScope) (n : String) :
    n ∈ t.namesInBody body policy ↔ t.IsTaken body policy n := by
  cases policy with
  | immediate => rw [namesInBody, varNames, List.mem_map, IsTaken]
  | enclosingBodies =>
    simp only [namesInBody, List.mem_flatMap, varNames, List.mem_map, IsTaken,
      mem_bodies_iff inward holds]

end

/-! ## What a declaration registers -/

/-- The variables have been appended and listed, and those that collide have been reported. -/
structure Registers (t : SymbolTable) (vars : List Variable) (taken : String → Prop)
    (list : SymbolTable → List VariableId → SymbolTable) (result : Declared × SymbolTable) :
    Prop where
  /-- The ids are the next ones, in the order of the variables. -/
  ids : result.1.ids = (List.range vars.length).map fun i => ⟨t.vars.size + i⟩
  appended : result.2.vars = t.vars ++ vars.toArray
  /-- Apart from the new variables, the table differs in the list of one scope. -/
  table : result.2 = list (t.appendVars vars) result.1.ids
  nodup : result.1.duplicates.Nodup
  reports : ∀ n, n ∈ result.1.duplicates
    ↔ n ∈ vars.map (·.name) ∧ (2 ≤ (vars.map (·.name)).count n ∨ taken n)
  ordered : result.1.duplicates.Pairwise (CollidesBefore taken (vars.map (·.name)))

theorem nextVariables_eq (t : SymbolTable) (count : Nat) :
    t.nextVariables count = (List.range count).map fun i => ⟨t.vars.size + i⟩ := by
  rw [nextVariables, List.range'_eq_map_range, List.map_map]
  rfl

/-- What a declaration reports depends on the names that it is held against. -/
theorem declare_registers (t : SymbolTable) {seen : List String} {taken : String → Prop}
    (isSeen : ∀ n, n ∈ seen ↔ taken n) (vars : List Variable)
    {list : SymbolTable → List VariableId → SymbolTable} (keeps : ∀ u ids, (list u ids).vars = u.vars)
    {result : Declared × SymbolTable} (declared : result.1 = (t.declare seen vars).1)
    (table : result.2 = list (t.appendVars vars) (t.nextVariables vars.length)) :
    t.Registers vars taken list result := by
  obtain rfl : (· ∈ seen) = taken := funext fun n => propext (isSeen n)
  rw [declare_fst] at declared
  have ids := congrArg Declared.ids declared
  have duplicates := congrArg Declared.duplicates declared
  refine ⟨ids.trans (nextVariables_eq t vars.length), ?_, ?_, ?_, fun n => ?_, ?_⟩
  · rw [table, keeps, appendVars]
  · rw [table, ids]
  · rw [duplicates]
    exact nodup_collisions _ _ _
  · rw [duplicates, mem_collisions, or_comm]
    exact and_iff_right List.not_mem_nil
  · rw [duplicates]
    exact pairwise_collisions _ _ _

/-- List fields in a class. -/
def listFields (id : SymbolId) (t : SymbolTable) (ids : List VariableId) : SymbolTable :=
  t.modifySymbol id fun s => { s with fields := s.fields ++ ids }

/-- List parameters in a method, which makes them the first variables of its body. -/
def listParams (id : MethodId) (t : SymbolTable) (ids : List VariableId) : SymbolTable :=
  t.modifyMethod id fun m => { m with params := m.params ++ ids, vars := m.vars ++ ids }

theorem bodyVars_listVars {t : SymbolTable} {body : BodyId} (holds : t.Holds body.scope)
    (ids : List VariableId) : (t.listVars body ids).bodyVars body = t.bodyVars body ++ ids := by
  cases body with
  | method id => rw [listVars, bodyVars, method_modifyMethod, if_pos ⟨rfl, holds⟩, bodyVars]
  | block id => rw [listVars, bodyVars, block_modifyBlock, if_pos ⟨rfl, holds⟩, bodyVars]

/-- Local variables are held against those of their body, or as the policy has it also against those
of the bodies around it; fields against the fields of their class; and parameters only against each
other. -/
theorem declarations_register (t : SymbolTable) (inward : t.NumbersInward) (vars : List Variable) :
    (∀ (body : BodyId) (policy : DuplicateScope), t.Holds body.scope →
      t.Registers vars (t.IsTaken body policy) (fun u ids => u.listVars body ids)
        (t.addVars body vars policy)
      ∧ (t.addVars body vars policy).2.bodyVars body
        = t.bodyVars body ++ (t.addVars body vars policy).1.ids)
    ∧ (∀ id : SymbolId, t.Holds (.symbol id) →
      t.Registers vars (fun n => ∃ v ∈ (t.symbol id).fields, (t.var v).name = n) (listFields id)
        (t.addFields id vars)
      ∧ ((t.addFields id vars).2.symbol id).fields
        = (t.symbol id).fields ++ (t.addFields id vars).1.ids)
    ∧ ∀ id : MethodId, t.Holds (.method id) →
      t.Registers vars (fun _ => False) (listParams id) (t.addParams id vars)
      ∧ ((t.addParams id vars).2.method id).params
        = (t.method id).params ++ (t.addParams id vars).1.ids
      ∧ ((t.addParams id vars).2.method id).vars
        = (t.method id).vars ++ (t.addParams id vars).1.ids := by
  refine ⟨fun body policy holds => ⟨?_, ?_⟩, fun id known => ⟨?_, ?_⟩, fun id known => ⟨?_, ?_⟩⟩
  · refine t.declare_registers (mem_namesInBody_iff inward holds policy) vars (fun u ids => ?_) ?_
      (t.addVars_table body vars policy)
    · cases body <;> rfl
    · cases body <;> rfl
  · rw [addVars_table, addVars_ids]
    exact bodyVars_listVars (t := t.appendVars vars) holds _
  · have isSeen (n : String) : n ∈ t.varNames (t.symbol id).fields
        ↔ ∃ v ∈ (t.symbol id).fields, (t.var v).name = n := by
      rw [varNames, List.mem_map]
    refine t.declare_registers isSeen vars (fun u ids => ?_) ?_ (t.addFields_table id vars)
    · rfl
    · rfl
  · rw [addFields_table, addFields_ids, symbol_modifySymbol, if_pos ⟨rfl, known⟩]
    rfl
  · have isSeen (n : String) : n ∈ ([] : List String) ↔ False :=
      iff_of_false List.not_mem_nil not_false
    refine t.declare_registers isSeen vars (fun u ids => ?_) ?_ (t.addParams_table id vars)
    · rfl
    · rfl
  · rw [addParams_table, addParams_ids, method_modifyMethod, if_pos ⟨rfl, known⟩]
    exact ⟨rfl, rfl⟩

/-- The tables of runs, and all others whose blocks are listed by the scopes they lie in. -/
theorem ScopeTree.numbersInward {t : SymbolTable} (scopes : t.ScopeTree) : t.NumbersInward := by
  intro id outer lies
  by_cases known : id.val < t.blocks.size
  · exact scopes.inward id outer (lies ▸ if_pos known)
  · rw [block, Array.getD_eq_getD_getElem?, Array.getElem?_eq_none (not_lt.1 known)] at lies
    cases lies

/-- A class with a field `x`, and a method that has a parameter `y` and a block that declares `z`
and holds another block. -/
def nestedBlocks : SourceUnit where
  level := .full
  tree :=
    { fileName := "A.java", root := ⟨0⟩
      arena := { nodes := #[
        ⟨.nowhere, .sourceFile none [] [⟨1⟩]⟩,
        ⟨⟨1, 1⟩, .classDef [] "A" [] none [] [⟨2⟩, ⟨4⟩]⟩,
        ⟨⟨2, 3⟩, .variableDeclaration [] [⟨3⟩]⟩,
        ⟨⟨2, 7⟩, .variableDeclarator "int" "x" none⟩,
        ⟨⟨3, 3⟩, .methodDef [] [] "void" "m" [⟨5⟩] [] (some ⟨6⟩)⟩,
        ⟨⟨3, 10⟩, .formalParameter false "int" "y"⟩,
        ⟨⟨3, 17⟩, .block [⟨7⟩]⟩,
        ⟨⟨4, 5⟩, .block [⟨8⟩, ⟨10⟩]⟩,
        ⟨⟨5, 7⟩, .variableDeclaration [] [⟨9⟩]⟩,
        ⟨⟨5, 11⟩, .variableDeclarator "int" "z" none⟩,
        ⟨⟨6, 7⟩, .block []⟩] } }

/-- The table of a run over it. -/
def nestedTable : SymbolTable := ((Context.start .usual).performAll [.analyze nestedBlocks]).table

/-- Variables of the names, to be declared in the inner block. -/
def innerVars (names : List String) : List Variable :=
  names.map fun name => .declared name 0 "int" false (.block ⟨1⟩)

theorem declarations_register_nested :
    nestedTable.NumbersInward ∧ nestedTable.Holds (.block ⟨1⟩)
      ∧ nestedTable.Registers (innerVars ["w", "z", "w", "y", "x", "z"])
        (nestedTable.IsTaken (.block ⟨1⟩) .enclosingBodies) (fun u ids => u.listVars (.block ⟨1⟩) ids)
        (nestedTable.addVars (.block ⟨1⟩) (innerVars ["w", "z", "w", "y", "x", "z"]) .enclosingBodies)
      ∧ (nestedTable.addVars (.block ⟨1⟩) (innerVars ["w", "z", "w", "y", "x", "z"])
        .enclosingBodies).1 = ⟨[⟨3⟩, ⟨4⟩, ⟨5⟩, ⟨6⟩, ⟨7⟩, ⟨8⟩], ["z", "w", "y"]⟩ := by
  have owned := (Context.owned_start .usual).performAll [.analyze nestedBlocks]
  have inward : nestedTable.NumbersInward := owned.forest.scopes.numbersInward
  have holds : nestedTable.Holds (.block ⟨1⟩) :=
    show (1 : Nat) < nestedTable.blocks.size by decide +kernel
  have registers := (declarations_register nestedTable inward
    (innerVars ["w", "z", "w", "y", "x", "z"])).1 (.block ⟨1⟩) .enclosingBodies holds
  exact ⟨inward, holds, registers.1, by decide +kernel⟩

end SymbolTable

end LevelCheck
