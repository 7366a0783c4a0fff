import LevelCheck.Proofs.Misfits
set_option autoImplicit false

/-! # Names under calls of any kind

Four calls add classes to a table or bring their declarations on. A reference and a declaration look
for the name before they add a class; registering a builtin class does not. So the names of a table
stay unique under any sequence of calls if and only if no class is registered under a name that is in
use, and a class is denoted by its name exactly until another one is registered under it. -/

namespace LevelCheck

/-- What can be asked of a table about classes. -/
inductive TableCall where
  /-- The class of a name, which is only referred to if the name is new. -/
  | placeholder (name : String)
  /-- Begin the declaration of a name. -/
  | declare (name : String)
  /-- The declaration of a class has been visited. -/
  | finish (id : SymbolId)
  /-- Register a class that no source declares. -/
  | builtin (name : String) (isPrimitive : Bool)
  deriving DecidableEq, Repr

/-- The name that is asked for. -/
def TableCall.name? : TableCall → Option String
  | .placeholder name => some name
  | .declare name => some name
  | .finish _ => none
  | .builtin name _ => some name

namespace SymbolTable

/-- Do what is asked for. A call that is about a name returns its class; so does the refusal of a
declaration, which changes nothing. -/
def call (t : SymbolTable) : TableCall → Option SymbolId × SymbolTable
  | .placeholder name => ((t.getOrAddPlaceholder name).1, (t.getOrAddPlaceholder name).2)
  | .declare name =>
    match t.beginDefinition name with
    | .ok (id, next) => (id, next)
    | .error id => (id, t)
  | .finish id => (none, t.finishDefinition id)
  | .builtin name isPrimitive => ((t.addBuiltin name isPrimitive).1, (t.addBuiltin name isPrimitive).2)

/-- Do what is asked for, in order. -/
def callAll (t : SymbolTable) (calls : List TableCall) : SymbolTable :=
  calls.foldl (fun t c => (t.call c).2) t

/-- Every class is registered under a name that the table does not have and that no call before is
about. -/
def RegistersFresh (t : SymbolTable) (calls : List TableCall) : Prop :=
  ∀ before name isPrimitive after, calls = before ++ .builtin name isPrimitive :: after →
    t.lookup? name = none ∧ ∀ c ∈ before, c.name? ≠ some name

/-! ## What a name denotes in a table with one more class -/

variable {t u : SymbolTable} {name : String} {id : SymbolId}

theorem lookupBelow_congr {n : Nat} (same : ∀ i < n, (u.symbol ⟨i⟩).name = (t.symbol ⟨i⟩).name) :
    u.lookupBelow name n = t.lookupBelow name n := by
  induction n with
  | zero => rfl
  | succ n ih =>
    rw [lookupBelow, lookupBelow, same n n.lt_succ_self]
    rw [ih fun i below => same i (below.trans n.lt_succ_self)]

theorem lookup_addSymbol (t : SymbolTable) (s : Symbol) (name : String) :
    (t.addSymbol s).2.lookup? name = if s.name = name then some ⟨t.size⟩ else t.lookup? name := by
  rw [lookup?, size_addSymbol, lookupBelow, symbol_addSymbol, if_pos rfl]
  refine if_congr Iff.rfl rfl (lookupBelow_congr fun i below => ?_)
  rw [symbol_addSymbol, if_neg below.ne]

/-- A class keeps the names unique if its own is new. -/
theorem uniqueNames_addSymbol (s : Symbol) :
    (t.addSymbol s).2.UniqueNames ↔ t.UniqueNames ∧ t.lookup? s.name = none := by
  have old {i : SymbolId} (known : i.val < t.size) : (t.addSymbol s).2.symbol i = t.symbol i := by
    rw [symbol_addSymbol, if_neg known.ne]
  have last : ((t.addSymbol s).2.symbol ⟨t.size⟩).name = s.name := by
    rw [symbol_addSymbol, if_pos rfl]
  have size := size_addSymbol t s
  constructor
  · intro unique
    refine ⟨fun i j hi hj same => ?_, Option.eq_none_iff_forall_ne_some.2 fun i found => ?_⟩
    · refine unique i j (by omega) (by omega) ?_
      rwa [old hi, old hj]
    · obtain ⟨known, named⟩ := lookup_eq_some found
      have isLast := unique i ⟨t.size⟩ (by omega) (by simp) (by rw [old known, last, named])
      exact absurd (congrArg SymbolId.val isLast) known.ne
  · rintro ⟨unique, absent⟩ i j hi hj same
    have lastOrOld {k : SymbolId} (bound : k.val < (t.addSymbol s).2.size) :
        k = ⟨t.size⟩ ∨ k.val < t.size := by
      rw [size] at bound
      exact (Nat.lt_succ_iff_lt_or_eq.1 bound).symm.imp SymbolId.ext id
    have apart {k : SymbolId} (known : k.val < t.size) :
        ((t.addSymbol s).2.symbol k).name ≠ s.name := by
      rw [old known]
      exact lookup_eq_none absent k known
    rcases lastOrOld hi with rfl | hi <;> rcases lastOrOld hj with rfl | hj
    · rfl
    · exact absurd (same.symm.trans last) (apart hj)
    · exact absurd (same.trans last) (apart hi)
    · rw [old hi, old hj] at same
      exact unique i j hi hj same

/-! ## What a name denotes after a call -/

/-- How far a class has been seen does not change what names denote. -/
theorem lookup_setState (t : SymbolTable) (id : SymbolId) (state : SymbolState) (name : String) :
    (t.modifySymbol id fun s => { s with state }).lookup? name = t.lookup? name := by
  rw [lookup?, lookup?, size_modifySymbol]
  exact lookupBelow_congr fun i _ => view_modifySymbol t id ⟨i⟩ Symbol.name fun _ => rfl

theorem uniqueNames_setState (t : SymbolTable) (id : SymbolId) (state : SymbolState) :
    (t.modifySymbol id fun s => { s with state }).UniqueNames ↔ t.UniqueNames := by
  have size := size_modifySymbol t id fun s => { s with state }
  have name (i : SymbolId) :
      ((t.modifySymbol id fun s => { s with state }).symbol i).name = (t.symbol i).name :=
    view_modifySymbol t id i Symbol.name fun _ => rfl
  exact ⟨fun unique => unique.congr size.symm fun i => (name i).symm,
    fun unique => unique.congr size name⟩

/-- Looking for a name finds its class, and adds one if there is none. -/
theorem lookup_getOrAddPlaceholder (t : SymbolTable) (name other : String) :
    (t.getOrAddPlaceholder name).2.lookup? other
      = if name = other then some (t.getOrAddPlaceholder name).1 else t.lookup? other := by
  cases found : t.lookup? name with
  | some id =>
    rw [getOrAddPlaceholder_of_some found]
    split
    · next is => rw [← is, found]
    · rfl
  | none =>
    rw [getOrAddPlaceholder_of_none found]
    exact lookup_addSymbol t (.placeholder name) other

theorem uniqueNames_getOrAddPlaceholder (t : SymbolTable) (name : String) :
    (t.getOrAddPlaceholder name).2.UniqueNames ↔ t.UniqueNames := by
  cases found : t.lookup? name with
  | some id => rw [getOrAddPlaceholder_of_some found]
  | none =>
    rw [getOrAddPlaceholder_of_none found, uniqueNames_addSymbol]
    exact and_iff_left found

/-- Beginning a declaration adds what a reference to the name adds, and brings the class on unless it
refuses. -/
theorem call_declare (t : SymbolTable) (name : String) :
    (t.call (.declare name)).1 = some (t.getOrAddPlaceholder name).1
      ∧ ((t.call (.declare name)).2 = (t.getOrAddPlaceholder name).2
        ∨ (t.call (.declare name)).2 = (t.getOrAddPlaceholder name).2.modifySymbol
            (t.getOrAddPlaceholder name).1 fun s => { s with state := .visiting }) := by
  simp only [call, beginDefinition]
  by_cases declared : ((t.getOrAddPlaceholder name).2.symbol (t.getOrAddPlaceholder name).1).isDeclared
  · rw [if_pos declared]
    refine ⟨rfl, .inl ?_⟩
    cases found : t.lookup? name with
    | some id => rw [getOrAddPlaceholder_of_some found]
    | none =>
      -- a class that the search has just added is not declared
      have isNew : (t.addSymbol (.placeholder name)).1.val = t.size := rfl
      rw [getOrAddPlaceholder_of_none found, symbol_addSymbol, if_pos isNew] at declared
      cases declared
  · rw [if_neg declared]
    exact ⟨rfl, .inr rfl⟩

/-- A call that is about a name makes it denote the class that is returned. No other name denotes
anything else than before. -/
theorem lookup_call (t : SymbolTable) (c : TableCall) (name : String) :
    (t.call c).2.lookup? name = if c.name? = some name then (t.call c).1 else t.lookup? name := by
  cases c with
  | placeholder own =>
    simp only [call, TableCall.name?, Option.some.injEq]
    exact lookup_getOrAddPlaceholder t own name
  | declare own =>
    obtain ⟨returns, leaves | brings⟩ := t.call_declare own
    · rw [leaves, returns, lookup_getOrAddPlaceholder]
      simp only [TableCall.name?, Option.some.injEq]
    · rw [brings, returns, lookup_setState, lookup_getOrAddPlaceholder]
      simp only [TableCall.name?, Option.some.injEq]
  | finish id =>
    simp only [TableCall.name?, reduceCtorEq, if_false]
    exact lookup_setState t id .complete name
  | builtin own isPrimitive =>
    simp only [call, TableCall.name?, Option.some.injEq]
    exact lookup_addSymbol t _ name

/-- A class that is registered is the one that its name denotes. -/
theorem lookup_registered (t : SymbolTable) (name : String) (isPrimitive : Bool) :
    (t.call (.builtin name isPrimitive)).2.lookup? name = some ⟨t.size⟩ :=
  (t.lookup_call (.builtin name isPrimitive) name).trans (if_pos rfl)

/-- Only registering a class under a name that is in use makes two classes share a name. -/
theorem uniqueNames_call (t : SymbolTable) (c : TableCall) :
    (t.call c).2.UniqueNames
      ↔ t.UniqueNames ∧ ∀ name isPrimitive, c = .builtin name isPrimitive → t.lookup? name = none := by
  cases c with
  | placeholder own => simp [call, uniqueNames_getOrAddPlaceholder]
  | declare own =>
    obtain ⟨-, leaves | brings⟩ := t.call_declare own
    · simp [leaves, uniqueNames_getOrAddPlaceholder]
    · simp [brings, uniqueNames_setState, uniqueNames_getOrAddPlaceholder]
  | finish id => simp [call, finishDefinition, uniqueNames_setState]
  | builtin own isPrimitive =>
    simp only [call, addBuiltin, uniqueNames_addSymbol, Symbol.placeholder, TableCall.builtin.injEq]
    exact and_congr_right fun _ =>
      ⟨fun absent _ _ is => is.1 ▸ absent, fun absent => absent _ _ ⟨rfl, rfl⟩⟩

/-- Unless a class is registered, a call about a name that denotes a class returns that class. -/
theorem call_of_found {c : TableCall} (found : t.lookup? name = some id) (isNamed : c.name? = some name)
    (notBuiltin : ∀ isPrimitive, c ≠ .builtin name isPrimitive) : (t.call c).1 = some id := by
  cases c with
  | finish => cases isNamed
  | builtin own isPrimitive =>
    obtain rfl := Option.some.inj isNamed
    exact absurd rfl (notBuiltin isPrimitive)
  | placeholder own =>
    obtain rfl := Option.some.inj isNamed
    rw [call, getOrAddPlaceholder_of_some found]
  | declare own =>
    obtain rfl := Option.some.inj isNamed
    rw [(t.call_declare own).1, getOrAddPlaceholder_of_some found]

/-- A call about a name returns a class. -/
theorem call_isSome (t : SymbolTable) {c : TableCall} (isNamed : c.name? = some name) :
    (t.call c).1.isSome := by
  cases c with
  | finish => cases isNamed
  | declare own => rw [(t.call_declare own).1]; rfl
  | placeholder | builtin => rfl

/-! ## Sequences of calls -/

@[simp] theorem callAll_nil (t : SymbolTable) : t.callAll [] = t := rfl

@[simp] theorem callAll_cons (t : SymbolTable) (c : TableCall) (rest : List TableCall) :
    t.callAll (c :: rest) = (t.call c).2.callAll rest := rfl

theorem callAll_append (t : SymbolTable) (calls more : List TableCall) :
    t.callAll (calls ++ more) = (t.callAll calls).callAll more := List.foldl_append

/-- A name is in use after calls if it was before or some call is about it. -/
theorem lookup_callAll_eq_none (t : SymbolTable) (calls : List TableCall) (name : String) :
    (t.callAll calls).lookup? name = none
      ↔ t.lookup? name = none ∧ ∀ c ∈ calls, c.name? ≠ some name := by
  induction calls generalizing t with
  | nil => simp
  | cons c rest ih =>
    rw [callAll_cons, ih, lookup_call, List.forall_mem_cons, ← and_assoc]
    refine and_congr_left fun _ => ?_
    by_cases isNamed : c.name? = some name
    · have returned := t.call_isSome isNamed
      simp only [isNamed, if_true, ne_eq, not_true_eq_false, and_false, iff_false]
      exact fun is => by simp [is] at returned
    · simp [isNamed]

/-- A name that denotes a class denotes that class or a newer one after a call. -/
theorem lookup_callAll_newer (found : t.lookup? name = some id) (calls : List TableCall) :
    ∃ later, (t.callAll calls).lookup? name = some later ∧ id.val ≤ later.val := by
  induction calls generalizing t id with
  | nil => exact ⟨id, found, le_rfl⟩
  | cons c rest ih =>
    rw [callAll_cons]
    by_cases registers : ∃ isPrimitive, c = .builtin name isPrimitive
    · obtain ⟨isPrimitive, rfl⟩ := registers
      obtain ⟨later, denoted, newer⟩ := ih (t.lookup_registered name isPrimitive)
      exact ⟨later, denoted, (lookup_eq_some found).1.le.trans newer⟩
    · refine ih ((t.lookup_call c name).trans ?_)
      split
      · next isNamed => exact call_of_found found isNamed fun p is => registers ⟨p, is⟩
      · exact found

/-- What a name denotes, it denotes after any calls, unless one of them registers a class under the
name: then it denotes a newer class ever after. -/
theorem lookup_callAll_iff (found : t.lookup? name = some id) (calls : List TableCall) :
    (t.callAll calls).lookup? name = some id ↔ ∀ isPrimitive, .builtin name isPrimitive ∉ calls := by
  induction calls generalizing t with
  | nil => simp [found]
  | cons c rest ih =>
    rw [callAll_cons]
    by_cases registers : ∃ isPrimitive, c = .builtin name isPrimitive
    · obtain ⟨isPrimitive, rfl⟩ := registers
      obtain ⟨later, denoted, newer⟩ :=
        lookup_callAll_newer (t.lookup_registered name isPrimitive) rest
      refine iff_of_false (fun still => ?_) fun none => none isPrimitive List.mem_cons_self
      obtain rfl := Option.some.inj (still.symm.trans denoted)
      exact absurd (lookup_eq_some found).1 (Nat.not_lt.2 newer)
    · have kept : (t.call c).2.lookup? name = some id := by
        rw [lookup_call]
        split
        · next isNamed => exact call_of_found found isNamed fun p is => registers ⟨p, is⟩
        · exact found
      rw [ih kept]
      refine forall_congr' fun isPrimitive => not_congr ?_
      rw [List.mem_cons, or_iff_right]
      exact fun is => registers ⟨isPrimitive, is.symm⟩

/-- Names stay unique exactly as long as every class is registered under a new name. -/
theorem uniqueNames_callAll (t : SymbolTable) (calls : List TableCall) :
    (t.callAll calls).UniqueNames ↔ t.UniqueNames ∧ t.RegistersFresh calls := by
  induction calls using List.reverseRecOn with
  | nil => exact (and_iff_left fun before _ _ _ is => by cases before <;> cases is).symm
  | append_singleton calls c ih =>
    rw [callAll_append, callAll_cons, callAll_nil, uniqueNames_call, ih, and_assoc]
    refine and_congr_right fun _ => ?_
    simp only [lookup_callAll_eq_none]
    constructor
    · rintro ⟨earlier, last⟩ before name isPrimitive after is
      rcases List.append_eq_append_iff.1 is with ⟨more, rfl, tail⟩ | ⟨more, rfl, tail⟩
      · cases more with
        | nil =>
          obtain ⟨rfl, -⟩ := List.cons.inj tail
          rw [List.append_nil]
          exact last name isPrimitive rfl
        | cons _ more => cases more <;> cases tail
      · cases more with
        | nil =>
          obtain ⟨rfl, -⟩ := List.cons.inj tail
          simpa using last name isPrimitive rfl
        | cons _ more =>
          obtain ⟨rfl, rfl⟩ := List.cons.inj tail
          exact earlier before name isPrimitive more rfl
    · intro fresh
      exact ⟨fun before name isPrimitive after is =>
          fresh before name isPrimitive (after ++ [c]) (by rw [is]; simp),
        fun name isPrimitive is => fresh calls name isPrimitive [] (by rw [is])⟩

/-! ## The classes in order -/

theorem mem_classIds {t : SymbolTable} {id : SymbolId} : id ∈ t.classIds ↔ id.val < t.size := by
  simp [classIds, SymbolId.ext_iff]

theorem eraseDups_of_nodup {xs : List String} (distinct : xs.Nodup) : xs.eraseDups = xs := by
  induction xs with
  | nil => rfl
  | cons x rest ih =>
    obtain ⟨isNew, distinct⟩ := List.nodup_cons.1 distinct
    have others : rest.filter (fun y => !y == x) = rest :=
      List.filter_eq_self.2 fun y isIn => by simpa using fun is : y = x => isNew (is ▸ isIn)
    rw [List.eraseDups_cons, others, ih distinct]

/-- The names of all classes, in the order of their ids. -/
theorem map_name_symbols (t : SymbolTable) :
    t.symbols.toList.map Symbol.name = t.classIds.map fun id => (t.symbol id).name := by
  refine List.ext_getElem (by simp [classIds, size]) fun i _ bound => ?_
  have known : i < t.symbols.size := by simpa [classIds, size] using bound
  simp [classIds, symbol, known]

/-- The names lead through all classes in order if and only if no two classes share one. -/
theorem ids_eq_classIds_iff (t : SymbolTable) : t.ids = t.classIds ↔ t.UniqueNames := by
  constructor
  · intro all i j hi hj same
    have denoted {k : SymbolId} (known : k.val < t.size) : t.lookup? (t.symbol k).name = some k := by
      have isIn : k ∈ t.ids := by
        rw [all]
        exact mem_classIds.2 known
      obtain ⟨name, -, found⟩ := List.mem_filterMap.1 isIn
      rwa [(lookup_eq_some found).2]
    have both := denoted hi
    rw [same, denoted hj] at both
    exact (Option.some.inj both).symm
  · intro unique
    have distinct : (t.symbols.toList.map Symbol.name).Nodup := by
      rw [map_name_symbols]
      refine List.Nodup.map_on (fun i hi j hj same => ?_) ?_
      · exact unique i j (mem_classIds.1 hi) (mem_classIds.1 hj) same
      · exact List.Nodup.map (fun _ _ is => SymbolId.mk.inj is) List.nodup_range
    rw [ids, names, eraseDups_of_nodup distinct, map_name_symbols, List.filterMap_map]
    refine (List.filterMap_congr fun i isIn => ?_).trans (List.filterMap_some ..)
    exact (unique.lookup_iff _ i).2 ⟨mem_classIds.1 isIn, rfl⟩

/-! ## The names of a table that is called -/

/-- Whatever is asked of a table whose names are unique, they stay so exactly as long as every class is
registered under a new name; this is also when the names lead through all classes in order. And from
when a call has returned the class of a name on, the name denotes it exactly as long as no class is
registered under the name. -/
theorem callAll_names (t : SymbolTable) (unique : t.UniqueNames) (calls : List TableCall) :
    ((t.callAll calls).UniqueNames ↔ t.RegistersFresh calls)
      ∧ ((t.callAll calls).ids = (t.callAll calls).classIds ↔ t.RegistersFresh calls)
      ∧ ∀ before c after name id, calls = before ++ c :: after → c.name? = some name →
        ((t.callAll before).call c).1 = some id →
        ((t.callAll calls).lookup? name = some id
          ↔ ∀ isPrimitive, .builtin name isPrimitive ∉ after) := by
  have names : (t.callAll calls).UniqueNames ↔ t.RegistersFresh calls :=
    (t.uniqueNames_callAll calls).trans (and_iff_right unique)
  refine ⟨names, (ids_eq_classIds_iff _).trans names, ?_⟩
  rintro before c after name id rfl isNamed returned
  rw [callAll_append, callAll_cons]
  refine lookup_callAll_iff ?_ after
  rw [lookup_call, if_pos isNamed, returned]

/-- A class is referred to, declared and visited, and another one is registered. -/
theorem callAll_names_declared :
    SymbolTable.empty.UniqueNames
      ∧ let t := SymbolTable.empty.callAll
          [.placeholder "p.B", .declare "p.B", .finish ⟨0⟩, .builtin "C" false]
        t.UniqueNames ∧ t.ids = t.classIds ∧ t.lookup? "p.B" = some ⟨0⟩ := by
  have unique : SymbolTable.empty.UniqueNames := fun _ _ known => absurd known (Nat.not_lt_zero _)
  obtain ⟨names, all, denotes⟩ := callAll_names SymbolTable.empty unique
    [.placeholder "p.B", .declare "p.B", .finish ⟨0⟩, .builtin "C" false]
  have distinct : (SymbolTable.empty.callAll [.placeholder "p.B", .declare "p.B", .finish ⟨0⟩,
      .builtin "C" false]).UniqueNames := .of_nodup (by decide)
  exact ⟨unique, distinct, all.2 (names.1 distinct),
    (denotes [] _ _ "p.B" ⟨0⟩ rfl rfl (by decide)).2 (by decide)⟩

/-- A builtin class is registered twice: its name leads to the second class only, and both carry it. -/
theorem builtin_twice_shares_name :
    let calls : List TableCall := [.builtin "A" false, .builtin "A" false]
    (SymbolTable.empty.call (.builtin "A" false)).1 = some ⟨0⟩
      ∧ (SymbolTable.empty.callAll calls).lookup? "A" = some ⟨1⟩
      ∧ ¬ (SymbolTable.empty.callAll calls).UniqueNames
      ∧ (SymbolTable.empty.callAll calls).size = 2 ∧ (SymbolTable.empty.callAll calls).ids = [⟨1⟩] := by
  refine ⟨rfl, by decide, fun unique => ?_, rfl, by decide⟩
  have same := unique ⟨0⟩ ⟨1⟩ (by decide) (by decide) (by decide)
  cases same

end SymbolTable

end LevelCheck
