import LevelCheck.Proofs.WalkRun
set_option autoImplicit false

/-! # Comparing two walks

Two walks of the same nodes go through states that agree in whatever is compared, in scopes that stand
for each other. `Comparison` says what is compared and which scopes these are, and `IsKept` asks for no
more than that each thing a walk does on its own keeps the agreement. Then so does the whole walk: what
is done for a node is taken up to the first visit of a child and from there on by what comes next. The
first run may make a record that ends the comparison; from then on nothing is claimed. -/

namespace LevelCheck

namespace Walk

variable (w : Walk)

/-! ## Parts of a visit -/

variable {cx : Context}

theorem visitAnonymous_eq (visit : Visitor) {scope : WalkScope} {ref : ScopeRef}
    (inScope : scope.ref? = some ref) (idx : NodeIndex) (pos : Position) (base : String)
    (members : List NodeIndex) :
    (w.visitAnonymous visit scope idx pos base members cx).2
      = match (numbered ref cx).beginClass? (anonymousName ref cx) (some ref) id with
        | none => (numbered ref cx).reportPruning w.file idx pos (.duplicateClass (anonymousName ref cx))
        | some (id, next) =>
          (visit.each (.classBody id) members
            (next.linkType w.file (some ref) base pos (.anonymousBase id))).defineComplete id := by
  simp only [visitAnonymous, inScope, anonymousName]
  split <;> rename_i begun <;> simp only [numbered, begun]

end Walk

/-! ## Comparisons -/

/-- What is compared of two walks. -/
structure Comparison where
  walk : Walk
  walk' : Walk
  /-- The states agree. -/
  rel : Context → Context → Prop
  /-- The scopes stand for each other in two states. -/
  twin : Context → Context → WalkScope → WalkScope → Prop
  /-- Local variables may be made final in one walk and not in the other. -/
  forces : Bool → Bool → Prop
  /-- The records of the first run that end the comparison. -/
  ends : List Diagnostic → Prop

namespace Comparison

variable (c : Comparison)

/-- The states agree, unless the comparison has ended. -/
def Together (a b : Context) : Prop := c.ends a.log.diagnostics.toList ∨ c.rel a b

/-- Inspecting a node leaves the states together, and skips the node in both or admits it in both. -/
def Agrees (entry entry' : Option Walk.Admission × Context) : Prop :=
  c.ends entry.2.log.diagnostics.toList
    ∨ c.rel entry.2 entry'.2
      ∧ Option.Rel (fun x y => c.forces x.forceFinal y.forceFinal) entry.1 entry'.1

/-- The declaration of a class begins in both runs, or it is refused in both, or the comparison ends
with its being refused. -/
inductive Begins (refused refused' : Context) :
    Option (SymbolId × Context) → Option (SymbolId × Context) → Prop where
  | ended (ended : c.ends refused.log.diagnostics.toList)
      {found : Option (SymbolId × Context)} : Begins refused refused' none found
  | refused (agree : c.rel refused refused') : Begins refused refused' none none
  | begun {id id' : SymbolId} {a b : Context} (agree : c.rel a b)
      (twins : c.twin a b (.classBody id) (.classBody id')) :
      Begins refused refused' (some (id, a)) (some (id', b))

/-- Whatever a walk does on its own keeps the agreement. -/
structure IsKept : Prop where
  arena : c.walk'.arena = c.walk.arena
  ends_mono {records more : List Diagnostic} : records <+: more → c.ends records → c.ends more
  unforced : c.forces false false
  /-- Scopes that stand for each other are open and of one kind, and stand for each other as long as
  the walks go on. -/
  isOpen {a b : Context} {s s' : WalkScope} :
    c.twin a b s s' → s.IsOpenIn a.table ∧ s'.IsOpenIn b.table
  kind {a b : Context} {s s' : WalkScope} : c.twin a b s s' → s.kind = s'.kind
  later {a b a' b' : Context} {s s' : WalkScope} :
    c.twin a b s s' → a.Precedes a' → b.Precedes b' → c.twin a' b' s s'
  refuses (idx : NodeIndex) (node : Node) {a b : Context} : c.rel a b →
    c.Together (c.walk.refuseDepth idx node a) (c.walk'.refuseDepth idx node b)
  inspects (remaining : Nat) (idx : NodeIndex) (node : Node) {a b : Context} {s s' : WalkScope} :
    c.twin a b s s' → c.rel a b →
    c.Agrees (c.walk.inspect remaining s idx node a) (c.walk'.inspect remaining s' idx node b)
  header (package : Option String) (imports : List ImportDecl) (types : List NodeIndex)
    {a b : Context} : c.rel a b →
    c.rel (c.walk.enterFile package imports types a) (c.walk'.enterFile package imports types b)
  mention (type : String) (pos : Position) {a b : Context} {s s' : WalkScope} :
    c.twin a b s s' → c.rel a b →
    c.rel (a.linkType c.walk.file s.ref? type pos .existence)
      (b.linkType c.walk'.file s'.ref? type pos .existence)
  /-- A class has the same name in both runs. -/
  named (simple : String) {a b : Context} {s s' : WalkScope} : c.twin a b s s' → c.rel a b →
    (c.walk.qualifiedName s simple a).1 = (c.walk'.qualifiedName s' simple b).1
      ∧ c.rel (c.walk.qualifiedName s simple a).2 (c.walk'.qualifiedName s' simple b).2
  numbered {a b : Context} {s s' : WalkScope} {ref ref' : ScopeRef} : c.twin a b s s' →
    s.ref? = some ref → s'.ref? = some ref' → c.rel a b →
    Walk.anonymousName ref a = Walk.anonymousName ref' b
      ∧ c.rel (Walk.numbered ref a) (Walk.numbered ref' b)
  /-- A class in a scope carries the name of the class around it. -/
  begins (idx : NodeIndex) (pos : Position) (qualified : String) (head : Symbol → Symbol)
    (isHead : Symbol.IsHead head) {a b : Context} {s s' : WalkScope}
    (named : ∀ ref ∈ s.ref?, ∃ own, qualified
      = Resolution.memberName (a.table.symbol (a.table.enclosingSymbol ref)).name own) :
    c.twin a b s s' → c.rel a b →
    c.Begins (a.reportPruning c.walk.file idx pos (.duplicateClass qualified))
      (b.reportPruning c.walk'.file idx pos (.duplicateClass qualified))
      (a.beginClass? qualified s.ref? head) (b.beginClass? qualified s'.ref? head)
  parents (pos : Position) (qualified : String) (decl : Walk.TypeDecl) {a b : Context}
    {id id' : SymbolId} : c.twin a b (.classBody id) (.classBody id') → c.rel a b →
    c.rel (c.walk.linkParents id pos qualified decl a) (c.walk'.linkParents id' pos qualified decl b)
  base (type : String) (pos : Position) {a b : Context} {s s' : WalkScope} {id id' : SymbolId} :
    c.twin a b s s' → c.twin a b (.classBody id) (.classBody id') → c.rel a b →
    c.rel (a.linkType c.walk.file s.ref? type pos (.anonymousBase id))
      (b.linkType c.walk'.file s'.ref? type pos (.anonymousBase id'))
  completes {a b : Context} {id id' : SymbolId} : c.twin a b (.classBody id) (.classBody id') →
    c.rel a b → c.rel (a.defineComplete id) (b.defineComplete id')
  methods (pos : Position) (decl : Walk.MethodDecl) {a b : Context} {id id' : SymbolId} :
    c.twin a b (.classBody id) (.classBody id') → c.rel a b →
    c.rel (c.walk.enterMethod id pos decl a).2 (c.walk'.enterMethod id' pos decl b).2
      ∧ c.twin (c.walk.enterMethod id pos decl a).2 (c.walk'.enterMethod id' pos decl b).2
          (.body (.method (c.walk.enterMethod id pos decl a).1))
          (.body (.method (c.walk'.enterMethod id' pos decl b).1))
  fields (written : List Walk.Declarator) {force force' : Bool} {a b : Context}
    {id id' : SymbolId} : c.twin a b (.classBody id) (.classBody id') → c.forces force force' →
    c.rel a b →
    c.rel (c.walk.declareFields id written force a) (c.walk'.declareFields id' written force' b)
  locals (written : List Walk.Declarator) (pos : Position) {force force' : Bool} {a b : Context}
    {body body' : BodyId} : c.twin a b (.body body) (.body body') → c.forces force force' →
    c.rel a b →
    c.rel (c.walk.declareLocals body written pos force a)
      (c.walk'.declareLocals body' written pos force' b)
  block {a b : Context} {s s' : WalkScope} {ref ref' : ScopeRef} : c.twin a b s s' →
    s.ref? = some ref → s'.ref? = some ref' → c.rel a b →
    c.rel (Walk.inBlock ref a) (Walk.inBlock ref' b)
      ∧ c.twin (Walk.inBlock ref a) (Walk.inBlock ref' b) (.body (.block (a.table.addBlock ref).1))
          (.body (.block (b.table.addBlock ref').1))

/-- Visits of the same node in scopes that stand for each other keep two runs together. -/
structure Couples (visit visit' : Visitor) : Prop where
  runs : visit.Runs
  runs' : visit'.Runs
  together (mode : BlockMode) (idx : NodeIndex) {a b : Context} {s s' : WalkScope} :
    c.twin a b s s' → c.rel a b →
    c.Together (visit mode s idx a).2 (visit' mode s' idx b).2

variable {c}

namespace IsKept

variable (kept : c.IsKept)
include kept

/-- What is done to states that agree is done to states that are together. -/
theorem andThen {a b a' b' : Context} (together : c.Together a b)
    (log : a.log.diagnostics.toList <+: a'.log.diagnostics.toList)
    (agree : c.rel a b → c.Together a' b') : c.Together a' b' := by
  rcases together with ended | same
  · exact .inl (kept.ends_mono log ended)
  · exact agree same

/-- A scope stands for one of the same kind. -/
theorem ref_cases {a b : Context} {s s' : WalkScope} (twins : c.twin a b s s') :
    s.ref? = none ∧ s'.ref? = none
      ∨ ∃ ref ref', s.ref? = some ref ∧ s'.ref? = some ref' := by
  have kind := kept.kind twins
  cases s <;> cases s' <;> first
    | exact .inl ⟨rfl, rfl⟩
    | exact .inr ⟨_, _, rfl, rfl⟩
    | cases kind

section

variable {visit visit' : Visitor} (couples : c.Couples visit visit') {a b : Context}
include couples

theorem each {s s' : WalkScope} (nodes : List NodeIndex) (twins : c.twin a b s s')
    (agree : c.rel a b) : c.Together (visit.each s nodes a) (visit'.each s' nodes b) := by
  induction nodes generalizing a b with
  | nil => exact .inr agree
  | cons node rest ih =>
    obtain ⟨isOpen, isOpen'⟩ := kept.isOpen twins
    have first := couples.together .nested node twins agree
    have run := couples.runs .nested s node a isOpen
    have run' := couples.runs' .nested s' node b isOpen'
    have inside := run.precedes.isOpenIn isOpen
    exact kept.andThen first (Visitor.each_run couples.runs rest inside).precedes.log
      (ih (kept.later twins run.precedes run'.precedes))

/-! ## Classes -/

/-- The members of a class are visited, and the class is completed. -/
theorem members {id id' : SymbolId} (nodes : List NodeIndex)
    (twins : c.twin a b (.classBody id) (.classBody id')) (agree : c.rel a b) :
    c.Together ((visit.each (.classBody id) nodes a).defineComplete id)
      ((visit'.each (.classBody id') nodes b).defineComplete id') := by
  obtain ⟨isOpen, isOpen'⟩ := kept.isOpen twins
  have run := Visitor.each_run couples.runs nodes isOpen
  have run' := Visitor.each_run couples.runs' nodes isOpen'
  have visited := kept.each couples nodes twins agree
  exact kept.andThen visited (Context.Precedes.defineComplete _ _).log fun same =>
    .inr (kept.completes (kept.later twins run.precedes run'.precedes) same)

variable {s s' : WalkScope} (twins : c.twin a b s s') (agree : c.rel a b)
include twins agree

theorem visitTypeDecl (idx : NodeIndex) (pos : Position) (decl : Walk.TypeDecl) :
    c.Together (c.walk.visitTypeDecl visit s idx pos decl a).2
      (c.walk'.visitTypeDecl visit' s' idx pos decl b).2 := by
  obtain ⟨isOpen, isOpen'⟩ := kept.isOpen twins
  -- naming the class may number it, so the states go on from there
  obtain ⟨name, named⟩ := kept.named decl.name twins agree
  have carries := c.walk.qualifiedName_named s decl.name a
  have twins := kept.later twins (c.walk.qualifiedName_run isOpen decl.name).precedes
    (c.walk'.qualifiedName_run isOpen' decl.name).precedes
  rw [Walk.visitTypeDecl, Walk.visitTypeDecl]
  generalize c.walk.qualifiedName s decl.name a = entry at *
  generalize c.walk'.qualifiedName s' decl.name b = entry' at *
  obtain ⟨qualified, a⟩ := entry
  obtain ⟨_, b⟩ := entry'
  simp only at name named carries twins ⊢
  subst name
  have begins := kept.begins idx pos qualified decl.head decl.head_isHead carries twins named
  generalize a.beginClass? qualified s.ref? decl.head = begun at *
  generalize b.beginClass? qualified s'.ref? decl.head = begun' at *
  cases begins with
  | ended ended => exact .inl ended
  | refused same => exact .inr same
  | @begun id id' a b begun twins =>
    -- the class stays open while what it extends is linked, up to the first member
    obtain ⟨isOpen, isOpen'⟩ := kept.isOpen twins
    have linked := kept.parents pos qualified decl twins begun
    have twins := kept.later twins (c.walk.linkParents_run (isOpen _ rfl) pos qualified decl).precedes
      (c.walk'.linkParents_run (isOpen' _ rfl) pos qualified decl).precedes
    exact kept.members couples decl.members twins linked

theorem visitAnonymous (idx : NodeIndex) (pos : Position) (type : String)
    (members : List NodeIndex) :
    c.Together (c.walk.visitAnonymous visit s idx pos type members a).2
      (c.walk'.visitAnonymous visit' s' idx pos type members b).2 := by
  obtain ⟨isOpen, isOpen'⟩ := kept.isOpen twins
  rcases kept.ref_cases twins with ⟨here, there⟩ | ⟨ref, ref', here, there⟩
  · rw [Walk.visitAnonymous, Walk.visitAnonymous, here, there]
    exact .inr agree
  · obtain ⟨name, numbered⟩ := kept.numbered twins here there agree
    have counted : Run a (Walk.numbered ref a) := .deed (.enter (.number (isOpen ref here)))
    have counted' : Run b (Walk.numbered ref' b) := .deed (.enter (.number (isOpen' ref' there)))
    have twins := kept.later twins counted.precedes counted'.precedes
    have carries : ∀ r ∈ s.ref?, ∃ own, Walk.anonymousName ref a = Resolution.memberName
        ((Walk.numbered ref a).table.symbol ((Walk.numbered ref a).table.enclosingSymbol r)).name
        own := by
      rw [here]
      rintro r ⟨⟩
      exact Walk.anonymousName_named ref a
    have begins := kept.begins idx pos (Walk.anonymousName ref a) id (fun _ => rfl) carries twins
      numbered
    rw [here, there] at begins
    rw [c.walk.visitAnonymous_eq visit here, c.walk'.visitAnonymous_eq visit' there, ← name]
    generalize begun : (Walk.numbered ref a).beginClass? _ _ _ = found at *
    generalize begun' : (Walk.numbered ref' b).beginClass? _ _ _ = found' at *
    cases begins with
    | ended ended => exact .inl ended
    | refused same => exact .inr same
    | @begun id id' a₁ b₁ same classes =>
      -- what the class is made from is looked for in the scope around it
      have around := kept.later twins (.beginClass begun fun _ => rfl) (.beginClass begun' fun _ => rfl)
      have linked := kept.base type pos around classes same
      have precedes := Context.Precedes.linkType a₁ c.walk.file s.ref? type pos (.anonymousBase id)
      have precedes' := Context.Precedes.linkType b₁ c.walk'.file s'.ref? type pos
        (.anonymousBase id')
      rw [here] at linked precedes
      rw [there] at linked precedes'
      exact kept.members couples members (kept.later classes precedes precedes') linked

end

/-! ## Variables -/

theorem param_eq : c.walk'.param? = c.walk.param? := by
  funext idx
  rw [Walk.param?, Walk.param?, kept.arena]

theorem declarator_eq : c.walk'.declarator? = c.walk.declarator? := by
  funext flags idx
  rw [Walk.declarator?, Walk.declarator?, kept.arena]

section

variable {visit visit' : Visitor} (couples : c.Couples visit visit') {a b : Context}
  {s s' : WalkScope} (twins : c.twin a b s s') (agree : c.rel a b)
include couples twins agree

theorem visitVariables (modifiers : List Modifier) (declarators : List NodeIndex)
    {force force' : Bool} (forces : c.forces force force') :
    c.Together (c.walk.visitVariables visit s modifiers declarators force a).2
      (c.walk'.visitVariables visit' s' modifiers declarators force' b).2 := by
  obtain ⟨isOpen, isOpen'⟩ := kept.isOpen twins
  have kind := kept.kind twins
  let found := declarators.filterMap (c.walk.declarator? (Modifier.flags modifiers))
  have found' : declarators.filterMap (c.walk'.declarator? (Modifier.flags modifiers)) = found := by
    rw [kept.declarator_eq]
  cases s with
  | file =>
    cases s' with
    | file => exact .inr agree
    | classBody id' | body body' => cases kind
  | classBody id =>
    cases s' with
    | file | body body' => cases kind
    | classBody id' =>
      have declared := kept.fields (found.map (·.1)) twins forces agree
      have twins := kept.later twins
        (c.walk.declareFields_run (isOpen _ rfl) (found.map (·.1)) force).precedes
        (c.walk'.declareFields_run (isOpen' _ rfl) (found.map (·.1)) force').precedes
      rw [Walk.visitVariables_fields, Walk.visitVariables_fields, found']
      exact kept.each couples (found.filterMap (·.2)) twins declared
  | body body =>
    cases s' with
    | file | classBody id' => cases kind
    | body body' =>
      have declared := kept.locals (found.map (·.1)) .nowhere twins forces agree
      have twins := kept.later twins
        (c.walk.declareLocals_run body (isOpen _ rfl) (found.map (·.1)) .nowhere force).precedes
        (c.walk'.declareLocals_run body' (isOpen' _ rfl) (found.map (·.1)) .nowhere force').precedes
      rw [Walk.visitVariables_locals, Walk.visitVariables_locals, found']
      exact kept.each couples (found.filterMap (·.2)) twins declared

/-! ## Blocks -/

omit couples in
/-- A block can be opened in both states or in neither, and then the blocks stand for each other. -/
theorem openBlock_cases : Walk.openBlock? s a = none ∧ Walk.openBlock? s' b = none
    ∨ ∃ id id' a₁ b₁, Walk.openBlock? s a = some (id, a₁) ∧ Walk.openBlock? s' b = some (id', b₁)
        ∧ c.rel a₁ b₁ ∧ c.twin a₁ b₁ (.body (.block id)) (.body (.block id')) := by
  rcases kept.ref_cases twins with ⟨here, there⟩ | ⟨ref, ref', here, there⟩
  · exact .inl ⟨by rw [Walk.openBlock?, here], by rw [Walk.openBlock?, there]⟩
  · obtain ⟨same, inside⟩ := kept.block twins here there agree
    exact .inr ⟨_, _, _, _, by rw [Walk.openBlock?, here], by rw [Walk.openBlock?, there], same, inside⟩

theorem visitBlock (mode : BlockMode) (statements : List NodeIndex) :
    c.Together (Walk.visitBlock visit mode s statements a)
      (Walk.visitBlock visit' mode s' statements b) := by
  cases mode with
  | inline => exact kept.each couples statements twins agree
  | nested =>
    simp only [Walk.visitBlock]
    rcases kept.openBlock_cases twins agree with
      ⟨here, there⟩ | ⟨id, id', a₁, b₁, here, there, same, inside⟩
    · rw [here, there]
      exact .inr agree
    · rw [here, there]
      exact kept.each couples statements inside same

theorem visitInitializer (body : NodeIndex) :
    c.Together (Walk.visitInitializer visit s body a) (Walk.visitInitializer visit' s' body b) := by
  have kind := kept.kind twins
  cases s with
  | file =>
    cases s' with
    | file => exact .inr agree
    | classBody id' | body body' => cases kind
  | body id =>
    cases s' with
    | body id' => exact couples.together .nested body twins agree
    | file | classBody id' => cases kind
  | classBody id =>
    cases s' with
    | file | body body' => cases kind
    | classBody id' =>
      simp only [Walk.visitInitializer]
      rcases kept.openBlock_cases twins agree with
        ⟨here, there⟩ | ⟨id, id', a₁, b₁, here, there, same, inside⟩
      · rw [here, there]
        exact .inr agree
      · rw [here, there]
        exact couples.together .inline body inside same

theorem visitFor (children : List NodeIndex) :
    c.Together (Walk.visitFor visit s children a) (Walk.visitFor visit' s' children b) := by
  rw [Walk.visitFor, Walk.visitFor]
  rcases kept.openBlock_cases twins agree with
    ⟨here, there⟩ | ⟨id, id', a₁, b₁, here, there, same, inside⟩
  · rw [here, there]
    exact kept.each couples children twins agree
  · rw [here, there]
    exact kept.each couples children inside same

theorem visitCatch (exception handler : NodeIndex) :
    c.Together (c.walk.visitCatch visit s exception handler a).2
      (c.walk'.visitCatch visit' s' exception handler b).2 := by
  have kind := kept.kind twins
  cases s with
  | file | classBody id =>
    cases s' with
    | file | classBody id' => exact .inr agree
    | body body' => cases kind
  | body outer =>
    cases s' with
    | file | classBody id' => cases kind
    | body outer' =>
      obtain ⟨same, inside⟩ := kept.block twins rfl rfl agree
      obtain ⟨isOpen, isOpen'⟩ := kept.isOpen inside
      have entered := c.walk.enterException_run (isOpen _ rfl) exception
      have entered' := c.walk'.enterException_run (isOpen' _ rfl) exception
      have inner := kept.later inside entered.precedes entered'.precedes
      have agree : c.rel
          (c.walk.enterException (a.table.addBlock outer.scope).1 exception
            (Walk.inBlock outer.scope a)).2
          (c.walk'.enterException (b.table.addBlock outer'.scope).1 exception
            (Walk.inBlock outer'.scope b)).2 := by
        rw [Walk.enterException_eq, Walk.enterException_eq, kept.param_eq]
        cases c.walk.param? exception with
        | none => exact same
        | some d => exact kept.locals [d] d.pos inside kept.unforced same
      exact couples.together .inline handler inner agree

/-! ## Nodes -/

theorem visitMethod (pos : Position) (decl : Walk.MethodDecl) :
    c.Together (c.walk.visitMethod visit s pos decl a).2
      (c.walk'.visitMethod visit' s' pos decl b).2 := by
  have kind := kept.kind twins
  cases s with
  | file | body id =>
    cases s' with
    | file | body id' => exact .inr agree
    | classBody id' => cases kind
  | classBody owner =>
    cases s' with
    | file | body id' => cases kind
    | classBody owner' =>
      obtain ⟨entered, inside⟩ := kept.methods pos decl twins agree
      rw [Walk.visitMethod_eq, Walk.visitMethod_eq]
      cases decl.body with
      | none => exact .inr entered
      | some body => exact couples.together .inline body inside entered

/-- What an admitted node calls for keeps two runs together, if the visits of its children do. -/
theorem visitData (mode : BlockMode) (idx : NodeIndex) (pos : Position) {force force' : Bool}
    (forces : c.forces force force') (data : NodeData) :
    c.Together (c.walk.visitData visit mode s idx pos force data a).2
      (c.walk'.visitData visit' mode s' idx pos force' data b).2 := by
  obtain ⟨isOpen, isOpen'⟩ := kept.isOpen twins
  have children (nodes : List NodeIndex) :
      c.Together (visit.each s nodes a) (visit'.each s' nodes b) :=
    kept.each couples nodes twins agree
  have mention (type : String) (nodes : List NodeIndex) :
      c.Together (visit.each s nodes (a.linkType c.walk.file s.ref? type pos .existence))
        (visit'.each s' nodes (b.linkType c.walk'.file s'.ref? type pos .existence)) :=
    kept.each couples nodes (kept.later twins (.linkType _ _ _ _ _ _) (.linkType _ _ _ _ _ _))
      (kept.mention type pos twins agree)
  cases data with
  | sourceFile package imports types =>
    exact kept.each couples types
      (kept.later twins (c.walk.enterFile_run package imports types a).precedes
        (c.walk'.enterFile_run package imports types b).precedes)
      (kept.header package imports types agree)
  | classDef | interfaceDef => exact kept.visitTypeDecl couples twins agree idx pos _
  | methodDef | constructorDef => exact kept.visitMethod couples twins agree pos _
  | formalParameter => exact .inr agree
  | variableDeclaration modifiers declarators =>
    exact kept.visitVariables couples twins agree modifiers declarators forces
  | block statements => exact kept.visitBlock couples twins agree mode statements
  | instanceInitializer body => exact kept.visitInitializer couples twins agree body
  | catchBlock exception handler => exact kept.visitCatch couples twins agree exception handler
  | forStatement => exact kept.visitFor couples twins agree _
  | instantiation outer type arguments => exact mention type _
  | cast type operand => exact mention type _
  | anonymousClass outer type arguments members =>
    -- the class body comes after the arguments, in states that are only together by then
    have before := Visitor.each_run couples.runs (outer.toList ++ arguments) isOpen
    have before' := Visitor.each_run couples.runs' (outer.toList ++ arguments) isOpen'
    have visited := c.walk.visitAnonymous_run couples.runs (before.precedes.isOpenIn isOpen) idx pos
      type members
    exact kept.andThen (children _) visited.precedes.log fun same =>
      kept.visitAnonymous couples (kept.later twins before.precedes before'.precedes) same idx pos
        type members
  | _ => exact children _

end

/-! ## Visits -/

end IsKept

/-- The second walk may go down further than the first by a number of levels of nesting: a node that
the first refuses since it is nested too deeply is visited by the second. -/
structure Deepens (c : Comparison) (more : Nat) : Prop where
  refuses (mode : BlockMode) {idx : NodeIndex} {node : Node} {a b : Context} {s s' : WalkScope}
    (found : c.walk'.arena.get? idx = some node) : c.twin a b s s' → c.rel a b →
    c.Together (c.walk.refuseDepth idx node a) (c.walk'.visit more mode s' idx b).2
  inspects (remaining : Nat) (idx : NodeIndex) (node : Node) {a b : Context} {s s' : WalkScope} :
    c.twin a b s s' → c.rel a b →
    c.Agrees (c.walk.inspect remaining s idx node a)
      (c.walk'.inspect (remaining + more) s' idx node b)

namespace IsKept

variable (kept : c.IsKept)
include kept

/-- A walk that goes no further refuses the same nodes. -/
theorem deepens_zero : c.Deepens 0 where
  refuses mode idx node a b s s' found _ agree := by
    rw [Walk.visit, found]
    exact kept.refuses idx node agree
  inspects remaining idx node _ _ _ _ := kept.inspects remaining idx node

/-- The two walks stay together, whatever number of levels of nesting remains, and if the second goes
down further than the first. The induction is on the number that remains in the first. -/
theorem visit_deeper {more : Nat} (deepens : c.Deepens more) (remaining : Nat) :
    c.Couples (c.walk.visit remaining) (c.walk'.visit (remaining + more)) := by
  induction remaining with
  | zero =>
    refine ⟨c.walk.visit_runs 0, c.walk'.visit_runs _, fun mode idx a b s s' twins agree => ?_⟩
    rw [Nat.zero_add]
    cases found : c.walk'.arena.get? idx with
    | none =>
      have same : (c.walk'.visit more mode s' idx b).2 = b := by
        cases more <;> rw [Walk.visit, found]
      rw [Walk.visit, ← kept.arena, found, same]
      exact .inr agree
    | some node =>
      rw [Walk.visit, ← kept.arena, found]
      exact deepens.refuses mode found twins agree
  | succ remaining ih =>
    rw [Nat.add_right_comm]
    refine ⟨c.walk.visit_runs _, c.walk'.visit_runs _, fun mode idx a b s s' twins agree => ?_⟩
    cases found : c.walk.arena.get? idx with
    | none =>
      rw [Walk.visit, Walk.visit, kept.arena, found]
      exact .inr agree
    | some node =>
      -- first the node is inspected, and then its children are visited, if it is admitted
      have inspected := Run.deed (.inspect a c.walk (remaining + 1) s idx node)
      have inspected' := Run.deed (.inspect b c.walk' (remaining + more + 1) s' idx node)
      have agrees := deepens.inspects (remaining + 1) idx node twins agree
      rw [Nat.add_right_comm] at agrees
      have found' : c.walk'.arena.get? idx = some node := by rw [kept.arena, found]
      rw [c.walk.visit_succ found, c.walk'.visit_succ found']
      have twins := kept.later twins inspected.precedes inspected'.precedes
      generalize c.walk.inspect (remaining + 1) s idx node a = entry at *
      generalize c.walk'.inspect (remaining + more + 1) s' idx node b = entry' at *
      obtain ⟨admission, a⟩ := entry
      obtain ⟨admission', b⟩ := entry'
      rcases agrees with ended | ⟨same, both⟩
      · -- once the comparison has ended, what the first run does next leaves its records
        cases admission with
        | none => exact .inl ended
        | some admission =>
          have visited := c.walk.visitData_run ih.runs mode (kept.isOpen twins).1 idx node.pos
            admission.forceFinal node.data
          exact .inl (kept.ends_mono visited.precedes.log ended)
      · cases both with
        | none => exact .inr same
        | some forces => exact kept.visitData ih twins same mode idx node.pos forces node.data

/-- The two walks stay together, whatever number of levels of nesting remains. -/
theorem visit (remaining : Nat) : c.Couples (c.walk.visit remaining) (c.walk'.visit remaining) :=
  kept.visit_deeper kept.deepens_zero remaining

end IsKept

end Comparison

end LevelCheck
