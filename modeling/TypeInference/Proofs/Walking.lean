import TypeInference.Proofs.Rerunning

/-!
# What simple statements change

A statement is simple if it evaluates expressions and binds names where it is walked, and does
nothing else: it declares no function and no class, redirects no name, returns nothing and sets no
attribute of a receiver. Branches and loops are simple if the statements in them are.

Where no overload is pending, simple statements change no values but those of the names that they
bind and of the targets of comprehensions. Like the evaluation of an expression, they fill caches
and make specializations, and leave everything else in the store as it is.
-/

namespace TypeInference

open Analysis Store

/-- An assignment to a target sets no attribute of a receiver. -/
def Expression.SparesReceiver (receiver : Option String) : Expression → Prop
  | .attribute object _ _ => receiver = none ∨ object.asName? ≠ receiver
  | _ => True

namespace Statement

mutual

/-- The names that a statement binds in the scope where it is walked. -/
def boundNames : Statement → List String
  | .assign targets _ _ => Expression.namesOfTargets targets
  | .annotated target _ _ _ => target.targetNames
  | .function definition => [definition.name.name]
  | .classDefinition definition => [definition.name.name]
  | .branch _ body otherwise _ => blockNames body ++ blockNames otherwise
  | .iteration target _ body otherwise _ =>
    target.targetNames ++ (blockNames body ++ blockNames otherwise)
  | .loop _ body otherwise _ => blockNames body ++ blockNames otherwise
  | .expression _ _ | .ret _ _ | .global _ _ | .nonlocal _ _ | .pass _ => []

/-- The names that statements bind. -/
def blockNames : List Statement → List String
  | [] => []
  | statement :: rest => boundNames statement ++ blockNames rest

end

mutual

/-- A statement that evaluates expressions and binds names, and does nothing else. -/
def IsSimple (receiver : Option String) : Statement → Prop
  | .expression _ _ | .pass _ => True
  | .assign targets _ _ => ∀ target ∈ targets, target.SparesReceiver receiver
  | .annotated target _ _ _ => target.SparesReceiver receiver
  | .branch _ body otherwise _ => BlockIsSimple receiver body ∧ BlockIsSimple receiver otherwise
  | .iteration _ _ body otherwise _ =>
    BlockIsSimple receiver body ∧ BlockIsSimple receiver otherwise
  | .loop _ body otherwise _ => BlockIsSimple receiver body ∧ BlockIsSimple receiver otherwise
  | .ret _ _ | .function _ | .classDefinition _ | .global _ _ | .nonlocal _ _ => False

/-- Simple statements. -/
def BlockIsSimple (receiver : Option String) : List Statement → Prop
  | [] => True
  | statement :: rest => IsSimple receiver statement ∧ BlockIsSimple receiver rest

end

end Statement

/-- The places of names in the scope of a node, and those of all nodes that may be opened. -/
def binding (mayOpen : NodeId → Prop) (node : NodeId) (names : List String) :
    Set (NodeId × String) :=
  {place | mayOpen place.1 ∨ place.1 = node ∧ place.2 ∈ names}

theorem binding_mono {mayOpen : NodeId → Prop} {node : NodeId} {names more : List String}
    (wider : names ⊆ more) : binding mayOpen node names ⊆ binding mayOpen node more :=
  fun _ inside => inside.imp_right fun place => ⟨place.1, wider place.2⟩

namespace Scopes

variable {mayOpen : NodeId → Prop} {places : Set (NodeId × String)} {before after : Scopes}

/-- What is touched are values in the scopes of some nodes. -/
theorem Touches.changes (touches : before.Touches mayOpen after) :
    before.Changes {place | mayOpen place.1} after where
  grown := touches.grown
  kept id present := by
    obtain ⟨frame, apart, names⟩ := touches.kept id present
    have valued (scope : Scope) (name : String) :
        (scope.valueOf? name).isSome = true ↔ name ∈ scope.names := by
      simp [Scope.valueOf?, Scope.find?, Scope.names]
    refine ⟨frame, fun name => ⟨fun outside => ?_, fun has => ?_⟩⟩
    · rw [Scope.valueOf?, Scope.find?, apart outside]
      rfl
    · exact (valued _ name).mpr (names ((valued _ name).mp has))
  fresh id old inside :=
    have created := touches.fresh id old inside
    ⟨created.1, fun _ => created.2⟩

/-- Scopes of comprehensions stay such, and those that are created are such. -/
theorem Hosts.changes (hosts : before.Hosts mayOpen) (changes : before.Changes places after) :
    after.Hosts mayOpen := by
  intro id inside opened
  by_cases present : id.index < before.all.size
  · have same := changes.frame present
    exact (hosts id present (same.node ▸ opened)).of_sameFrame same
  · exact (changes.fresh id (Nat.not_lt.mp present) inside).1

/-- The innermost open scope is that of a node, and redirects nothing. -/
def IsAt (node : NodeId) (scopes : Scopes) : Prop :=
  ∃ home, scopes.current? = some home ∧ home.index < scopes.all.size ∧
    (scopes.scopeAt home).node = node ∧ (scopes.scopeAt home).globals = [] ∧
    (scopes.scopeAt home).nonlocals = []

theorem IsAt.changes {node : NodeId} (isAt : before.IsAt node)
    (changes : before.Changes places after) (stack : after.stack = before.stack) :
    after.IsAt node := by
  obtain ⟨home, current, present, isNode, globals, nonlocals⟩ := isAt
  have same := changes.frame present
  exact ⟨home, by rw [← current, current?, current?, stack],
    Nat.lt_of_lt_of_le present changes.grown, same.node.trans isNode, same.globals.trans globals,
    same.nonlocals.trans nonlocals⟩

/-- A declaration there changes nothing but the value of its name. -/
theorem IsAt.declare {node : NodeId} (isAt : before.IsAt node) {name : String} {value : Value}
    {kind : VariableKind} {declaring : Option NodeId} {span : Span}
    (declared : before.declare name value kind declaring span = .ok after) :
    before.Changes {(node, name)} after := by
  obtain ⟨home, current, -, rfl, globals, nonlocals⟩ := isAt
  rw [declare_of_current current, redirect, globals, nonlocals] at declared
  cases declared
  exact .insert before rfl

end Scopes

/-- Progress after an analysis that changed values at some places at most, and filled caches. -/
structure Progress.Binds (places : Set (NodeId × String)) (before after : Progress) : Prop where
  stores : before.store.Caches none after.store
  scopes : before.scopes.Changes places after.scopes
  wellFormed : before.scopes.WellFormed → after.scopes.WellFormed
  stack : after.scopes.stack = before.scopes.stack

namespace Progress.Binds

variable {places more : Set (NodeId × String)} {before middle after : Progress}

theorem refl (progress : Progress) : progress.Binds places progress :=
  ⟨.refl _, .refl _, id, rfl⟩

theorem trans (one : before.Binds places middle) (other : middle.Binds places after) :
    before.Binds places after where
  stores := one.stores.trans other.stores
  scopes := one.scopes.trans other.scopes
  wellFormed := other.wellFormed ∘ one.wellFormed
  stack := other.stack.trans one.stack

theorem mono (binds : before.Binds places after) (wider : places ⊆ more) :
    before.Binds more after :=
  { binds with scopes := binds.scopes.mono wider }

end Progress.Binds

/-- An analysis that binds names in the scope of a node and evaluates comprehensions, where no
overload is pending. -/
def Analysis.Binds {α : Type} (mayOpen : NodeId → Prop) (node : NodeId) (names : List String)
    (analysis : Analysis α) : Prop :=
  ∀ (environment : Environment) (before : Progress), before.store.NoOverloadIs .pending →
    before.scopes.Hosts mayOpen → before.scopes.IsAt node →
      before.Binds (binding mayOpen node names) (analysis.after environment before)

namespace Analysis.Binds

variable {α β : Type} {mayOpen : NodeId → Prop} {node : NodeId} {names more : List String}

theorem pure (result : α) : (Pure.pure result : Analysis α).Binds mayOpen node names :=
  fun _ before _ _ _ => .refl before

theorem mono {analysis : Analysis α} (binds : analysis.Binds mayOpen node names)
    (wider : names ⊆ more) : analysis.Binds mayOpen node more :=
  fun environment before settled hosts isAt =>
    (binds environment before settled hosts isAt).mono (binding_mono wider)

theorem bind {first : Analysis α} {next : α → Analysis β} (binds : first.Binds mayOpen node names)
    (onwards : ∀ result, (next result).Binds mayOpen node names) :
    (first >>= next).Binds mayOpen node names := by
  intro environment before settled hosts isAt
  have earlier := binds environment before settled hosts isAt
  rcases after_bind_cases first next environment before with ⟨_, stops⟩ | ⟨result, _, goesOn⟩
  · exact stops ▸ earlier
  · rw [goesOn]
    exact earlier.trans (onwards result environment _ (earlier.stores.settled settled)
      (hosts.changes earlier.scopes) (isAt.changes earlier.scopes earlier.stack))

/-- One analysis after another binds the names of both. -/
theorem append {first : Analysis α} {next : α → Analysis β}
    (binds : first.Binds mayOpen node names)
    (onwards : ∀ result, (next result).Binds mayOpen node more) :
    (first >>= next).Binds mayOpen node (names ++ more) :=
  .bind (binds.mono (List.subset_append_left _ _)) fun result =>
    (onwards result).mono (List.subset_append_right _ _)

theorem reads {next : Store → Analysis α} (binds : ∀ store, (next store).Binds mayOpen node names) :
    (Analysis.store >>= next).Binds mayOpen node names :=
  fun environment before => binds before.store environment before

/-- What touches the scopes of comprehensions only binds nothing. -/
theorem of_touches {analysis : Analysis α} (touches : analysis.Touches mayOpen False) :
    analysis.Binds mayOpen node names := by
  intro environment before settled hosts _
  have touched := touches environment before settled hosts False.elim
  exact ⟨touched.stores, touched.scopes.changes.mono fun _ => .inl, touched.wellFormed,
    touched.stack⟩

theorem report (lint : Lint) (span : Span) :
    (Analysis.report lint span).Binds mayOpen node names :=
  fun _ _ _ _ _ => ⟨.refl _, .refl _, id, rfl⟩

/-- A name is declared. -/
theorem declare {name : String} (listed : name ∈ names) (value : Value) (kind : VariableKind)
    (declaring : Option NodeId) (span : Span) :
    (Analysis.declare name value kind declaring span).Binds mayOpen node names := by
  intro environment before _ _ isAt
  unfold Analysis.declare
  cases declared : before.scopes.declare name value kind declaring span with
  | error fault =>
    rw [after, changeScopes_of_error environment declared]
    exact .refl before
  | ok scopes =>
    rw [after_of_ok (changeScopes_of_ok environment declared)]
    have edited := Scopes.edited_declare declared
    refine ⟨.refl _, (isAt.declare declared).mono ?_, fun wellFormed => wellFormed.edited edited,
      edited.sameShape.stack⟩
    rintro place rfl
    exact .inr ⟨rfl, listed⟩

theorem declareAll (span : Span) : ∀ {entries : List (String × Value)},
    (∀ entry ∈ entries, entry.1 ∈ names) →
      (Analysis.declareAll span entries).Binds mayOpen node names
  | [], _ => .pure ()
  | (_, _) :: _, listed =>
    have both := List.forall_mem_cons.mp listed
    .bind (.declare both.1 _ _ _ _) fun _ => declareAll span both.2

/-- What declares nothing but some names binds them. -/
theorem of_declares {given : β} [Refers β] {analysis : Analysis Unit} {span : Span}
    (declares : analysis.Declares span names given) : analysis.Binds mayOpen node names := by
  obtain ⟨entries, rfl, among, -⟩ := declares
  exact declareAll span among

end Analysis.Binds

namespace Engine

variable {engine : Engine} {mayOpen : NodeId → Prop} {node : NodeId} {names : List String}

theorem checkName_binds (identifier : Identifier) :
    (checkName identifier).Binds mayOpen node names := by
  refine .bind (.of_touches (.lookupName? _ _)) fun found => ?_
  cases found with
  | some _ => exact .pure ()
  | none => exact .report _ _

theorem checkOperands_binds (operator : BinaryOperator) (left right : Value) (span : Span) :
    (checkOperands operator left right span).Binds mayOpen node names := by
  refine .reads fun store => ?_
  split
  · exact .report _ _
  · exact .pure ()

theorem evaluate_binds (caching : engine.Caching) (reach : Reach) {expression : Expression}
    (opens : Opens mayOpen (Outline.ofExpression expression)) :
    (engine.evaluate reach expression).Binds mayOpen node names :=
  .of_touches (evaluate_touches caching reach opens)

mutual

theorem check_binds (caching : engine.Caching) : ∀ {expression : Expression},
    Opens mayOpen (Outline.ofExpression expression) →
      (engine.check expression).Binds mayOpen node names
  | .constant _ _, _ => by
    rw [check]
    exact .pure ()
  | .name identifier, _ => by
    rw [check]
    exact checkName_binds identifier
  | .attribute target _ _, opens => by
    simp only [Outline.ofExpression, opens_cons] at opens
    rw [check]
    exact check_binds caching opens.2
  | .index target index _, opens => by
    simp only [Outline.ofExpression, opens_cons, opens_append] at opens
    rw [check]
    exact .bind (check_binds caching opens.2.1) fun _ => check_binds caching opens.2.2
  | .slice lower upper step _, opens => by
    simp only [Outline.ofExpression, opens_cons, opens_append] at opens
    rw [check]
    exact .bind (checkOptional_binds caching opens.2.1.1) fun _ =>
      .bind (checkOptional_binds caching opens.2.1.2) fun _ => checkOptional_binds caching opens.2.2
  | .call callee arguments _, opens => by
    simp only [Outline.ofExpression, opens_cons, opens_append] at opens
    rw [check]
    exact .bind (check_binds caching opens.2.1) fun _ => checkArguments_binds caching opens.2.2
  | .display _ items _, opens => by
    simp only [Outline.ofExpression, opens_cons] at opens
    rw [check]
    exact checkAll_binds caching opens.2
  | .dict entries _, opens => by
    simp only [Outline.ofExpression, opens_cons] at opens
    rw [check]
    exact checkEntries_binds caching opens.2
  | .comprehension comprehension, opens => by
    simp only [Outline.ofExpression] at opens
    rw [check]
    exact checkComprehension_binds caching opens
  | .yield value _, opens => by
    simp only [Outline.ofExpression, opens_cons] at opens
    rw [check]
    exact checkOptional_binds caching opens.2
  | .unary _ operand _, opens => by
    simp only [Outline.ofExpression, opens_cons] at opens
    rw [check]
    exact check_binds caching opens.2
  | .binary left operator right span, opens => by
    simp only [Outline.ofExpression, opens_cons, opens_append] at opens
    rw [check]
    exact .bind (check_binds caching opens.2.1) fun _ =>
      .bind (check_binds caching opens.2.2) fun _ =>
        .bind (evaluate_binds caching .everything opens.2.1) fun _ =>
          .bind (evaluate_binds caching .everything opens.2.2) fun _ =>
            checkOperands_binds operator _ _ span

theorem checkComprehension_binds (caching : engine.Caching) : ∀ {comprehension : Comprehension},
    Opens mayOpen (Outline.ofComprehension comprehension) →
      (engine.checkComprehension comprehension).Binds mayOpen node names
  | ⟨_, _, _, _, clauses, _⟩, opens => by
    simp only [Outline.ofComprehension, opens_cons, opens_append] at opens
    rw [checkComprehension]
    exact checkFirstIterable_binds caching opens.2.2

theorem checkFirstIterable_binds (caching : engine.Caching) : ∀ {clauses : List Clause},
    Opens mayOpen (Outline.ofClauses clauses) →
      (engine.checkFirstIterable clauses).Binds mayOpen node names
  | [], _ => by
    rw [checkFirstIterable]
    exact .pure ()
  | .iteration _ iterable _ :: _, opens => by
    simp only [Outline.ofClauses, opens_append] at opens
    rw [checkFirstIterable]
    exact check_binds caching opens.1.2
  | .condition _ _ :: rest, opens => by
    simp only [Outline.ofClauses, opens_append] at opens
    rw [checkFirstIterable]
    exact checkFirstIterable_binds caching opens.2

theorem checkOptional_binds (caching : engine.Caching) : ∀ {expression : Option Expression},
    Opens mayOpen (Outline.ofOptional expression) →
      (engine.checkOptional expression).Binds mayOpen node names
  | none, _ => by
    rw [checkOptional]
    exact .pure ()
  | some expression, opens => by
    rw [checkOptional]
    exact check_binds caching opens

theorem checkAll_binds (caching : engine.Caching) : ∀ {expressions : List Expression},
    Opens mayOpen (Outline.ofExpressions expressions) →
      (engine.checkAll expressions).Binds mayOpen node names
  | [], _ => by
    rw [checkAll]
    exact .pure ()
  | expression :: rest, opens => by
    simp only [Outline.ofExpressions, opens_append] at opens
    rw [checkAll]
    exact .bind (check_binds caching opens.1) fun _ => checkAll_binds caching opens.2

theorem checkEntries_binds (caching : engine.Caching) :
    ∀ {entries : List (Expression × Expression)}, Opens mayOpen (Outline.ofEntries entries) →
      (engine.checkEntries entries).Binds mayOpen node names
  | [], _ => by
    rw [checkEntries]
    exact .pure ()
  | (key, value) :: rest, opens => by
    simp only [Outline.ofEntries, opens_append] at opens
    rw [checkEntries]
    exact .bind (check_binds caching opens.1.1) fun _ =>
      .bind (check_binds caching opens.1.2) fun _ => checkEntries_binds caching opens.2

theorem checkArguments_binds (caching : engine.Caching) : ∀ {arguments : List CallArgument},
    Opens mayOpen (Outline.ofArguments arguments) →
      (engine.checkArguments arguments).Binds mayOpen node names
  | [], _ => by
    rw [checkArguments]
    exact .pure ()
  | ⟨_, value⟩ :: rest, opens => by
    simp only [Outline.ofArguments, opens_append] at opens
    rw [checkArguments]
    exact .bind (check_binds caching opens.1) fun _ => checkArguments_binds caching opens.2

end

theorem checkedValue_binds (caching : engine.Caching) {expression : Expression}
    (opens : Opens mayOpen (Outline.ofExpression expression)) :
    (engine.checkedValue expression).Binds mayOpen node names :=
  .bind (check_binds caching opens) fun _ => evaluate_binds caching .everything opens

theorem annotatedValue_binds (caching : engine.Caching) {hint : Expression}
    (hinted : Opens mayOpen (Outline.ofExpression hint)) {value : Option Expression}
    (opens : Opens mayOpen (Outline.ofOptional value)) :
    (engine.annotatedValue hint value).Binds mayOpen node names := by
  have typed : (engine.evaluateTypeHint hint).Binds mayOpen node names :=
    .of_touches (readTypeHint_touches hint (evaluate_touches caching .everything hinted))
  have assigned : (engine.checkedOptional value).Binds mayOpen node names := by
    cases value with
    | none => exact .pure none
    | some expression => exact .bind (checkedValue_binds caching opens) fun _ => .pure _
  refine .bind typed fun declared => .bind assigned fun found => ?_
  dsimp only
  split
  · exact .reads fun _ => .pure _
  · exact .pure _

/-- An assignment to a target that is no attribute of the receiver binds the names in it. -/
theorem assignTarget_binds {frame : Frame} {target : Expression}
    (spares : target.SparesReceiver frame.receiver) (span : Span) (value : Value) :
    (assignTarget frame span value target).Binds mayOpen node target.targetNames := by
  unfold assignTarget
  split
  · next identifier =>
    split
    · exact .pure ()
    · exact .declare List.mem_cons_self _ _ _ _
  · next object name _ =>
    split
    · next owner receiver _ isReceiver =>
      rw [isReceiver] at spares
      rw [if_neg fun same => spares.elim nofun (· same)]
      exact .pure ()
    · exact .pure ()
  · split
    · next items listed =>
      rw [Expression.targetNames_of_targetsOf? listed]
      exact .of_declares (Analysis.Declares.unpack items value.iterate)
    · exact .pure ()

theorem assignTargets_binds {frame : Frame} (span : Span) (value : Value) :
    ∀ {targets : List Expression}, (∀ target ∈ targets, target.SparesReceiver frame.receiver) →
      (assignTargets frame span value targets).Binds mayOpen node
        (Expression.namesOfTargets targets)
  | [], _ => .pure ()
  | _ :: _, spares =>
    have both := List.forall_mem_cons.mp spares
    .append (assignTarget_binds both.1 span value) fun _ => assignTargets_binds span value both.2

mutual

theorem walkStatement_binds (caching : engine.Caching) {frame : Frame} :
    ∀ {statement : Statement}, Opens mayOpen (Outline.ofStatement statement) →
      statement.IsSimple frame.receiver →
        (engine.walkStatement frame statement).Binds mayOpen node statement.boundNames
  | .expression evaluated _, opens, _ => by
    simp only [Outline.ofStatement, opens_cons] at opens
    rw [walkStatement]
    exact .bind (checkedValue_binds caching opens.2) fun _ => .pure ()
  | .assign targets value span, opens, simple => by
    simp only [Outline.ofStatement, opens_cons, opens_append] at opens
    rw [Statement.IsSimple] at simple
    rw [walkStatement, Statement.boundNames]
    exact .bind (checkedValue_binds caching opens.2.2) fun assigned =>
      assignTargets_binds span assigned simple
  | .annotated target hint value span, opens, simple => by
    simp only [Outline.ofStatement, opens_cons, opens_append] at opens
    rw [Statement.IsSimple] at simple
    rw [walkStatement, Statement.boundNames]
    exact .bind (annotatedValue_binds caching opens.2.1.2 opens.2.2) fun assigned =>
      assignTarget_binds simple span assigned
  | .branch test body otherwise _, opens, simple => by
    simp only [Outline.ofStatement, opens_cons, opens_append] at opens
    rw [Statement.IsSimple] at simple
    rw [walkStatement, Statement.boundNames]
    exact .bind (checkedValue_binds caching opens.2.1.1) fun _ =>
      .append (walkBlock_binds caching opens.2.1.2 simple.1) fun _ =>
        walkBlock_binds caching opens.2.2 simple.2
  | .iteration target iterable body otherwise span, opens, simple => by
    simp only [Outline.ofStatement, opens_cons, opens_append] at opens
    rw [Statement.IsSimple] at simple
    rw [walkStatement, Statement.boundNames]
    exact .bind (checkedValue_binds caching opens.2.1.1.2) fun value =>
      .append (.of_declares (Analysis.Declares.bindIterationTarget target value)) fun _ =>
        .append (walkBlock_binds caching opens.2.1.2 simple.1) fun _ =>
          walkBlock_binds caching opens.2.2 simple.2
  | .loop test body otherwise _, opens, simple => by
    simp only [Outline.ofStatement, opens_cons, opens_append] at opens
    rw [Statement.IsSimple] at simple
    rw [walkStatement, Statement.boundNames]
    exact .bind (checkedValue_binds caching opens.2.1.1) fun _ =>
      .append (walkBlock_binds caching opens.2.1.2 simple.1) fun _ =>
        walkBlock_binds caching opens.2.2 simple.2
  | .pass _, _, _ => by
    rw [walkStatement]
    exact .pure ()
  | .ret _ _, _, simple | .function _, _, simple | .classDefinition _, _, simple
  | .global _ _, _, simple | .nonlocal _ _, _, simple => by
    rw [Statement.IsSimple] at simple
    exact simple.elim

theorem walkBlock_binds (caching : engine.Caching) {frame : Frame} : ∀ {block : List Statement},
    Opens mayOpen (Outline.ofStatements block) → Statement.BlockIsSimple frame.receiver block →
      (engine.walkBlock frame block).Binds mayOpen node (Statement.blockNames block)
  | [], _, _ => by
    rw [walkBlock]
    exact .pure ()
  | statement :: rest, opens, simple => by
    simp only [Outline.ofStatements, opens_append] at opens
    rw [Statement.BlockIsSimple] at simple
    rw [walkBlock, Statement.blockNames]
    exact .append (walkStatement_binds caching opens.1 simple.1) fun _ =>
      walkBlock_binds caching opens.2 simple.2

end

/-- Simple statements that are walked at rest lead to progress at rest, and change values at the
places of the names that they bind and of comprehensions only. -/
theorem walkBlock_leads (depth : Nat) {environment : Environment} {before after : Progress}
    {frame : Frame} {block : List Statement} (rest : before.AtRest environment)
    (framed : Within rest.grounded.references frame) (wellFormed : before.scopes.WellFormed)
    (hosts : before.scopes.Hosts mayOpen) (isAt : before.scopes.IsAt node)
    (opens : Opens mayOpen (Outline.ofStatements block))
    (simple : Statement.BlockIsSimple frame.receiver block)
    (walked : (Engine.atDepth depth).walkBlock frame block environment before = .ok () after) :
    before.Leads environment (binding mayOpen node (Statement.blockNames block)) after := by
  have binds := walkBlock_binds (atDepth_caching depth) opens simple environment before
    rest.settled hosts isAt
  rw [after_of_ok walked] at binds
  have permitted : (Logic.grounding Unit).Permits rest.grounded.references block :=
    Statement.BlockPermitted.of_opens (fun _ _ => trivial) (fun _ _ => trivial)
      fun _ _ _ _ => trivial
  have grounds : Grounds environment none before fun _ : Unit =>
      (Engine.atDepth depth).walkBlock frame block :=
    walkBlock_holds (areGrounded_atDepth depth _) framed permitted environment before rest.grounded
      fun _ has => has
  have owned : before.store.Owned False := Operation.owned_unconfined _
  obtain ⟨rests, -⟩ := rest.restsTo_of_ok grounds
    (walkBlock_keeps (atDepth_shaping depth) ⟨fun _ _ => trivial, fun _ _ => trivial⟩ block).shaping
    ((walkBlock_keeps (atDepth_proceeds depth) ⟨fun owner _ => Operation.mayOwn_unconfined _ owner,
      fun _ _ => trivial⟩ block).proceeds owned)
    binds.stores.spares walked
  exact ⟨rests, binds.scopes, binds.wellFormed wellFormed, binds.stack⟩

end Engine

end TypeInference
