import TypeInference.Proofs.Spending

/-!
# What programs cost

A statement costs what its charges say. A definition costs everything that can happen in its
body, since the evaluation of the function is paid for then: whether it is called, read, needed
by another function or left for the end makes no difference, and neither does how often that
happens. So engines of all depths spend nothing, and a module costs its charges.
-/

namespace TypeInference

open Analysis Charge

variable {ledger : Ledger} {engine : Engine} {bill : List Charge}

namespace Engine

theorem insertFunctionFlags_unmoved (function : FunctionId) (flags : FunctionFlags) :
    (insertFunctionFlags function flags).Unmoved :=
  .modifyStore fun store => store.standings_modifyFunction function fun _ => rfl

theorem decorate_standing (record : FunctionRecord) (decorator : String) :
    (record.decorate decorator).2.standing = record.standing := by
  unfold FunctionRecord.decorate
  split <;> rfl

theorem applyDecorator_costs (spends : engine.Spends ledger) (function : FunctionId)
    (decorator : Expression) :
    (engine.applyDecorator function decorator).Costs ledger
      (indices false (decoratorCallee decorator).positions) := by
  unfold applyDecorator
  split
  · exact .of_unmoved (insertFunctionFlags_unmoved _ _)
  · refine .before_free (evaluate_costs spends false _ _) fun value => ?_
    split
    · exact .of_unmoved (.modifyStore fun store =>
        store.standings_modifyFunction function fun record => decorate_standing record _)
    · exact .pure _
    · exact .of_unmoved (insertFunctionFlags_unmoved _ _)

theorem applyDecorators_costs (spends : engine.Spends ledger) (function : FunctionId)
    (listed : List Expression) :
    (engine.applyDecorators function listed).Costs ledger (decorators listed) := by
  induction listed with
  | nil => exact .pure _
  | cons decorator rest inductionHypothesis =>
    rw [decorators, List.flatMap_cons, indices_append]
    exact .bind (applyDecorator_costs spends function decorator) fun _ => inductionHypothesis

theorem declareDefinition_costs (spends : engine.Spends ledger)
    (definition : FunctionDefinition) (owner : Option ClassId) :
    (engine.declareFunction definition owner).Costs ledger
      (ofStatement none (.function definition)) := by
  rw [ofStatement]
  exact declareFunction_costs owner fun function => applyDecorators_costs spends function _

theorem setAttribute_unmoved (owner : ClassId) (name : String) (value : Value) :
    (setAttribute owner name value).Unmoved := by
  refine .modifyStore fun store => ?_
  split
  · split
    · exact store.standings_addMember _ _ _ _
    · rfl
  · exact store.standings_addMember _ _ _ _

theorem setMember_unmoved (owner : ClassId) (name : String) (value : Value) (overwrite : Bool) :
    (modifyStore fun store => (store.addMember owner name value overwrite).2).Unmoved :=
  .modifyStore fun store => store.standings_addMember owner name value overwrite

theorem assignTarget_costs (frame : Frame) (span : Span) (value : Value) (target : Expression) :
    (assignTarget frame span value target).Costs ledger [] := by
  unfold assignTarget
  split
  · split
    · exact .pure _
    · exact .declare _ _ _ _ _
  · split
    · split
      · exact .of_unmoved (setAttribute_unmoved _ _ _)
      · exact .pure _
    · exact .pure _
  · split
    · exact unpack_costs _ _ _
    · exact .pure _

theorem assignTargets_costs (frame : Frame) (span : Span) (value : Value)
    (targets : List Expression) : (assignTargets frame span value targets).Costs ledger [] := by
  induction targets with
  | nil => exact .pure _
  | cons target rest inductionHypothesis =>
    exact .bind (assignTarget_costs frame span value target) fun _ => inductionHypothesis

mutual

theorem collectAttribute_costs (owner : ClassId) (value : Value) :
    ∀ target, (collectAttribute owner value target).Costs ledger []
  | .name identifier => by
    rw [collectAttribute]
    exact .after_free (.of_unmoved (setMember_unmoved _ _ _ _)) fun _ => .declare _ _ _ _ _
  | .display .list items _ | .display .tuple items _ => by
    rw [collectAttribute]
    exact collectAttributes_costs owner _ items
  | .display .set _ _ | .constant _ _ | .attribute _ _ _ | .index _ _ _ | .slice _ _ _ _
  | .call _ _ _ | .dict _ _ | .comprehension _ | .yield _ _ | .unary _ _ _ | .binary _ _ _ _ => by
    simp only [collectAttribute]
    exact .pure _

theorem collectAttributes_costs (owner : ClassId) (elements : Option Elements) :
    ∀ targets, (collectAttributes owner elements targets).Costs ledger []
  | [] => by rw [collectAttributes]; exact .pure _
  | target :: rest => by
    rw [collectAttributes]
    exact .bind (collectAttribute_costs owner _ target) fun _ =>
      collectAttributes_costs owner _ rest

end

theorem collectTargets_costs (owner : ClassId) (value : Value) (targets : List Expression) :
    (collectTargets owner value targets).Costs ledger [] := by
  induction targets with
  | nil => exact .pure _
  | cons target rest inductionHypothesis =>
    exact .bind (collectAttribute_costs owner value target) fun _ => inductionHypothesis

theorem returnValue_costs (frame : Frame) (value : Value) (span : Span) :
    (returnValue frame value span).Costs ledger (toOverload frame.overload) := by
  unfold returnValue
  cases frame.overload with
  | none => exact .pure _
  | some overload =>
    refine .store fun _ => ?_
    split
    · exact .after_free (.of_unmoved (.report _ (by simp [Lint.code]))) fun _ =>
        .addReturn overload value
    · exact .addReturn overload value

theorem redirectNames_costs (redirect : Scopes → String → Except Fault Scopes)
    (names : List Identifier) : (redirectNames redirect names).Costs ledger [] := by
  induction names with
  | nil => exact .pure _
  | cons name rest inductionHypothesis =>
    exact .after_free (.of_unmoved (.changeScopes _)) fun _ => inductionHypothesis

theorem collectMethod_costs (spends : engine.Spends ledger) (owner : ClassId)
    (definition : FunctionDefinition) :
    (engine.collectMethod owner definition).Costs ledger
      (ofStatement none (.function definition)) :=
  .before_free (declareDefinition_costs spends definition (some owner)) fun _ =>
    .after_free (.of_unmoved (setMember_unmoved _ _ _ _)) fun _ => .declare _ _ _ _ _

theorem evaluateBases_costs (spends : engine.Spends ledger) (bases : List Expression) :
    (engine.evaluateBases bases).Costs ledger
      (indices false (Expression.itemPositions bases)) := by
  induction bases with
  | nil => exact .pure _
  | cons base rest inductionHypothesis =>
    rw [Expression.itemPositions, indices_append]
    refine .bind (evaluate_costs spends false _ base) fun value =>
      .before_free inductionHypothesis fun _ => ?_
    split <;> exact .pure _

theorem createClass_unmoved (definition : ClassDefinition) :
    (createClass definition).Unmoved :=
  fun _ _ => ⟨rfl, rfl, rfl⟩

mutual

theorem walkStatement_costs (spends : engine.Spends ledger) (frame : Frame) :
    ∀ statement, (engine.walkStatement frame statement).Costs ledger
      (ofStatement frame.overload statement)
  | .expression expression _ => by
    rw [walkStatement, ofStatement]
    exact .before_free (checkedValue_costs spends expression) fun _ => .pure _
  | .assign targets value span => by
    rw [walkStatement, ofStatement]
    exact .before_free (checkedValue_costs spends value) fun _ =>
      assignTargets_costs frame span _ targets
  | .annotated target hint value span => by
    rw [walkStatement, ofStatement]
    exact .before_free (annotatedValue_costs spends hint value) fun _ =>
      assignTarget_costs frame span _ target
  | .ret value span => by
    rw [walkStatement, ofStatement]
    exact .bind (checkedOptional_costs spends value) fun _ => returnValue_costs frame _ span
  | .function definition => by
    rw [walkStatement]
    have declared := declareDefinition_costs spends definition none
    rw [ofStatement] at declared ⊢
    exact .before_free declared fun _ => .declare _ _ _ _ _
  | .classDefinition definition => by
    rw [walkStatement, ofStatement]
    exact .before_free (declareClass_costs spends definition) fun _ => .pure _
  | .global names _ => by rw [walkStatement]; exact redirectNames_costs _ names
  | .nonlocal names _ => by rw [walkStatement]; exact redirectNames_costs _ names
  | .branch test body otherwise _ => by
    rw [walkStatement, ofStatement]
    exact .bind (checkedValue_costs spends test) fun _ =>
      .bind (walkBlock_costs spends frame body) fun _ => walkBlock_costs spends frame otherwise
  | .iteration target iterable body otherwise span => by
    rw [walkStatement, ofStatement]
    exact .bind (checkedValue_costs spends iterable) fun _ =>
      .after_free (bindIterationTarget_costs _ _ _) fun _ =>
        .bind (walkBlock_costs spends frame body) fun _ => walkBlock_costs spends frame otherwise
  | .loop test body otherwise _ => by
    rw [walkStatement, ofStatement]
    exact .bind (checkedValue_costs spends test) fun _ =>
      .bind (walkBlock_costs spends frame body) fun _ => walkBlock_costs spends frame otherwise
  | .pass _ => by rw [walkStatement]; exact .pure _

theorem walkBlock_costs (spends : engine.Spends ledger) (frame : Frame) :
    ∀ block, (engine.walkBlock frame block).Costs ledger (ofBlock frame.overload block)
  | [] => by rw [walkBlock]; exact .pure _
  | statement :: rest => by
    rw [walkBlock, ofBlock]
    exact .bind (walkStatement_costs spends frame statement) fun _ =>
      walkBlock_costs spends frame rest

theorem collectMembers_costs (spends : engine.Spends ledger) (owner : ClassId) :
    ∀ body, (engine.collectMembers owner body).Costs ledger (ofBlock none body)
  | [] => by rw [collectMembers]; exact .pure _
  | statement :: rest => by
    have others := collectMembers_costs spends owner rest
    have walked := walkStatement_costs spends (Frame.ofClass owner) statement
    rw [ofBlock]
    match statement with
    | .function definition =>
      rw [collectMembers]
      exact .bind (collectMethod_costs spends owner definition) fun _ => others
    | .classDefinition definition =>
      rw [collectMembers, ofStatement]
      exact .bind (declareClass_costs spends definition) fun _ =>
        .after_free (.of_unmoved (setMember_unmoved _ _ _ _)) fun _ => others
    | .assign targets value _ =>
      rw [collectMembers, ofStatement]
      exact .bind (checkedValue_costs spends value) fun _ =>
        .after_free (collectTargets_costs owner _ targets) fun _ => others
    | .annotated target hint value _ =>
      rw [collectMembers, ofStatement]
      exact .bind (annotatedValue_costs spends hint value) fun _ =>
        .after_free (collectAttribute_costs owner _ target) fun _ => others
    -- Every other statement is walked as in any block.
    | .expression _ _ | .ret _ _ | .global _ _ | .nonlocal _ _ | .branch _ _ _ _
    | .iteration _ _ _ _ _ | .loop _ _ _ _ | .pass _ =>
      simp only [collectMembers]
      exact .bind walked fun _ => others

theorem declareClass_costs (spends : engine.Spends ledger) :
    ∀ definition, (engine.declareClass definition).Costs ledger (ofClass definition)
  | ⟨node, name, bases, body, decorators, span⟩ => by
    rw [declareClass, ofClass]
    refine .get fun progress => ?_
    split
    · exact .pure _
    · exact .after_free (.of_unmoved (createClass_unmoved _)) fun id =>
        .bind (.before_free (evaluateBases_costs spends bases) fun _ =>
          .of_unmoved (.modifyStore fun _ => rfl)) fun _ =>
        .after_free (.declare _ _ _ _ _) fun _ =>
          .before_free (.inScope fun _ => .after_free (.declare _ _ _ _ _) fun _ =>
            collectMembers_costs spends id body) fun _ => .pure _

end

theorem optionalTypeHint_costs (spends : engine.Spends ledger) (hint : Option Expression) :
    (engine.optionalTypeHint hint).Costs ledger
      (indices false (Expression.optionalPositions hint)) := by
  cases hint with
  | none => exact .pure _
  | some hint => exact evaluateTypeHint_costs spends false hint

theorem optionalValue_costs (spends : engine.Spends ledger) (expression : Option Expression) :
    (engine.optionalValue expression).Costs ledger
      (indices false (Expression.optionalPositions expression)) := by
  cases expression with
  | none => exact .pure _
  | some expression =>
    exact .before_free (evaluate_costs spends false .everything expression) fun _ => .pure _

theorem declareParameter_costs (spends : engine.Spends ledger) (function : FunctionId)
    (node : NodeId) (place : Nat) (parameter : Parameter) :
    (engine.declareParameter function node place parameter).Costs ledger
      (parameters [parameter]) := by
  simp only [parameters, List.flatMap_cons, List.flatMap_nil, List.append_nil, indices_append]
  exact .bind (optionalTypeHint_costs spends _) fun _ =>
    .before_free (optionalValue_costs spends _) fun _ => .store fun _ =>
      .after_free (.declare _ _ _ _ _) fun _ => .pure _

theorem declareParameters_costs (spends : engine.Spends ledger) (function : FunctionId)
    (node : NodeId) (listed : List Parameter) : ∀ place,
    (engine.declareParameters function node place listed).Costs ledger (parameters listed) := by
  induction listed with
  | nil => exact fun _ => .pure _
  | cons parameter rest inductionHypothesis =>
    intro place
    have apart : parameters (parameter :: rest) = parameters [parameter] ++ parameters rest := by
      simp [parameters]
    rw [apart]
    exact .bind (declareParameter_costs spends function node place parameter) fun _ =>
      .before_free (inductionHypothesis (place + 1)) fun _ => .pure _

theorem setDeclaredReturn_unmoved (id : OverloadId) (value : Value) :
    (setDeclaredReturn id value).Unmoved := by
  unfold setDeclaredReturn changeOverload
  exact .modifyStore fun store => store.standings_modifyOverload id fun _ => rfl

theorem setParameters_unmoved (id : OverloadId) (parameters : List FormalParameter) :
    (changeOverload id fun overload => { overload with parameters }).Unmoved := by
  unfold changeOverload
  exact .modifyStore fun store => store.standings_modifyOverload id fun _ => rfl

theorem declareReturn_costs (spends : engine.Spends ledger) (id : OverloadId)
    (definition : FunctionDefinition) :
    (engine.declareReturn id definition).Costs ledger
      (declaredReturn definition.returns definition.body) := by
  unfold declareReturn declaredReturn
  cases definition.returns with
  | some hint =>
    exact .before_free (evaluateTypeHint_costs spends false hint) fun _ => .store fun _ =>
      .of_unmoved (setDeclaredReturn_unmoved id _)
  | none =>
    dsimp only
    cases topLevelYield? definition.body with
    | none => exact .pure _
    | some value =>
      exact .after_free (.of_unmoved (insertFunctionFlags_unmoved _ _)) fun _ =>
        .before_free (optionalValue_costs spends value) fun _ =>
          .of_unmoved (setDeclaredReturn_unmoved id _)

/-- What is wrong with a receiver is not an index. -/
theorem code_of_receiverProblem? {store : Store} {owner : ClassId} {record : FunctionRecord}
    {definition : FunctionDefinition} {lint : Lint} {span : Span}
    (found : receiverProblem? store owner record definition = some (lint, span)) :
    lint.code ≠ "bad-index-type" := by
  unfold receiverProblem? at found
  dsimp only at found
  split at found
  · cases found
  · split at found
    · cases found
      simp [Lint.code]
    · split at found
      · cases found
      · split at found <;> split at found <;> cases found <;> simp [Lint.code]

theorem checkReceiver_costs (function : FunctionId) (definition : FunctionDefinition) :
    (checkReceiver function definition).Costs ledger [] := by
  refine .store fun store => ?_
  dsimp only
  split
  · exact .pure _
  · split
    · next lint span found => exact .of_unmoved (.report _ (code_of_receiverProblem? found))
    · exact .pure _

theorem walkBody_costs (spends : engine.Spends ledger) (id : OverloadId)
    (definition : FunctionDefinition) :
    (engine.walkBody id definition).Costs ledger
      (orReturn id (ofBlock (some id) definition.body)) := by
  refine .store fun store => .options fun options => ?_
  have walked : (engine.walkBlock (.ofOverload store id definition) definition.body).Costs ledger
    (ofBlock (some id) definition.body) :=
    walkBlock_costs spends (.ofOverload store id definition) definition.body
  dsimp only
  split
  · exact .completing walked _
  · exact .completing (.pure ()) _

theorem evaluateContents_costs (spends : engine.Spends ledger) (function : FunctionId)
    (definition : FunctionDefinition) :
    (engine.evaluateContents ⟨function, 0⟩ definition).Costs ledger
      (evaluation function definition) := by
  have parts : (engine.evaluateContents ⟨function, 0⟩ definition).Costs ledger
      (parameters definition.parameters ++ (declaredReturn definition.returns definition.body ++
        orReturn ⟨function, 0⟩ (ofBlock (some ⟨function, 0⟩) definition.body))) :=
    .bind (declareParameters_costs spends _ _ _ _) fun listed =>
      .after_free (.of_unmoved (setParameters_unmoved ⟨function, 0⟩ listed)) fun _ =>
      .bind (declareReturn_costs spends ⟨function, 0⟩ definition) fun _ =>
        .before_free (walkBody_costs spends ⟨function, 0⟩ definition) fun _ =>
          checkReceiver_costs _ _
  refine parts.mono fun charge => ?_
  obtain ⟨_, _, listed, returns, body, _, _⟩ := definition
  rw [evaluation, count_orReturn, List.count_append, List.count_append, count_orReturn]
  simp only [ofFunction, List.count_append]
  split
  · next same =>
    -- Nothing is returned by parameters and by what declares the return.
    subst same
    simp [parameters, declaredReturn]
  · exact le_rfl

theorem makeSpecialization_costs (spends : engine.Spends ledger) (template : ClassId)
    (evidence : Evidence) : (engine.makeSpecialization template evidence).Costs ledger [] := by
  have substituted : (Judgement.free ledger).Substitutes (fun _ => engine) () evidence.bindings :=
    substitutes spends.follows (within_every _)
  have changes {change : Store → Store}
      (same : ∀ store : Store, (change store).standings = store.standings) :
      (modifyStore change).Costs ledger [] := .of_unmoved (.modifyStore same)
  refine .store fun store => .after_free (.of_unmoved fun _ _ => ⟨rfl, rfl, rfl⟩)
    fun placeholder => .after_free (changes fun _ => rfl) fun _ => .after_free
      (.withCleanup ?_ fun _ => ⟨rfl, rfl, rfl⟩) fun _ => .of_unmoved fun _ _ => ⟨rfl, rfl, rfl⟩
  exact materialize_holds substituted template placeholder (fun _ _ _ _ => changes fun _ => rfl)
    fun _ name _ value _ => .of_unmoved (setMember_unmoved placeholder name value true)

theorem specializeClass_costs (spends : engine.Spends ledger) (id : ClassId)
    (arguments : Arguments) : (engine.specializeClass id arguments).Costs ledger [] := by
  refine .store fun store => ?_
  split
  · exact spends.specialize _ _
  · refine .after_free (ensureConstructed_holds spends.follows id) fun _ => .store fun store => ?_
    dsimp only
    split
    · exact .pure _
    · split
      · exact .pure _
      · split
        · exact .pure _
        · exact makeSpecialization_costs spends id _

/-- Engines of all depths spend nothing. -/
theorem atDepth_spends (ledger : Ledger) (depth : Nat) : (atDepth depth).Spends ledger := by
  induction depth with
  | zero => exact ⟨fun _ => .throw _, fun _ _ => .throw _⟩
  | succ depth inductionHypothesis =>
    exact
      { evaluateFunction := evaluateDefinition_costs fun function definition =>
          evaluateContents_costs inductionHypothesis function definition
        specialize := specializeClass_costs inductionHypothesis }

end Engine

namespace Analysis

theorem declareAttributes_costs (names : List String) :
    (declareAttributes names).Costs ledger [] := by
  induction names with
  | nil => exact .pure _
  | cons name rest inductionHypothesis =>
    exact .store fun _ => .after_free (.declare _ _ _ _ _) fun _ => inductionHypothesis

theorem evaluateDeclared_costs (spends : engine.Spends ledger) (bound : Nat) :
    ∀ place, (evaluateDeclared engine bound place).Costs ledger [] := by
  induction bound with
  | zero => exact fun _ => .throw _
  | succ bound inductionHypothesis =>
    refine fun place => .get fun progress => ?_
    split
    · exact .pure _
    · exact .after_free (spends.evaluateFunction _) fun _ => inductionHypothesis _

/-- A module costs its charges, however deep evaluations may be nested. -/
theorem ofModuleWithin_costs (ledger : Ledger) (depth : Nat) (module : Module) :
    (ofModuleWithin depth module).Costs ledger module.charges :=
  .inScope fun _ => .after_free (declareAttributes_costs _) fun _ =>
    .before_free (Engine.walkBlock_costs (Engine.atDepth_spends ledger depth) .module _)
      fun _ => .after_free (evaluateDeclared_costs (Engine.atDepth_spends ledger depth) _ _)
        fun _ => .after_free (.of_unmoved fun _ _ => .refl _) fun _ => .pure _

end Analysis

end TypeInference
