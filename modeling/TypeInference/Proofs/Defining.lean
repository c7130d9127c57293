import TypeInference.Analysis.Module
import TypeInference.Proofs.Evaluating

/-!
# Walks and evaluations of functions keep disciplines

Declarations create functions and classes, and bodies set members of the class
they belong to. A method may set members of the class that declares it: it gets its
class where it is declared. From the engine of one depth follows the one of the next,
and so every engine follows a discipline that specializations keep.
-/

namespace TypeInference

open Analysis

/-- The class that a frame sets members on may own them, and the overload that collects returned
values may be changed. -/
structure Frame.Owns (frame : Frame) (discipline : Discipline) (world : discipline.World) :
    Prop where
  owner : ∀ owner, frame.owner = some owner → discipline.MayOwn world owner
  overload : ∀ id, frame.overload = some id → discipline.MayRecord id

/-- The frame of a module sets no members and collects no returned values. -/
theorem Frame.module_owns {discipline : Discipline} {world : discipline.World} :
    Frame.module.Owns discipline world where
  owner _ impossible := nomatch impossible
  overload _ impossible := nomatch impossible

/-- The frame of the body of a class sets members on this class. -/
theorem Frame.ofClass_owns {discipline : Discipline} {world : discipline.World} {owner : ClassId}
    (mayOwn : discipline.MayOwn world owner) : (Frame.ofClass owner).Owns discipline world where
  owner _ same := Option.some.inj same ▸ mayOwn
  overload _ impossible := nomatch impossible

namespace Engine

variable {discipline : Discipline} {world : discipline.World} {engine : Engine}

/-- Decorating keeps the identity of a function and its overloads. -/
theorem sameIdentity_decorate (record : FunctionRecord) (decorator : String) :
    record.SameIdentity (record.decorate decorator).2 ∧
      (record.decorate decorator).2.overloads = record.overloads := by
  unfold FunctionRecord.decorate
  split <;> exact ⟨⟨rfl, rfl, rfl⟩, rfl⟩

theorem insertFunctionFlags_keeps {function : FunctionId}
    (mayChange : discipline.MayChange function) (flags : FunctionFlags) :
    (insertFunctionFlags function flags).Keeps discipline world :=
  discipline.changeFunction mayChange fun _ _ => ⟨⟨rfl, rfl, rfl⟩, rfl⟩

theorem applyDecorator_keeps (follows : engine.Follows discipline) {function : FunctionId}
    (mayChange : discipline.MayChange function) (decorator : Expression) :
    (engine.applyDecorator function decorator).Keeps discipline world := by
  unfold applyDecorator
  split
  · exact insertFunctionFlags_keeps mayChange _
  · refine .bind (evaluate_keeps follows _ _) fun value => ?_
    split
    · exact discipline.changeFunction mayChange fun _ record => sameIdentity_decorate record _
    · exact .pure _
    · exact insertFunctionFlags_keeps mayChange _

theorem applyDecorators_keeps (follows : engine.Follows discipline) {function : FunctionId}
    (mayChange : discipline.MayChange function) (decorators : List Expression) :
    (engine.applyDecorators function decorators).Keeps discipline world := by
  induction decorators with
  | nil => exact .pure _
  | cons decorator rest inductionHypothesis =>
    exact .bind (applyDecorator_keeps follows mayChange decorator) fun _ =>
      inductionHypothesis

theorem declareFunction_keeps (follows : engine.Follows discipline)
    (definition : FunctionDefinition) (owner : Option ClassId)
    (mayOwn : ∀ id, owner = some id → discipline.MayOwn world id) :
    (engine.declareFunction definition owner).Keeps discipline world := by
  refine .read (fun _ _ => rfl) fun progress => ?_
  split
  · exact .pure _
  · exact .bind (.qualifiedName _) fun name =>
      .createFunction definition name mayOwn fun function mayChange =>
        .bind (applyDecorators_keeps follows mayChange _) fun _ =>
          .currentScope fun scope =>
            .bind (discipline.insertEntry world ⟨definition, scope, function⟩) fun _ => .pure _

theorem assignTarget_keeps {frame : Frame} (owns : frame.Owns discipline world) (span : Span)
    (value : Value) (target : Expression) :
    (assignTarget frame span value target).Keeps discipline world := by
  unfold assignTarget
  split
  · split
    · exact .pure _
    · exact .declare _ _ _ _ _
  · split
    · next owner receiver found _ =>
      split
      · exact .setAttribute (owns.owner owner found) _ _
      · exact .pure _
    · exact .pure _
  · split
    · exact unpack_keeps _ _ _
    · exact .pure _

theorem assignTargets_keeps {frame : Frame} (owns : frame.Owns discipline world) (span : Span)
    (value : Value) (targets : List Expression) :
    (assignTargets frame span value targets).Keeps discipline world := by
  induction targets with
  | nil => exact .pure _
  | cons target rest inductionHypothesis =>
    exact .bind (assignTarget_keeps owns span value target) fun _ => inductionHypothesis

mutual

theorem collectAttribute_keeps {owner : ClassId} (mayOwn : discipline.MayOwn world owner)
    (value : Value) :
    ∀ target, (collectAttribute owner value target).Keeps discipline world
  | .name identifier => by
    rw [collectAttribute]
    exact .bind (.setMember _ _ _ mayOwn) fun _ =>
      .declare _ _ _ _ _
  | .display .list items _ => by
    rw [collectAttribute]
    exact collectAttributes_keeps mayOwn _ items
  | .display .tuple items _ => by
    rw [collectAttribute]
    exact collectAttributes_keeps mayOwn _ items
  | .display .set _ _ | .constant _ _ | .attribute _ _ _ | .index _ _ _ | .slice _ _ _ _
  | .call _ _ _ | .dict _ _ | .comprehension _ | .yield _ _ | .unary _ _ _ | .binary _ _ _ _ => by
    simp only [collectAttribute]
    exact .pure _

theorem collectAttributes_keeps {owner : ClassId} (mayOwn : discipline.MayOwn world owner)
    (elements : Option Elements) :
    ∀ targets, (collectAttributes owner elements targets).Keeps discipline world
  | [] => by rw [collectAttributes]; exact .pure _
  | target :: rest => by
    rw [collectAttributes]
    exact .bind (collectAttribute_keeps mayOwn _ target) fun _ =>
      collectAttributes_keeps mayOwn _ rest

end

theorem collectTargets_keeps {owner : ClassId} (mayOwn : discipline.MayOwn world owner)
    (value : Value) (targets : List Expression) :
    (collectTargets owner value targets).Keeps discipline world := by
  induction targets with
  | nil => exact .pure _
  | cons target rest inductionHypothesis =>
    exact .bind (collectAttribute_keeps mayOwn value target) fun _ => inductionHypothesis

theorem returnValue_keeps {frame : Frame} (owns : frame.Owns discipline world) (value : Value)
    (span : Span) : (returnValue frame value span).Keeps discipline world := by
  unfold returnValue
  split
  · next overload collecting =>
    have mayRecord := owns.overload overload collecting
    refine .bind .store fun _ => ?_
    split
    · exact .bind (.report _ _) fun _ => .addReturn mayRecord _
    · exact .addReturn mayRecord _
  · exact .pure _

theorem redirectNames_keeps {redirect : Scopes → String → Except Fault Scopes}
    (redirects : ∀ name, (changeScopes fun scopes => redirect scopes name).Keeps discipline world)
    (names : List Identifier) : (redirectNames redirect names).Keeps discipline world := by
  induction names with
  | nil => exact .pure _
  | cons name rest inductionHypothesis =>
    exact .bind (redirects name.name) fun _ => inductionHypothesis

theorem declareNamedFunction_keeps (follows : engine.Follows discipline)
    (definition : FunctionDefinition) :
    (engine.declareNamedFunction definition).Keeps discipline world :=
  .bind (declareFunction_keeps follows definition none fun _ impossible =>
    nomatch impossible) fun _ => .declare _ _ _ _ _

theorem collectMethod_keeps (follows : engine.Follows discipline) {owner : ClassId}
    (mayOwn : discipline.MayOwn world owner) (definition : FunctionDefinition) :
    (engine.collectMethod owner definition).Keeps discipline world :=
  .bind (declareFunction_keeps follows definition (some owner) fun id same => by
    cases same
    exact mayOwn) fun _ =>
    .bind (.setMember _ _ _ mayOwn) fun _ =>
      .declare _ _ _ _ _

theorem evaluateBases_keeps (follows : engine.Follows discipline) (bases : List Expression) :
    (engine.evaluateBases bases).Keeps discipline world := by
  induction bases with
  | nil => exact .pure _
  | cons base rest inductionHypothesis =>
    refine .bind (evaluate_keeps follows _ base) fun value =>
      .bind inductionHypothesis fun _ => ?_
    split <;> exact .pure _

mutual

theorem walkStatement_keeps (follows : engine.Follows discipline) {world : discipline.World}
    {frame : Frame} (owns : frame.Owns discipline world) :
    ∀ statement, (engine.walkStatement frame statement).Keeps discipline world
  | .expression expression _ => by
    rw [walkStatement]
    exact .bind (checkedValue_keeps follows expression) fun _ => .pure _
  | .assign targets value span => by
    rw [walkStatement]
    exact .bind (checkedValue_keeps follows value) fun _ =>
      assignTargets_keeps owns span _ targets
  | .annotated target hint value span => by
    rw [walkStatement]
    exact .bind (annotatedValue_keeps follows hint value) fun _ =>
      assignTarget_keeps owns span _ target
  | .ret value span => by
    rw [walkStatement]
    exact .bind (checkedOptional_keeps follows value) fun _ =>
      returnValue_keeps owns _ span
  | .function definition => by
    rw [walkStatement]
    exact declareNamedFunction_keeps follows definition
  | .classDefinition definition => by
    rw [walkStatement]
    exact .bind (declareClass_keeps follows definition) fun _ => .pure _
  | .global names _ => by
    rw [walkStatement]
    exact redirectNames_keeps (discipline.redirectGlobal world) names
  | .nonlocal names _ => by
    rw [walkStatement]
    exact redirectNames_keeps (discipline.redirectNonlocal world) names
  | .branch test body otherwise _ => by
    rw [walkStatement]
    exact .bind (checkedValue_keeps follows test) fun _ =>
      .bind (walkBlock_keeps follows owns body) fun _ =>
        walkBlock_keeps follows owns otherwise
  | .iteration target iterable body otherwise span => by
    rw [walkStatement]
    exact .bind (checkedValue_keeps follows iterable) fun _ =>
      .bind (bindIterationTarget_keeps _ _ _) fun _ =>
        .bind (walkBlock_keeps follows owns body) fun _ =>
          walkBlock_keeps follows owns otherwise
  | .loop test body otherwise _ => by
    rw [walkStatement]
    exact .bind (checkedValue_keeps follows test) fun _ =>
      .bind (walkBlock_keeps follows owns body) fun _ =>
        walkBlock_keeps follows owns otherwise
  | .pass _ => by rw [walkStatement]; exact .pure _

theorem walkBlock_keeps (follows : engine.Follows discipline) {world : discipline.World}
    {frame : Frame} (owns : frame.Owns discipline world) :
    ∀ block, (engine.walkBlock frame block).Keeps discipline world
  | [] => by rw [walkBlock]; exact .pure _
  | statement :: rest => by
    rw [walkBlock]
    exact .bind (walkStatement_keeps follows owns statement) fun _ =>
      walkBlock_keeps follows owns rest

theorem collectMembers_keeps (follows : engine.Follows discipline) {world : discipline.World}
    {owner : ClassId} (mayOwn : discipline.MayOwn world owner) :
    ∀ body, (engine.collectMembers owner body).Keeps discipline world
  | [] => by rw [collectMembers]; exact .pure _
  | statement :: rest => by
    have others := collectMembers_keeps follows mayOwn rest
    have walked := walkStatement_keeps follows (Frame.ofClass_owns mayOwn) statement
    match statement with
    | .function definition =>
      rw [collectMembers]
      exact .bind (collectMethod_keeps follows mayOwn definition) fun _ => others
    | .classDefinition definition =>
      rw [collectMembers]
      exact .bind (declareClass_keeps follows definition) fun _ =>
        .bind (.setMember _ _ _ mayOwn) fun _ => others
    | .assign targets value _ =>
      rw [collectMembers]
      exact .bind (checkedValue_keeps follows value) fun _ =>
        .bind (collectTargets_keeps mayOwn _ targets) fun _ => others
    | .annotated target hint value _ =>
      rw [collectMembers]
      exact .bind (annotatedValue_keeps follows hint value) fun _ =>
        .bind (collectAttribute_keeps mayOwn _ target) fun _ => others
    -- Every other statement is walked as in any block.
    | .expression _ _ | .ret _ _ | .global _ _ | .nonlocal _ _ | .branch _ _ _ _
    | .iteration _ _ _ _ _ | .loop _ _ _ _ | .pass _ =>
      simp only [collectMembers]
      exact .bind walked fun _ => others

theorem declareClass_keeps (follows : engine.Follows discipline) {world : discipline.World} :
    ∀ definition, (engine.declareClass definition).Keeps discipline world
  | ⟨node, name, bases, body, decorators, span⟩ => by
    rw [declareClass]
    refine .read (fun _ _ => rfl) fun progress => ?_
    split
    · exact .pure _
    · refine .createClass _ (fun _ => evaluateBases_keeps follows bases)
        fun _ id mayOwn => ?_
      exact .bind (.declare _ _ _ _ _) fun _ =>
        .bind (.inScope fun _ => .bind (.declare _ _ _ _ _) fun _ =>
          collectMembers_keeps follows mayOwn body) fun _ => .pure _

end

theorem optionalTypeHint_keeps (follows : engine.Follows discipline) (hint : Option Expression) :
    (engine.optionalTypeHint hint).Keeps discipline world := by
  cases hint with
  | none => exact .pure _
  | some hint => exact evaluateTypeHint_keeps follows hint

theorem optionalValue_keeps (follows : engine.Follows discipline) (expression : Option Expression) :
    (engine.optionalValue expression).Keeps discipline world := by
  cases expression with
  | none => exact .pure _
  | some expression =>
    exact .bind (evaluate_keeps follows .everything expression) fun _ => .pure _

theorem declareParameter_keeps (follows : engine.Follows discipline) (function : FunctionId)
    (node : NodeId) (place : Nat) (parameter : Parameter) :
    (engine.declareParameter function node place parameter).Keeps discipline world :=
  .bind (optionalTypeHint_keeps follows _) fun _ =>
    .bind (optionalValue_keeps follows _) fun _ => .bind .store fun _ =>
      .bind (.declare _ _ _ _ _) fun _ => .pure _

theorem declareParameters_keeps (follows : engine.Follows discipline) (function : FunctionId)
    (node : NodeId) (parameters : List Parameter) : ∀ place,
    (engine.declareParameters function node place parameters).Keeps discipline world := by
  induction parameters with
  | nil => exact fun _ => .pure _
  | cons parameter rest inductionHypothesis =>
    exact fun place =>
      .bind (declareParameter_keeps follows function node place parameter) fun _ =>
        .bind (inductionHypothesis (place + 1)) fun _ => .pure _

theorem declareReturn_keeps (follows : engine.Follows discipline) (id : OverloadId)
    (definition : FunctionDefinition) (mayChange : discipline.MayChange id.function)
    (mayRecord : discipline.MayRecord id) :
    (engine.declareReturn id definition).Keeps discipline world := by
  unfold declareReturn
  split
  · exact .bind (evaluateTypeHint_keeps follows _) fun _ => .bind .store fun _ =>
      .changeOverload mayRecord fun _ => rfl
  · split
    · exact .bind (insertFunctionFlags_keeps mayChange _) fun _ =>
        .bind (optionalValue_keeps follows _) fun _ => .changeOverload mayRecord fun _ => rfl
    · exact .pure _

theorem checkReceiver_keeps (function : FunctionId) (definition : FunctionDefinition) :
    (checkReceiver function definition).Keeps discipline world := by
  refine .bind .store fun store => ?_
  dsimp only
  split
  · exact .pure _
  · split
    · exact .report _ _
    · exact .pure _

theorem walkBody_keeps (follows : engine.Follows discipline) (id : OverloadId)
    (definition : FunctionDefinition) (defined : discipline.IsDefined world id.function)
    (mayRecord : discipline.MayRecord id) :
    (engine.walkBody id definition).Keeps discipline world := by
  refine .readOwner defined fun world store mayOwn => ?_
  -- Where nothing is returned and no type is declared, nothing is what is returned.
  have ending : ∀ _ : Unit, (do
      let store ← Analysis.store
      if ((store.overloadAt id).declaredReturn.isNone &&
          (store.overloadAt id).inferredReturns.isEmpty) = true then
        Analysis.addReturn id Store.noneObject
      else Pure.pure ()).Keeps discipline world := by
    refine fun _ => .bind .store fun _ => ?_
    split
    · exact .addReturn mayRecord _
    · exact .pure _
  have owns : (Frame.ofOverload store id definition).Owns discipline world :=
    ⟨mayOwn, fun _ same => Option.some.inj same ▸ mayRecord⟩
  have walked := walkBlock_keeps follows owns definition.body
  refine .bind .options fun _ => ?_
  dsimp only
  split
  · exact .bind walked ending
  · exact ending ()

/-- What is evaluated of an overload in its scope before it counts as evaluated. -/
def evaluateParts (engine : Engine) (id : OverloadId) (definition : FunctionDefinition)
    (scope : ScopeId) : Analysis Unit := do
  let parameters ← engine.declareParameters id.function definition.id 0 definition.parameters
  changeOverload id fun overload => { overload with parameters }
  engine.declareReturn id definition
  engine.walkBody id definition
  checkReceiver id.function definition
  if (← Analysis.options).discardsLocals then
    modify fun progress => { progress with scopes := progress.scopes.clearVariables scope }

/-- An overload counts as evaluated after all its parts. -/
theorem evaluateInside_eq (engine : Engine) (id : OverloadId) (definition : FunctionDefinition)
    (scope : ScopeId) :
    engine.evaluateInside id definition scope = (do
      engine.evaluateParts id definition scope
      changeOverload id fun overload => { overload with state := .evaluated }) := by
  unfold evaluateInside evaluateParts
  simp only [bind_assoc]
  refine bind_congr fun _ => bind_congr fun _ => bind_congr fun _ => bind_congr fun _ =>
    bind_congr fun _ => bind_congr fun options => ?_
  split
  · rfl
  · rw [pure_bind]

theorem evaluateParts_keeps (follows : engine.Follows discipline) (id : OverloadId)
    (definition : FunctionDefinition) (scope : ScopeId)
    (defined : discipline.IsDefined world id.function)
    (mayChange : discipline.MayChange id.function) (mayRecord : discipline.MayRecord id) :
    (engine.evaluateParts id definition scope).Keeps discipline world := by
  refine .bind (declareParameters_keeps follows _ _ _ _) fun _ =>
    .bind (.changeOverload mayRecord fun _ => rfl) fun _ =>
      .bind (declareReturn_keeps follows id definition mayChange mayRecord) fun _ =>
        .bind (walkBody_keeps follows id definition defined mayRecord) fun _ =>
          .bind (checkReceiver_keeps _ _) fun _ => .bind .options fun _ => ?_
  split
  · exact discipline.clearVariables world scope
  · exact .pure _

theorem evaluateOverload_keeps (follows : engine.Follows discipline) (id : OverloadId)
    (entry : FunctionEntry) (defined : discipline.IsDefined world id.function)
    (mayChange : discipline.MayChange id.function) :
    (whenPending id (engine.evaluateOverload id entry)).Keeps discipline world := by
  unfold evaluateOverload
  simp only [evaluateInside_eq]
  exact .evaluation entry mayChange fun mayRecord scope =>
    evaluateParts_keeps follows id entry.definition scope defined mayChange mayRecord

/-- Each overload is evaluated where it waits. -/
theorem evaluatePending_cons (engine : Engine) (function : FunctionId) (node : NodeId)
    (place : Nat) (rest : List Nat) :
    engine.evaluatePending function node (place :: rest) = (do
      let progress ← get
      if (progress.store.overloadAt ⟨function, place⟩).state = .pending then
        match progress.symbols.function? node with
        | some entry =>
          whenPending ⟨function, place⟩ (engine.evaluateOverload ⟨function, place⟩ entry)
        | none => throw (.fault (.unknownDefinition node))
      engine.evaluatePending function node rest) := by
  funext environment before
  rw [evaluatePending, bind_apply, bind_apply, get_apply]
  dsimp only
  split
  · next pending =>
    cases before.symbols.function? node with
    | none => rfl
    | some entry =>
      dsimp only
      rw [bind_apply, bind_apply, whenPending_of_pending pending]
  · rfl

theorem evaluatePending_keeps (follows : engine.Follows discipline) (function : FunctionId)
    (node : NodeId) (defined : discipline.IsDefined world function)
    (mayChange : discipline.MayChange function) (places : List Nat) :
    (engine.evaluatePending function node places).Keeps discipline world := by
  induction places with
  | nil => exact .pure _
  | cons place rest inductionHypothesis =>
    rw [evaluatePending_cons]
    refine .read (fun _ _ => rfl) fun progress => ?_
    dsimp only
    split
    · split
      · exact .bind (evaluateOverload_keeps follows ⟨function, place⟩ _ defined mayChange)
          fun _ => inductionHypothesis
      · exact .bind (.throw _) fun _ => inductionHypothesis
    · exact inductionHypothesis

theorem evaluateDefinition_keeps (follows : engine.Follows discipline) (function : FunctionId) :
    (engine.evaluateDefinition function).Keeps discipline world := by
  refine .readDefinition function fun world store defined => ?_
  dsimp only
  split
  · exact .pure _
  · next node known =>
    obtain ⟨isDefined, mayChange⟩ := defined (by rw [known]; exact Option.some_ne_none node)
    exact evaluatePending_keeps follows function node isDefined mayChange _

/-- The engine of every depth follows a discipline that specializations keep. -/
theorem atDepth_follows
    (specializes : ∀ engine : Engine, engine.Follows discipline → ∀ {world} id arguments,
      (engine.specializeClass id arguments).Keeps discipline world)
    (depth : Nat) : (Engine.atDepth depth).Follows discipline := by
  induction depth with
  | zero => exact exhausted_follows discipline
  | succ depth inductionHypothesis =>
    exact
      { evaluateFunction := fun function =>
          evaluateDefinition_keeps inductionHypothesis function
        specialize := fun id arguments => specializes _ inductionHypothesis id arguments }

end Engine

namespace Analysis

variable {discipline : Discipline} {world : discipline.World}

theorem declareAttributes_keeps (names : List String) :
    (declareAttributes names).Keeps discipline world := by
  induction names with
  | nil => exact .pure _
  | cons name rest inductionHypothesis =>
    exact .bind .store fun _ => .bind (.declare _ _ _ _ _) fun _ => inductionHypothesis

theorem evaluateDeclared_keeps {engine : Engine} (follows : engine.Follows discipline)
    (bound : Nat) : ∀ place, (evaluateDeclared engine bound place).Keeps discipline world := by
  induction bound with
  | zero => exact fun _ => .throw _
  | succ bound inductionHypothesis =>
    refine fun place => .read (fun _ _ => rfl) fun progress => ?_
    split
    · exact .pure _
    · exact .bind (follows.evaluateFunction _) fun _ => inductionHypothesis _

theorem ofModuleWithin_keeps (depth : Nat) (follows : (Engine.atDepth depth).Follows discipline)
    (module : Module) : (ofModuleWithin depth module).Keeps discipline world :=
  .inScope fun id => .bind (declareAttributes_keeps _) fun _ =>
    .bind (Engine.walkBlock_keeps follows Frame.module_owns _)
      fun _ => .bind (evaluateDeclared_keeps follows _ _) fun _ => discipline.globals world id

end Analysis

end TypeInference
