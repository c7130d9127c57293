import TypeInference.Definitions.Evaluation
import TypeInference.Proofs.Inferring

/-!
# Walks and declarations obey logics

Statements declare what they bind, functions and classes are declared once for their node,
and parameters and returns are declared when a function is evaluated. All of it opens scopes
of the nodes at hand and changes functions and members only, apart from the functions and
classes that are declared. The evaluation of a function as a whole is left to each logic.
-/

namespace TypeInference

section Permission

variable (mayOpen : NodeId → Prop) (mayDefine : FunctionDefinition → Prop)

mutual

/-- Walking a statement opens scopes of some nodes only, apart from those that are opened
when a function is evaluated, and declares only some functions. -/
def Statement.Permitted : Statement → Prop
  | .expression evaluated _ => Opens mayOpen (Outline.ofExpression evaluated)
  | .assign _ value _ => Opens mayOpen (Outline.ofExpression value)
  | .annotated _ hint value _ =>
    Opens mayOpen (Outline.ofExpression hint) ∧ Opens mayOpen (Outline.ofOptional value)
  | .ret value _ => Opens mayOpen (Outline.ofOptional value)
  | .function definition =>
    mayDefine definition ∧ Opens mayOpen (Outline.ofExpressions definition.decorators)
  | .classDefinition definition => ClassPermitted definition
  | .global _ _ => True
  | .nonlocal _ _ => True
  | .branch test body otherwise _ =>
    Opens mayOpen (Outline.ofExpression test) ∧ BlockPermitted body ∧ BlockPermitted otherwise
  | .iteration _ iterable body otherwise _ =>
    Opens mayOpen (Outline.ofExpression iterable) ∧ BlockPermitted body ∧
      BlockPermitted otherwise
  | .loop test body otherwise _ =>
    Opens mayOpen (Outline.ofExpression test) ∧ BlockPermitted body ∧ BlockPermitted otherwise
  | .pass _ => True

/-- The same for the definition of a class. -/
def Statement.ClassPermitted : ClassDefinition → Prop
  | ⟨id, _, bases, body, _, _⟩ =>
    mayOpen id ∧ Opens mayOpen (Outline.ofExpressions bases) ∧ BlockPermitted body

/-- The same for several statements. -/
def Statement.BlockPermitted : List Statement → Prop
  | [] => True
  | statement :: rest => Permitted statement ∧ BlockPermitted rest

end

end Permission

namespace Statement

variable {mayOpen moreOpen : NodeId → Prop} {mayDefine moreDefine : FunctionDefinition → Prop}

mutual

theorem Permitted.mono (opens : ∀ node, mayOpen node → moreOpen node)
    (defines : ∀ definition, mayDefine definition → moreDefine definition) :
    ∀ {statement : Statement}, Permitted mayOpen mayDefine statement →
      Permitted moreOpen moreDefine statement
  | .expression _ _, permitted | .assign _ _ _, permitted | .ret _ _, permitted =>
    Opens.mono permitted opens
  | .annotated _ _ _ _, permitted => ⟨permitted.1.mono opens, permitted.2.mono opens⟩
  | .function _, permitted => ⟨defines _ permitted.1, permitted.2.mono opens⟩
  | .classDefinition _, permitted => ClassPermitted.mono opens defines permitted
  | .global _ _, _ | .nonlocal _ _, _ | .pass _, _ => trivial
  | .branch _ _ _ _, permitted | .iteration _ _ _ _ _, permitted | .loop _ _ _ _, permitted =>
    ⟨permitted.1.mono opens, BlockPermitted.mono opens defines permitted.2.1,
      BlockPermitted.mono opens defines permitted.2.2⟩

theorem ClassPermitted.mono (opens : ∀ node, mayOpen node → moreOpen node)
    (defines : ∀ definition, mayDefine definition → moreDefine definition) :
    ∀ {definition : ClassDefinition}, ClassPermitted mayOpen mayDefine definition →
      ClassPermitted moreOpen moreDefine definition
  | ⟨_, _, _, _, _, _⟩, permitted =>
    ⟨opens _ permitted.1, permitted.2.1.mono opens,
      BlockPermitted.mono opens defines permitted.2.2⟩

theorem BlockPermitted.mono (opens : ∀ node, mayOpen node → moreOpen node)
    (defines : ∀ definition, mayDefine definition → moreDefine definition) :
    ∀ {block : List Statement}, BlockPermitted mayOpen mayDefine block →
      BlockPermitted moreOpen moreDefine block
  | [], _ => trivial
  | _ :: _, permitted =>
    ⟨Permitted.mono opens defines permitted.1, BlockPermitted.mono opens defines permitted.2⟩

end

mutual

/-- What mentions some nodes only may be walked if these may be opened, and if what mentions
these only may be declared. -/
theorem Permitted.of_opens {listed : NodeId → Prop} (opens : ∀ node, listed node → mayOpen node)
    (defines : ∀ definition, Opens listed (Outline.ofFunction definition) →
      mayDefine definition) :
    ∀ {statement : Statement}, Opens listed (Outline.ofStatement statement) →
      Permitted mayOpen mayDefine statement
  | .expression _ _, mentioned | .ret _ _, mentioned => by
    rw [Outline.ofStatement, opens_cons] at mentioned
    exact mentioned.2.mono opens
  | .assign _ _ _, mentioned => by
    rw [Outline.ofStatement, opens_cons, opens_append] at mentioned
    exact mentioned.2.2.mono opens
  | .annotated _ _ _ _, mentioned => by
    rw [Outline.ofStatement, opens_cons, opens_append, opens_append] at mentioned
    exact ⟨mentioned.2.1.2.mono opens, mentioned.2.2.mono opens⟩
  | .function ⟨_, _, _, _, _, _, _⟩, mentioned => by
    rw [Outline.ofStatement] at mentioned
    refine ⟨defines _ mentioned, ?_⟩
    rw [Outline.ofFunction, opens_cons, opens_append, opens_append, opens_append] at mentioned
    exact mentioned.2.1.1.1.mono opens
  | .classDefinition definition, mentioned => by
    rw [Outline.ofStatement] at mentioned
    exact ClassPermitted.of_opens opens defines mentioned
  | .global _ _, _ | .nonlocal _ _, _ | .pass _, _ => trivial
  | .branch _ _ _ _, mentioned | .loop _ _ _ _, mentioned => by
    rw [Outline.ofStatement, opens_cons, opens_append, opens_append] at mentioned
    exact ⟨mentioned.2.1.1.mono opens, BlockPermitted.of_opens opens defines mentioned.2.1.2,
      BlockPermitted.of_opens opens defines mentioned.2.2⟩
  | .iteration _ _ _ _ _, mentioned => by
    rw [Outline.ofStatement, opens_cons, opens_append, opens_append, opens_append] at mentioned
    exact ⟨mentioned.2.1.1.2.mono opens, BlockPermitted.of_opens opens defines mentioned.2.1.2,
      BlockPermitted.of_opens opens defines mentioned.2.2⟩

theorem ClassPermitted.of_opens {listed : NodeId → Prop}
    (opens : ∀ node, listed node → mayOpen node)
    (defines : ∀ definition, Opens listed (Outline.ofFunction definition) →
      mayDefine definition) :
    ∀ {definition : ClassDefinition}, Opens listed (Outline.ofClass definition) →
      ClassPermitted mayOpen mayDefine definition
  | ⟨_, _, _, _, _, _⟩, mentioned => by
    rw [Outline.ofClass, opens_cons, opens_append, opens_append] at mentioned
    exact ⟨opens _ (mentioned.1 _ rfl), mentioned.2.1.1.mono opens,
      BlockPermitted.of_opens opens defines mentioned.2.2⟩

theorem BlockPermitted.of_opens {listed : NodeId → Prop}
    (opens : ∀ node, listed node → mayOpen node)
    (defines : ∀ definition, Opens listed (Outline.ofFunction definition) →
      mayDefine definition) :
    ∀ {block : List Statement}, Opens listed (Outline.ofStatements block) →
      BlockPermitted mayOpen mayDefine block
  | [], _ => trivial
  | _ :: _, mentioned => by
    rw [Outline.ofStatements, opens_append] at mentioned
    exact ⟨Permitted.of_opens opens defines mentioned.1,
      BlockPermitted.of_opens opens defines mentioned.2⟩

end

end Statement

namespace Logic

variable (logic : Logic) (world : logic.World)

/-- What may be walked in a world. -/
def Permits (block : List Statement) : Prop :=
  Statement.BlockPermitted (logic.MayOpen world) (logic.MayDefine world) block

variable {logic world}

/-- What may be evaluated as a function in a world. -/
structure PermitsFunction (logic : Logic) (world : logic.World)
    (definition : FunctionDefinition) : Prop where
  parameters : Opens (logic.MayOpen world) (Outline.ofParameters definition.parameters)
  returns : Opens (logic.MayOpen world) (Outline.ofOptional definition.returns)
  body : logic.Permits world definition.body

theorem permits_later {later : logic.World} (passed : logic.Later world later)
    {block : List Statement} (permitted : logic.Permits world block) :
    logic.Permits later block :=
  Statement.BlockPermitted.mono (logic.mayOpen_later passed) (logic.mayDefine_later passed)
    permitted

theorem PermitsFunction.later {second : logic.World} {definition : FunctionDefinition}
    (permitted : logic.PermitsFunction world definition) (passed : logic.Later world second) :
    logic.PermitsFunction second definition where
  parameters := opens_later passed permitted.parameters
  returns := opens_later passed permitted.returns
  body := permits_later passed permitted.body

end Logic

namespace Engine

variable {logic : Logic} {world : logic.World} {engine : logic.Index → Engine}

theorem changeOverload_holds (id : OverloadId) {change : Overload → Overload}
    (keeps : ∀ overload, (change overload).state = overload.state)
    (within : ∀ {later}, logic.Later world later → ∀ overload,
      Within (logic.Known later) overload → Within (logic.Known later) (change overload)) :
    logic.Holds world fun _ => changeOverload id change :=
  logic.changeFunction id.function
    (fun _ record => ⟨⟨rfl, rfl, rfl⟩, FunctionRecord.states_modifyOverload record id.index keeps⟩)
    fun passed _ _ recorded => within_modifiedOverload recorded id.index (within passed)

theorem addReturn_holds (id : OverloadId) {value : Value}
    (given : Within (logic.Known world) value) :
    logic.Holds world fun _ => Analysis.addReturn id value :=
  changeOverload_holds id (fun _ => rfl) fun passed _ within => ⟨within.1, within.2.1,
    (within_append _ _).mpr
      ⟨within.2.2, (within_cons _ _).mpr ⟨Judgement.within_later passed given, within_nil⟩⟩⟩

theorem insertFunctionFlags_holds (function : FunctionId) (flags : FunctionFlags) :
    logic.Holds world fun _ => insertFunctionFlags function flags :=
  logic.changeFunction function (fun _ _ => ⟨⟨rfl, rfl, rfl⟩, rfl⟩)
    fun _ _ _ recorded => recorded

theorem applyDecorator_holds (follows : logic.Follows engine world) (function : FunctionId)
    {decorator : Expression}
    (opens : Opens (logic.MayOpen world) (Outline.ofExpression decorator)) :
    logic.Holds world fun index => (engine index).applyDecorator function decorator := by
  have called : Opens (logic.MayOpen world) (Outline.ofExpression (decoratorCallee decorator)) := by
    unfold decoratorCallee
    split
    · simp only [Outline.ofExpression, opens_cons, opens_append] at opens
      exact opens.2.1
    · exact opens
  unfold applyDecorator
  refine Judgement.ite (fun _ => insertFunctionFlags_holds function _) fun _ => ?_
  refine logic.bind (evaluate_holds follows _ called) ?_
  intro second passed value _
  cases value with
  | type ty =>
    cases ty with
    | function decorating =>
      refine logic.changeFunction function (fun store record => ?_)
        fun _ store record recorded => ?_
      · obtain ⟨same, overloads⟩ := sameIdentity_decorate record (store.functionAt decorating).name
        exact ⟨same, by rw [overloads]⟩
      · obtain ⟨same, overloads⟩ := sameIdentity_decorate record (store.functionAt decorating).name
        refine ⟨by rw [overloads]; exact recorded.1, fun owner declaring => ?_⟩
        exact recorded.2 owner (same.declaringClass.symm.trans declaring)
    | unknown | cls _ | parameter _ | marker _ => exact logic.pure trivial
  | unknown | object _ _ | union _ => exact insertFunctionFlags_holds function _

theorem applyDecorators_holds (function : FunctionId) {decorators : List Expression} :
    ∀ {world : logic.World}, logic.Follows engine world →
      Opens (logic.MayOpen world) (Outline.ofExpressions decorators) →
        logic.Holds world fun index => (engine index).applyDecorators function decorators := by
  induction decorators with
  | nil => exact fun _ _ => logic.pure trivial
  | cons decorator rest inductionHypothesis =>
    intro world follows opens
    simp only [Outline.ofExpressions, opens_append] at opens
    refine logic.bind (applyDecorator_holds follows function opens.1) ?_
    intro second passed _ _
    exact inductionHypothesis (follows.later passed) (Logic.opens_later passed opens.2)

theorem declareFunction_holds (follows : logic.Follows engine world)
    {definition : FunctionDefinition} (defines : logic.MayDefine world definition)
    (opens : Opens (logic.MayOpen world) (Outline.ofExpressions definition.decorators))
    {owner : Option ClassId} (owned : ∀ id, owner = some id → logic.Known world (.owner id)) :
    logic.Holds world fun index => (engine index).declareFunction definition owner :=
  logic.declareFunction owner defines owned fun near wider function =>
    applyDecorators_holds function (follows.near near) (opens.mono wider)

/-- Declares a function whose decorators were applied. -/
def finishDeclaration (definition : FunctionDefinition) (function : FunctionId) :
    Analysis FunctionId := do
  let scope ← Analysis.orFault (← Analysis.scopes).current
  modify fun progress =>
    { progress with symbols := progress.symbols.insert { definition, scope, function } }
  return function

/-- A definition that was declared before is not declared again. -/
theorem declareFunction_of_known (engine : Engine) {definition : FunctionDefinition}
    (owner : Option ClassId) (environment : Environment) {before : Progress}
    {entry : FunctionEntry} (known : before.symbols.function? definition.id = some entry) :
    engine.declareFunction definition owner environment before = .ok entry.function before := by
  simp only [declareFunction, Analysis.bind_apply, Analysis.get_apply, known]
  rfl

/-- A definition that was not declared makes the next function, which is declared after its
decorators were applied. -/
theorem declareFunction_of_new (engine : Engine) {definition : FunctionDefinition}
    (owner : Option ClassId) {environment : Environment} {before : Progress}
    {qualifiedName : String}
    (named : Analysis.qualifiedName definition.name.name environment before =
      .ok qualifiedName before)
    (new : before.symbols.function? definition.id = none) :
    engine.declareFunction definition owner environment before =
      (engine.applyDecorators before.store.nextFunction definition.decorators >>= fun _ =>
        finishDeclaration definition before.store.nextFunction) environment
        { before with store := (before.store.addFunction
            (declaredRecord definition owner qualifiedName)).2 } := by
  unfold declareFunction
  rw [Analysis.bind_apply, Analysis.get_apply]
  dsimp only
  rw [new]
  dsimp only
  rw [Analysis.bind_apply, named]
  rfl

/-- The scope that is open is remembered with a function. -/
theorem finishDeclaration_apply (definition : FunctionDefinition) (function : FunctionId)
    (environment : Environment) {before : Progress} {scope : ScopeId}
    (current : before.scopes.current = .ok scope) :
    finishDeclaration definition function environment before = .ok function
      { before with symbols := before.symbols.insert { definition, scope, function } } := by
  simp only [finishDeclaration, Analysis.bind_apply, Analysis.scopes_apply, current]
  rfl

theorem assignTarget_holds {frame : Frame} (framed : Within (logic.Known world) frame)
    (span : Span) {value : Value}
    (given : Within (logic.Known world) value) (target : Expression) :
    logic.Holds world fun _ => assignTarget frame span value target := by
  unfold assignTarget
  split
  · split
    · exact logic.pure trivial
    · exact logic.declare _ _ _ _ given
  · split
    · split
      · exact logic.setAttribute _ (framed _ ‹_›) given
      · exact logic.pure trivial
    · exact logic.pure trivial
  · split
    · exact Analysis.unpack_holds _ _ _ given.iterate
    · exact logic.pure trivial

theorem assignTargets_holds {frame : Frame} (span : Span) {value : Value}
    (targets : List Expression) : ∀ {world : logic.World}, Within (logic.Known world) frame →
      Within (logic.Known world) value →
        logic.Holds world fun _ => assignTargets frame span value targets := by
  induction targets with
  | nil => exact fun _ _ => logic.pure trivial
  | cons target rest inductionHypothesis =>
    intro world framed given
    refine logic.bind (assignTarget_holds framed span given target) ?_
    intro second passed _ _
    exact inductionHypothesis (Judgement.within_later passed framed)
      (Judgement.within_later passed given)

mutual

theorem collectAttribute_holds {world : logic.World} {owner : ClassId}
    (owned : logic.Known world (.owner owner)) {value : Value}
    (given : Within (logic.Known world) value) : ∀ target,
      logic.Holds world fun _ => collectAttribute owner value target
  | .name identifier => by
    simp only [collectAttribute]
    refine logic.bind (logic.setMember _ _ (by simp) owned given) ?_
    intro second passed _ _
    exact logic.declare _ _ _ _ (Judgement.within_later passed given)
  | .display .list items _ | .display .tuple items _ => by
    simp only [collectAttribute]
    exact collectAttributes_holds owned given.iterate items
  | .display .set _ _ | .constant _ _ | .attribute _ _ _ | .index _ _ _ | .slice _ _ _ _
  | .call _ _ _ | .dict _ _ | .comprehension _ | .yield _ _ | .unary _ _ _ | .binary _ _ _ _ => by
    simp only [collectAttribute]
    exact logic.pure trivial

theorem collectAttributes_holds {world : logic.World} {owner : ClassId}
    (owned : logic.Known world (.owner owner)) {elements : Option Elements}
    (given : Within (logic.Known world) elements) : ∀ targets,
      logic.Holds world fun _ => collectAttributes owner elements targets
  | [] => by
    simp only [collectAttributes]
    exact logic.pure trivial
  | target :: rest => by
    have next := given.nextOf
    simp only [collectAttributes]
    refine logic.bind (collectAttribute_holds owned next.1 target) ?_
    intro second passed _ _
    exact collectAttributes_holds (logic.known_later passed _ owned)
      (Judgement.within_later passed next.2) rest

end

theorem collectTargets_holds {owner : ClassId} {value : Value} (targets : List Expression) :
    ∀ {world : logic.World}, logic.Known world (.owner owner) →
      Within (logic.Known world) value →
        logic.Holds world fun _ => collectTargets owner value targets := by
  induction targets with
  | nil => exact fun _ _ => logic.pure trivial
  | cons target rest inductionHypothesis =>
    intro world owned given
    refine logic.bind (collectAttribute_holds owned given target) ?_
    intro second passed _ _
    exact inductionHypothesis (logic.known_later passed _ owned)
      (Judgement.within_later passed given)

theorem returnValue_holds (frame : Frame) {value : Value}
    (given : Within (logic.Known world) value) (span : Span) :
    logic.Holds world fun _ => returnValue frame value span := by
  unfold returnValue
  split
  · next overload _ =>
    refine logic.bind logic.store ?_
    intro second passed store _
    have given := Judgement.within_later passed given
    refine Judgement.ite (fun _ => ?_) fun _ => addReturn_holds overload given
    refine logic.bind (logic.report _ _) ?_
    intro third again _ _
    exact addReturn_holds overload (Judgement.within_later again given)
  · exact logic.pure trivial

theorem redirectNames_holds {redirect : Scopes → String → Except Fault Scopes}
    (redirects : ∀ {world : logic.World} name,
      logic.Holds world fun _ => Analysis.changeScopes fun scopes => redirect scopes name)
    (names : List Identifier) : ∀ {world : logic.World},
      logic.Holds world fun _ => redirectNames redirect names := by
  induction names with
  | nil => exact logic.pure trivial
  | cons name rest inductionHypothesis =>
    refine logic.bind (redirects name.name) ?_
    intro second passed _ _
    exact inductionHypothesis

theorem declareNamedFunction_holds (follows : logic.Follows engine world)
    {definition : FunctionDefinition} (defines : logic.MayDefine world definition)
    (opens : Opens (logic.MayOpen world) (Outline.ofExpressions definition.decorators)) :
    logic.Holds world fun index => (engine index).declareNamedFunction definition := by
  refine logic.bind (declareFunction_holds follows defines opens fun _ none => nomatch none) ?_
  intro second passed function known
  exact logic.declare _ _ _ _ known

theorem collectMethod_holds (follows : logic.Follows engine world) {owner : ClassId}
    (owned : logic.Known world (.owner owner)) {definition : FunctionDefinition}
    (defines : logic.MayDefine world definition)
    (opens : Opens (logic.MayOpen world) (Outline.ofExpressions definition.decorators)) :
    logic.Holds world fun index => (engine index).collectMethod owner definition := by
  refine logic.bind (declareFunction_holds follows defines opens fun _ same => ?_) ?_
  · cases same
    exact owned
  intro second passed function known
  refine logic.bind (logic.setMember _ _ (fun _ => rfl) (logic.known_later passed _ owned) known) ?_
  intro third again _ _
  exact logic.declare _ _ _ _ (Judgement.within_later again known)

theorem evaluateBases_holds {bases : List Expression} : ∀ {world : logic.World},
    logic.Follows engine world → Opens (logic.MayOpen world) (Outline.ofExpressions bases) →
      logic.Holds world fun index => (engine index).evaluateBases bases := by
  induction bases with
  | nil => exact fun _ _ => logic.pure within_nil
  | cons base rest inductionHypothesis =>
    intro world follows opens
    simp only [Outline.ofExpressions, opens_append] at opens
    refine logic.bind (evaluate_holds follows _ opens.1) ?_
    intro second passed value given
    refine logic.bind (inductionHypothesis (follows.later passed)
      (Logic.opens_later passed opens.2)) ?_
    intro third again others listed
    have given := Judgement.within_later again given
    cases value with
    | type ty =>
      cases ty with
      | cls id => exact logic.pure ((within_cons _ _).mpr ⟨given, listed⟩)
      | marker parameters => exact logic.pure ((within_cons _ _).mpr ⟨trivial, listed⟩)
      | unknown | parameter _ | function _ => exact logic.pure listed
    | unknown | object _ _ | union _ => exact logic.pure listed

/-- The class that a definition has declared before, or else the one it declares now. -/
theorem declareClass_eq (engine : Engine) (node : NodeId) (name : Identifier)
    (bases : List Expression) (body : List Statement) (decorators : List Expression)
    (span : Span) :
    engine.declareClass ⟨node, name, bases, body, decorators, span⟩ = (do
      let known ← (do return (← get).symbols.class? node : Analysis (Option ClassId))
      match known with
      | some declared => return declared
      | none =>
        let id ← createClass ⟨node, name, bases, body, decorators, span⟩
        engine.giveBases id bases
        Analysis.declare name.name (.type (.cls id)) .local (some node) name.span
        Analysis.inScope node .classBody none fun _ => do
          Analysis.declare classCell (.type (.cls id)) .local (some node) span
          engine.collectMembers id body
        return id) := by
  rw [declareClass]
  rfl

mutual

theorem walkStatement_holds {world : logic.World} (follows : logic.Follows engine world)
    {frame : Frame} (framed : Within (logic.Known world) frame) : ∀ {statement : Statement},
      Statement.Permitted (logic.MayOpen world) (logic.MayDefine world) statement →
        logic.Holds world fun index => (engine index).walkStatement frame statement
  | .expression evaluated _, permitted => by
    simp only [walkStatement]
    refine logic.bind (checkedValue_holds follows permitted) ?_
    intro second passed _ _
    exact logic.pure trivial
  | .assign targets value span, permitted => by
    simp only [walkStatement]
    refine logic.bind (checkedValue_holds follows permitted) ?_
    intro second passed assigned given
    exact assignTargets_holds span targets (Judgement.within_later passed framed) given
  | .annotated target hint value span, permitted => by
    simp only [walkStatement]
    refine logic.bind (annotatedValue_holds follows permitted.1 permitted.2) ?_
    intro second passed assigned given
    exact assignTarget_holds (Judgement.within_later passed framed) span given target
  | .ret value span, permitted => by
    simp only [walkStatement]
    refine logic.bind (checkedOptional_holds follows permitted) ?_
    intro second passed returned given
    exact returnValue_holds frame (given.getD within_noneObject) span
  | .function definition, permitted => by
    simp only [walkStatement]
    exact declareNamedFunction_holds follows permitted.1 permitted.2
  | .classDefinition definition, permitted => by
    simp only [walkStatement]
    refine logic.bind (declareClass_holds follows permitted) ?_
    intro second passed _ _
    exact logic.pure trivial
  | .global names _, _ => by
    simp only [walkStatement]
    exact redirectNames_holds logic.redirectGlobal names
  | .nonlocal names _, _ => by
    simp only [walkStatement]
    exact redirectNames_holds logic.redirectNonlocal names
  | .branch test body otherwise _, permitted => by
    simp only [walkStatement]
    refine logic.bind (checkedValue_holds follows permitted.1) ?_
    intro second passed _ _
    refine logic.bind (walkBlock_holds (follows.later passed)
      (Judgement.within_later passed framed) (Logic.permits_later passed permitted.2.1)) ?_
    intro third again _ _
    have further := logic.later_trans passed again
    exact walkBlock_holds (follows.later further) (Judgement.within_later further framed)
      (Logic.permits_later further permitted.2.2)
  | .iteration target iterable body otherwise span, permitted => by
    simp only [walkStatement]
    refine logic.bind (checkedValue_holds follows permitted.1) ?_
    intro second passed value given
    refine logic.bind (Analysis.bindIterationTarget_holds target given span) ?_
    intro third again _ _
    have further := logic.later_trans passed again
    refine logic.bind (walkBlock_holds (follows.later further)
      (Judgement.within_later further framed) (Logic.permits_later further permitted.2.1)) ?_
    intro fourth onward _ _
    have further := logic.later_trans further onward
    exact walkBlock_holds (follows.later further) (Judgement.within_later further framed)
      (Logic.permits_later further permitted.2.2)
  | .loop test body otherwise _, permitted => by
    simp only [walkStatement]
    refine logic.bind (checkedValue_holds follows permitted.1) ?_
    intro second passed _ _
    refine logic.bind (walkBlock_holds (follows.later passed)
      (Judgement.within_later passed framed) (Logic.permits_later passed permitted.2.1)) ?_
    intro third again _ _
    have further := logic.later_trans passed again
    exact walkBlock_holds (follows.later further) (Judgement.within_later further framed)
      (Logic.permits_later further permitted.2.2)
  | .pass _, _ => by
    simp only [walkStatement]
    exact logic.pure trivial

theorem walkBlock_holds {world : logic.World} (follows : logic.Follows engine world)
    {frame : Frame} (framed : Within (logic.Known world) frame) :
    ∀ {block : List Statement}, logic.Permits world block →
      logic.Holds world fun index => (engine index).walkBlock frame block
  | [], _ => by
    simp only [walkBlock]
    exact logic.pure trivial
  | statement :: rest, permitted => by
    simp only [walkBlock]
    refine logic.bind (walkStatement_holds follows framed permitted.1) ?_
    intro second passed _ _
    exact walkBlock_holds (follows.later passed) (Judgement.within_later passed framed)
      (Logic.permits_later passed permitted.2)

theorem collectMembers_holds {world : logic.World} (follows : logic.Follows engine world)
    {owner : ClassId} (owned : logic.Known world (.owner owner)) :
    ∀ {body : List Statement}, logic.Permits world body →
      logic.Holds world fun index => (engine index).collectMembers owner body
  | [], _ => by
    simp only [collectMembers]
    exact logic.pure trivial
  | statement :: rest, permitted => by
    have others : ∀ {second}, logic.Later world second →
        logic.Holds second fun index => (engine index).collectMembers owner rest := fun passed =>
      collectMembers_holds (follows.later passed) (logic.known_later passed _ owned)
        (Logic.permits_later passed permitted.2)
    have framed : Within (logic.Known world) (Frame.ofClass owner) := by
      rintro _ ⟨⟩
      exact owned
    have walked := walkStatement_holds follows framed permitted.1
    have permitted := permitted.1
    match statement with
    | .function definition =>
      simp only [collectMembers]
      refine logic.bind (collectMethod_holds follows owned permitted.1 permitted.2) ?_
      intro second passed _ _
      exact others passed
    | .classDefinition definition =>
      simp only [collectMembers]
      refine logic.bind (declareClass_holds follows permitted) ?_
      intro second passed nested known
      have given : Within (logic.Known second) (Value.type (.cls nested)) := known
      refine logic.bind (logic.setMember _ _ (fun _ => rfl) (logic.known_later passed _ owned)
        given) ?_
      intro third again _ _
      exact others (logic.later_trans passed again)
    | .assign targets value _ =>
      simp only [collectMembers]
      refine logic.bind (checkedValue_holds follows permitted) ?_
      intro second passed assigned given
      refine logic.bind
        (collectTargets_holds targets (logic.known_later passed _ owned) given) ?_
      intro third again _ _
      exact others (logic.later_trans passed again)
    | .annotated target hint value _ =>
      simp only [collectMembers]
      refine logic.bind (annotatedValue_holds follows permitted.1 permitted.2) ?_
      intro second passed assigned given
      refine logic.bind
        (collectAttribute_holds (logic.known_later passed _ owned) given target) ?_
      intro third again _ _
      exact others (logic.later_trans passed again)
    -- Every other statement is walked as in any block.
    | .expression _ _ | .ret _ _ | .global _ _ | .nonlocal _ _ | .branch _ _ _ _
    | .iteration _ _ _ _ _ | .loop _ _ _ _ | .pass _ =>
      simp only [collectMembers]
      exact logic.bind walked fun passed _ _ => others passed

theorem declareClass_holds {world : logic.World} (follows : logic.Follows engine world) :
    ∀ {definition : ClassDefinition},
      Statement.ClassPermitted (logic.MayOpen world) (logic.MayDefine world) definition →
        logic.Holds world fun index => (engine index).declareClass definition
  | ⟨node, name, bases, body, decorators, span⟩, permitted => by
    obtain ⟨opened, inBases, inBody⟩ := permitted
    simp only [declareClass_eq]
    refine logic.bind (logic.declaredClass node) ?_
    intro second passed known declared
    cases known with
    | some id => exact logic.pure (declared id rfl)
    | none =>
      refine logic.createClass _ (fun again => ?_) fun again id owned => ?_
      · have further := logic.later_trans passed again
        exact evaluateBases_holds (follows.later further) (Logic.opens_later further inBases)
      have further := logic.later_trans passed again
      have isClass := (logic.Known _).owner id owned
      refine logic.bind (logic.declare _ _ _ _ isClass) ?_
      intro fourth onward _ _
      have further := logic.later_trans further onward
      refine logic.bind (logic.inScope (logic.mayOpen_later further _ opened) (by decide)
        fun scope => ?_) ?_
      · refine logic.bind (logic.declare _ _ _ _ (logic.known_later onward _ isClass)) ?_
        intro fifth inside _ _
        have further := logic.later_trans further inside
        exact collectMembers_holds (follows.later further)
          (logic.known_later (logic.later_trans onward inside) _ owned)
          (Logic.permits_later further inBody)
      · intro fifth ending _ _
        exact logic.pure (logic.known_later (logic.later_trans onward ending) _ isClass)

end

theorem optionalTypeHint_holds (follows : logic.Follows engine world)
    {hint : Option Expression}
    (opens : Opens (logic.MayOpen world) (Outline.ofOptional hint)) :
    logic.Holds world fun index => (engine index).optionalTypeHint hint := by
  cases hint with
  | none => exact logic.pure within_unknownType
  | some hint => exact evaluateTypeHint_holds follows opens

theorem optionalValue_holds (follows : logic.Follows engine world)
    {expression : Option Expression}
    (opens : Opens (logic.MayOpen world) (Outline.ofOptional expression)) :
    logic.Holds world fun index => (engine index).optionalValue expression := by
  cases expression with
  | none => exact logic.pure within_none
  | some expression =>
    refine logic.bind (evaluate_holds follows .everything opens) ?_
    intro second passed value given
    exact logic.pure ((within_some _).mpr given)

theorem declareParameter_holds (follows : logic.Follows engine world) (function : FunctionId)
    (node : NodeId) (place : Nat) {parameter : Parameter}
    (opens : Opens (logic.MayOpen world) (Outline.ofParameters [parameter])) :
    logic.Holds world fun index =>
      (engine index).declareParameter function node place parameter := by
  simp only [Outline.ofParameters, List.flatMap_cons, List.flatMap_nil, List.append_nil,
    opens_append] at opens
  refine logic.bind (optionalTypeHint_holds follows opens.1) ?_
  intro second passed annotated hinted
  refine logic.bind (optionalValue_holds (follows.later passed)
    (Logic.opens_later passed opens.2)) ?_
  intro third again default given
  refine logic.bind logic.store ?_
  intro fourth onward store within
  have hinted := Judgement.within_later (logic.later_trans again onward) hinted
  have given := Judgement.within_later onward given
  have meaning := within_parameterMeaning within (store.functionAt function)
    (within_takesReceiver (within.2 function) place parameter) hinted given
  refine logic.bind (logic.declare _ _ _ _ (within_gathered within parameter.kind meaning.2)) ?_
  intro fifth lastly _ _
  exact logic.pure
    ⟨Judgement.within_later lastly meaning.1, Judgement.within_later lastly given⟩

theorem declareParameters_holds (function : FunctionId) (node : NodeId)
    {parameters : List Parameter} : ∀ {world : logic.World} (place : Nat),
      logic.Follows engine world →
        Opens (logic.MayOpen world) (Outline.ofParameters parameters) →
          logic.Holds world fun index =>
            (engine index).declareParameters function node place parameters := by
  induction parameters with
  | nil => exact fun _ _ _ => logic.pure within_nil
  | cons parameter rest inductionHypothesis =>
    intro world place follows opens
    have split : Outline.ofParameters (parameter :: rest) =
        Outline.ofParameters [parameter] ++ Outline.ofParameters rest := by
      simp [Outline.ofParameters]
    rw [split, opens_append] at opens
    refine logic.bind (declareParameter_holds follows function node place opens.1) ?_
    intro second passed first given
    refine logic.bind (inductionHypothesis (place + 1) (follows.later passed)
      (Logic.opens_later passed opens.2)) ?_
    intro third again others listed
    exact logic.pure ((within_cons _ _).mpr ⟨Judgement.within_later again given, listed⟩)

theorem setDeclaredReturn_holds (id : OverloadId) {value : Value}
    (given : Within (logic.Known world) value) :
    logic.Holds world fun _ => setDeclaredReturn id value :=
  changeOverload_holds id (fun _ => rfl) fun passed _ within =>
    ⟨within.1, (within_some _).mpr (Judgement.within_later passed given), within.2.2⟩

/-- The expression of a top-level yield is evaluated in the body, if it is walked. -/
theorem opens_topLevelYield {mayOpen : NodeId → Prop} {mayDefine : FunctionDefinition → Prop}
    {body : List Statement} (permitted : Statement.BlockPermitted mayOpen mayDefine body)
    {value : Option Expression} (found : topLevelYield? body = some value) :
    Opens mayOpen (Outline.ofOptional value) := by
  induction body with
  | nil => cases found
  | cons statement rest inductionHypothesis =>
    rw [topLevelYield?, List.findSome?_cons] at found
    split at found
    · next yields =>
      cases found
      have opens := permitted.1
      unfold yielded? at yields
      split at yields
      · cases yields
        simp only [Statement.Permitted, Outline.ofExpression, opens_cons] at opens
        exact opens.2
      · cases yields
        simp only [Statement.Permitted, Outline.ofExpression, opens_cons] at opens
        exact opens.2
      · cases yields
        simp only [Statement.Permitted, Outline.ofExpression, Outline.ofOptional, opens_cons]
          at opens
        exact opens.2.2
      · cases yields
    · exact inductionHypothesis permitted.2 found

theorem declareReturn_holds (follows : logic.Follows engine world) (id : OverloadId)
    {definition : FunctionDefinition} (permitted : logic.PermitsFunction world definition) :
    logic.Holds world fun index => (engine index).declareReturn id definition := by
  unfold declareReturn
  cases returns : definition.returns with
  | some hint =>
    have opens := permitted.returns
    rw [returns] at opens
    refine logic.bind (evaluateTypeHint_holds follows opens) ?_
    intro second passed ty hinted
    refine logic.bind logic.store ?_
    intro third again store within
    exact setDeclaredReturn_holds id
      (within_described within (Judgement.within_later again hinted))
  | none =>
    dsimp only
    cases found : topLevelYield? definition.body with
    | none => exact logic.pure trivial
    | some value =>
      refine logic.bind (insertFunctionFlags_holds id.function _) ?_
      intro second passed _ _
      refine logic.bind (optionalValue_holds (follows.later passed)
        (Logic.opens_later passed (opens_topLevelYield permitted.body found))) ?_
      intro third again element given
      exact setDeclaredReturn_holds id
        ((within_iterator _ _).mpr ⟨within_builtinType _, given.getD within_noneObject⟩)

theorem checkReceiver_holds (function : FunctionId) (definition : FunctionDefinition) :
    logic.Holds world fun _ => checkReceiver function definition := by
  refine logic.bind logic.store ?_
  intro second passed store _
  dsimp only
  cases (store.functionAt function).declaringClass with
  | none => exact logic.pure trivial
  | some owner =>
    dsimp only
    cases receiverProblem? store owner (store.functionAt function) definition with
    | none => exact logic.pure trivial
    | some problem => exact logic.report _ _

theorem walkBody_holds (follows : logic.Follows engine world) (id : OverloadId)
    {definition : FunctionDefinition} (permitted : logic.PermitsFunction world definition) :
    logic.Holds world fun index => (engine index).walkBody id definition := by
  refine logic.bind logic.store ?_
  intro second passed store within
  have follows := follows.later passed
  have framed : Within (logic.Known second) (Frame.ofOverload store id definition) :=
    (within.2 id.function).2
  have walked := walkBlock_holds follows framed (Logic.permits_later passed permitted.body)
  -- Where nothing is returned and no type is declared, nothing is what is returned.
  have ending : ∀ {third : logic.World}, logic.Holds third fun _ => (do
      let overload := (← Analysis.store).overloadAt id
      if overload.declaredReturn.isNone && overload.inferredReturns.isEmpty then
        Analysis.addReturn id Store.noneObject : Analysis Unit) := by
    intro third
    refine logic.bind logic.store ?_
    intro fourth again store _
    exact Judgement.ite (fun _ => addReturn_holds id within_noneObject) fun _ =>
      logic.pure trivial
  refine logic.options (fun _ _ _ => rfl) fun options => ?_
  exact Judgement.ite (fun _ => logic.bind walked fun _ _ _ => ending) fun _ => ending

/-- What is evaluated of an overload, apart from what becomes of its variables. -/
def evaluateContents (engine : Engine) (id : OverloadId) (definition : FunctionDefinition) :
    Analysis Unit := do
  let parameters ← engine.declareParameters id.function definition.id 0 definition.parameters
  changeOverload id fun overload => { overload with parameters }
  engine.declareReturn id definition
  engine.walkBody id definition
  checkReceiver id.function definition

theorem evaluateInside_eq_contents (engine : Engine) (id : OverloadId)
    (definition : FunctionDefinition) (scope : ScopeId) :
    engine.evaluateInside id definition scope = (do
      engine.evaluateContents id definition
      if (← Analysis.options).discardsLocals then
        modify fun progress => { progress with scopes := progress.scopes.clearVariables scope }
      changeOverload id fun overload => { overload with state := .evaluated }) := by
  unfold evaluateInside evaluateContents
  simp only [bind_assoc]

theorem evaluateContents_holds (follows : logic.Follows engine world) (id : OverloadId)
    {definition : FunctionDefinition} (permitted : logic.PermitsFunction world definition) :
    logic.Holds world fun index => (engine index).evaluateContents id definition := by
  refine logic.bind (declareParameters_holds _ _ _ follows permitted.parameters) ?_
  intro second passed parameters given
  refine logic.bind (changeOverload_holds id (fun _ => rfl) fun passed _ within =>
    ⟨Judgement.within_later passed given, within.2⟩) ?_
  intro third again _ _
  have further := logic.later_trans passed again
  refine logic.bind (declareReturn_holds (follows.later further) id (permitted.later further)) ?_
  intro fourth onward _ _
  have further := logic.later_trans further onward
  refine logic.bind (walkBody_holds (follows.later further) id (permitted.later further)) ?_
  intro fifth lastly _ _
  exact checkReceiver_holds _ _

end Engine

namespace Analysis

variable {logic : Logic} {world : logic.World}

theorem declareAttributes_holds (names : List String) : ∀ {world : logic.World},
    logic.Holds world fun _ => declareAttributes names := by
  induction names with
  | nil => exact logic.pure trivial
  | cons name rest inductionHypothesis =>
    refine logic.bind logic.store ?_
    intro second passed store within
    refine logic.bind (logic.declare _ _ _ _ (within_builtinObject within _)) ?_
    intro third again _ _
    exact inductionHypothesis

end Analysis

end TypeInference
