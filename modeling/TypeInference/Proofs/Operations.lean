import TypeInference.Analyzer
import TypeInference.Proofs.Placeholder
import TypeInference.Proofs.Standard

/-!
# Runs of operations

What can be asked of an evaluation: to open and close scopes, to declare and to
look up names, to evaluate expressions, to walk statements, to declare functions
and classes, to evaluate functions, and to specialize and substitute. A run asks
for one thing after the other and goes on after a failure with what that left.
Whatever is asked, the store develops by a course, and by one that abandons no
specialization where nothing fails.
-/

namespace TypeInference

/-- What can be asked of an evaluation. -/
inductive Operation where
  | openScope (node : NodeId) (kind : ScopeKind) (parent : Option ScopeId)
  | closeScopes (depth : Nat)
  | declare (name : String) (value : Value) (kind : VariableKind) (node : Option NodeId)
      (span : Span)
  | redirectGlobal (name : String)
  | redirectNonlocal (name : String)
  | lookUp (name : String) (reach : Reach)
  | bindIterationTarget (target : Expression) (iterable : Value) (span : Span)
  | evaluate (reach : Reach) (expression : Expression)
  | evaluateTypeHint (hint : Expression)
  | attributeOf (name : String) (value : Value)
  | call (target : Option Value) (positional : List Value) (keywords : List (String × Value))
      (span : Span) (callee : Value)
  | walkStatement (frame : Frame) (statement : Statement)
  | walkBlock (frame : Frame) (body : List Statement)
  | declareFunction (definition : FunctionDefinition) (owner : Option ClassId)
  | declareClass (definition : ClassDefinition)
  | evaluateFunction (function : FunctionId)
  | construct (id : ClassId)
  | specialize (id : ClassId) (arguments : Arguments)
  | substitute (bindings : Bindings) (value : Value)
  | analyzeModule (module : Module)

namespace Operation

/-- Does what is asked, with evaluations nested to a given depth. -/
def perform (depth : Nat) : Operation → Analysis Unit
  | openScope node kind parent => do
    let _ ← Analysis.onScopes fun scopes => scopes.push node kind parent
  | closeScopes count =>
    modify fun progress => { progress with scopes := progress.scopes.truncate count }
  | declare name value kind node span => Analysis.declare name value kind node span
  | redirectGlobal name => Analysis.changeScopes fun scopes => scopes.declareGlobal name
  | redirectNonlocal name => Analysis.changeScopes fun scopes => scopes.declareNonlocal name
  | lookUp name reach => do let _ ← Analysis.lookupName? name reach
  | bindIterationTarget target iterable span =>
    Analysis.bindIterationTarget target iterable span
  | evaluate reach expression => do let _ ← (Engine.atDepth depth).evaluate reach expression
  | evaluateTypeHint hint => do let _ ← (Engine.atDepth depth).evaluateTypeHint hint
  | attributeOf name value => do let _ ← (Engine.atDepth depth).attributeOf name value
  | call target positional keywords span callee => do
    let _ ← (Engine.atDepth depth).callValue target positional keywords span callee
  | walkStatement frame statement => (Engine.atDepth depth).walkStatement frame statement
  | walkBlock frame body => (Engine.atDepth depth).walkBlock frame body
  | declareFunction definition owner => do
    let _ ← (Engine.atDepth depth).declareFunction definition owner
  | declareClass definition => do let _ ← (Engine.atDepth depth).declareClass definition
  | evaluateFunction function => (Engine.atDepth depth).evaluateFunction function
  | construct id => (Engine.atDepth depth).ensureConstructed id
  | specialize id arguments => do let _ ← (Engine.atDepth depth).specialize id arguments
  | substitute bindings value => do let _ ← (Engine.atDepth depth).substitute bindings value
  | analyzeModule module => do let _ ← Analysis.ofModuleWithin depth module

/-- What is left after one operation after the other. -/
def performAll (depth : Nat) (environment : Environment) (before : Progress)
    (operations : List Operation) : Progress :=
  operations.foldl (fun progress operation =>
    (operation.perform depth).after environment progress) before

/-- No operation is confined to declared classes, since methods may be declared
for any class. -/
theorem mayOwn_unconfined (store : Store) (id : ClassId) : store.MayOwn False id :=
  fun impossible => impossible.elim

/-- No method is asked for an owner. -/
theorem owned_unconfined (store : Store) : store.Owned False :=
  fun _ _ _ _ impossible => impossible.elim

/-- Whether an operation opens or closes scopes and does nothing else. -/
def movesScopes : Operation → Bool
  | openScope _ _ _ | closeScopes _ => true
  | _ => false

/-- Operations keep a discipline that lets members be set on every class and every overload
be changed, except that none need allow to open and close scopes. -/
theorem perform_keeps {discipline : Discipline} {depth : Nat}
    (follows : (Engine.atDepth depth).Follows discipline) {world : discipline.World}
    (free : ∀ id, discipline.MayOwn world id) (mayRecord : ∀ id, discipline.MayRecord id)
    {operation : Operation} (still : operation.movesScopes = false) :
    (operation.perform depth).Keeps discipline world := by
  have owns (frame : Frame) : frame.Owns discipline world :=
    ⟨fun id _ => free id, fun id _ => mayRecord id⟩
  cases operation with
  | openScope | closeScopes => cases still
  | declare => exact .declare _ _ _ _ _
  | redirectGlobal name => exact discipline.redirectGlobal world name
  | redirectNonlocal name => exact discipline.redirectNonlocal world name
  | lookUp => exact .bind (.lookupName? _ _) fun _ => .pure _
  | bindIterationTarget => exact Analysis.bindIterationTarget_keeps _ _ _
  | evaluate reach expression =>
    exact .bind (Engine.evaluate_keeps follows reach expression) fun _ => .pure _
  | evaluateTypeHint hint =>
    exact .bind (Engine.evaluateTypeHint_keeps follows hint) fun _ => .pure _
  | attributeOf name value =>
    exact .bind (Engine.attributeOf_keeps follows name value) fun _ => .pure _
  | call target positional keywords span callee =>
    exact .bind (Engine.callValue_keeps follows target positional keywords span callee)
      fun _ => .pure _
  | walkStatement frame statement =>
    exact Engine.walkStatement_keeps follows (owns frame) statement
  | walkBlock frame body => exact Engine.walkBlock_keeps follows (owns frame) body
  | declareFunction definition owner =>
    exact .bind (Engine.declareFunction_keeps follows definition owner fun id _ => free id)
      fun _ => .pure _
  | declareClass definition =>
    exact .bind (Engine.declareClass_keeps follows definition) fun _ => .pure _
  | evaluateFunction function => exact follows.evaluateFunction function
  | construct id => exact Engine.ensureConstructed_keeps follows id
  | specialize id arguments => exact .bind (follows.specialize id arguments) fun _ => .pure _
  | substitute bindings value =>
    exact .bind (Engine.substitute_keeps follows bindings value) fun _ => .pure _
  | analyzeModule module =>
    exact .bind (Analysis.ofModuleWithin_keeps depth follows module) fun _ => .pure _

/-- Every operation proceeds. -/
theorem perform_proceeds (depth : Nat) (operation : Operation) (origin : Store) :
    (operation.perform depth).Proceeds False origin := by
  cases scoping : operation.movesScopes with
  | false =>
    have owned := owned_unconfined origin
    have free : ∀ id, (Discipline.proceeding False).MayOwn ⟨origin, owned⟩ id :=
      mayOwn_unconfined origin
    exact (perform_keeps (Engine.atDepth_proceeds depth) free (fun _ => trivial)
      scoping).proceeds owned
  | true =>
    cases operation with
    | openScope => exact .bind (.onScopes _) fun _ => .pure _
    | closeScopes => exact .modify fun _ => rfl
    | _ => cases scoping

/-- A run of operations develops the store by a course. The induction is on the
operations, and a run goes onward where its last operation began. -/
theorem performAll_onward (depth : Nat) (environment : Environment) (before : Progress)
    (operations : List Operation) :
    Store.Onward False False before.store
      (performAll depth environment before operations).store := by
  unfold performAll
  induction operations generalizing before with
  | nil => exact .refl (owned_unconfined _)
  | cons operation rest inductionHypothesis =>
    have first := (perform_proceeds depth operation before.store).onward_after False
      environment (.refl (owned_unconfined _))
    exact first.trans (inductionHypothesis _)

end Operation

namespace Registry

/-- The progress before anything is evaluated. -/
def start : Progress :=
  { store := standard.store }

/-- The registered names with the default options. -/
def environment : Environment :=
  ⟨standard.registry, {}⟩

/-- No registered function is a declared method, so none needs an owner. -/
theorem owned_standard (confined : Prop) : standard.store.Owned confined :=
  fun id defined => absurd (node_standard id) defined

end Registry

namespace Analyzer

/-- The store of a fresh analyzer after the analysis of a module. -/
def storeAfter (options : Options) (module : Module) : Store :=
  ((new options).analyze module).2.store

/-- The analysis of a module develops the registered classes by a course, in which
attributes are set on declared classes only. -/
theorem course_storeAfter (options : Options) (module : Module) :
    ∃ events, Store.Course True Registry.standard.store events (storeAfter options module) := by
  have owned := Registry.owned_standard True
  have unmoved : Store.Onward True False Registry.standard.store Registry.start.store := .refl owned
  have analyzed := (Analysis.ofModuleWithin_keeps Engine.depthLimit
    (Engine.atDepth_proceeds Engine.depthLimit) module).proceeds owned
  have onward := analyzed.onward_after False ⟨Registry.standard.registry, options⟩ unmoved
  obtain ⟨events, course, _⟩ := onward.course
  refine ⟨events, ?_⟩
  have left : storeAfter options module = ((Analysis.ofModule module).after
      ⟨Registry.standard.registry, options⟩ Registry.start).store := by
    unfold storeAfter analyze Analysis.after
    have same : (new options).run (Analysis.ofModule module) =
        Analysis.ofModule module ⟨Registry.standard.registry, options⟩ Registry.start := rfl
    rw [same]
    cases Analysis.ofModule module ⟨Registry.standard.registry, options⟩ Registry.start <;> rfl
  rw [left]
  exact course

end Analyzer

end TypeInference
