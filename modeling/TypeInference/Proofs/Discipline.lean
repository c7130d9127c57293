import TypeInference.Analysis.Module
import TypeInference.Proofs.Development
import TypeInference.Proofs.Outcome

/-!
# Disciplines of analyses

Everything that is evaluated is composed of the same few parts: names are looked
up and declared, scopes are opened and closed, functions and classes are created
and changed, problems are reported. A discipline is a property that composed
analyses have because these parts have it. The modules on specializing, evaluating
and defining show once that every analysis of this library keeps every
discipline; what is left to show of a property is that it is one.

A discipline may depend on a world, which is what is known when an analysis begins. It says on which
classes members may be set, which functions have a definition, and which functions and overloads may
be changed. Three parts lead to another world: a class is created, and the store is read in order to
evaluate a function or to walk its body.

The specialization of a class is no part of a discipline, since a placeholder is
shared with everything that runs while it is being made.
-/

namespace TypeInference

open Analysis

/-- Does something if an overload waits to be evaluated. -/
def Engine.whenPending (id : OverloadId) (analysis : Analysis Unit) : Analysis Unit := do
  let progress ← get
  if (progress.store.overloadAt id).state = .pending then analysis

/-- Where an overload waits nothing is in the way. -/
theorem Engine.whenPending_of_pending {id : OverloadId} {before : Progress}
    (pending : (before.store.overloadAt id).state = .pending) (analysis : Analysis Unit)
    (environment : Environment) :
    whenPending id analysis environment before = analysis environment before := by
  rw [whenPending, bind_apply, get_apply]
  dsimp only
  rw [if_pos pending]

/-- Any other overload is left as it is. -/
theorem Engine.whenPending_of_not_pending {id : OverloadId} {before : Progress}
    (known : (before.store.overloadAt id).state ≠ .pending) (analysis : Analysis Unit)
    (environment : Environment) :
    whenPending id analysis environment before = .ok () before := by
  rw [whenPending, bind_apply, get_apply]
  dsimp only
  rw [if_neg known]
  rfl

/-- A property of analyses that follows from their parts. -/
structure Discipline where
  World : Type
  /-- An analysis that begins in a world has the property. -/
  Holds : World → ∀ {α : Type}, Analysis α → Prop
  /-- A class on which members may be set. -/
  MayOwn : World → ClassId → Prop
  /-- A function that a definition declares. -/
  IsDefined : World → FunctionId → Prop
  /-- A function that may be changed. -/
  MayChange : FunctionId → Prop
  /-- An overload that may be changed. -/
  MayRecord : OverloadId → Prop
  pure : ∀ world {α : Type} (result : α), Holds world (Pure.pure result : Analysis α)
  throw : ∀ world {α : Type} (failure : Failure), Holds world (throw failure : Analysis α)
  bind : ∀ {world} {α β : Type} {first : Analysis α} {next : α → Analysis β},
    Holds world first → (∀ result, Holds world (next result)) → Holds world (first >>= next)
  store : ∀ world, Holds world Analysis.store
  options : ∀ world, Holds world Analysis.options
  lookupName? : ∀ world name reach, Holds world (Analysis.lookupName? name reach)
  declare : ∀ world name value kind node span,
    Holds world (Analysis.declare name value kind node span)
  redirectGlobal : ∀ world name,
    Holds world (changeScopes fun scopes => scopes.declareGlobal name)
  redirectNonlocal : ∀ world name,
    Holds world (changeScopes fun scopes => scopes.declareNonlocal name)
  qualifiedName : ∀ world name, Holds world (Analysis.qualifiedName name)
  report : ∀ world lint span, Holds world (Analysis.report lint span)
  /-- The progress is read without a look at the scopes. -/
  read : ∀ {world} {α : Type} {next : Progress → Analysis α},
    (∀ progress scopes, next { progress with scopes } = next progress) →
      (∀ progress, Holds world (next progress)) → Holds world (get >>= next)
  currentScope : ∀ {world} {α : Type} {next : ScopeId → Analysis α},
    (∀ id, Holds world (next id)) → Holds world (do next (← orFault (← scopes).current))
  globals : ∀ world id, Holds world (do return globalsOf (← scopes) id)
  inScope : ∀ {world} {α : Type} {node kind parent} {body : ScopeId → Analysis α},
    (∀ id, Holds world (body id)) → Holds world (Analysis.inScope node kind parent body)
  clearVariables : ∀ world scope, Holds world
    (modify fun progress => { progress with scopes := progress.scopes.clearVariables scope })
  insertEntry : ∀ world entry, Holds world
    (modify fun progress => { progress with symbols := progress.symbols.insert entry })
  /-- A function is created, and may be changed then. -/
  createFunction : ∀ {world} {α : Type} definition {owner} qualifiedName
      {next : FunctionId → Analysis α},
    (∀ id, owner = some id → MayOwn world id) →
      (∀ id, MayChange id → Holds world (next id)) → Holds world (do
        let id ← onStore fun store =>
          store.addFunction (Engine.declaredRecord definition owner qualifiedName)
        next id)
  changeFunction : ∀ {world function} {change : Store → FunctionRecord → FunctionRecord},
    MayChange function →
      (∀ store (record : FunctionRecord), record.SameIdentity (change store record) ∧
        (change store record).overloads = record.overloads) →
        Holds world (modifyStore fun store => store.modifyFunction function (change store))
  changeOverload : ∀ {world id} {change : Overload → Overload},
    MayRecord id → (∀ overload, (change overload).state = overload.state) →
      Holds world (Engine.changeOverload id change)
  /-- An overload that waits is evaluated in the scope of its function, and may be changed then. -/
  evaluation : ∀ {world id} (entry : FunctionEntry) {body : ScopeId → Analysis Unit},
    MayChange id.function → (MayRecord id → ∀ scope, Holds world (body scope)) →
      Holds world (Engine.whenPending id do
        Engine.changeOverload id fun overload => { overload with state := .evaluating }
        Analysis.inScope entry.definition.id .functionBody (some entry.scope) fun scope => do
          body scope
          Engine.changeOverload id fun overload => { overload with state := .evaluated })
  setMember : ∀ {world owner} name value overwrite, MayOwn world owner → Holds world
    (modifyStore fun store => (store.addMember owner name value overwrite).2)
  setAttribute : ∀ {world owner} name value, MayOwn world owner →
    Holds world (Analysis.setAttribute owner name value)
  /-- A class is created and given its bases, and may own its members then. -/
  createClass : ∀ {world} {α : Type} {engine : Engine} definition {bases}
      {next : ClassId → Analysis α},
    (∀ world, Holds world (engine.evaluateBases bases)) →
      (∀ world id, MayOwn world id → Holds world (next id)) → Holds world (do
        let id ← Engine.createClass definition
        engine.giveBases id bases
        next id)
  /-- The store is read for the definition of a function. -/
  readDefinition : ∀ {world} {α : Type} function {next : Store → Analysis α},
    (∀ world store, ((store.functionAt function).node ≠ none →
      IsDefined world function ∧ MayChange function) →
        Holds world (next store)) → Holds world (Analysis.store >>= next)
  /-- The store is read for the class that declares a function. -/
  readOwner : ∀ {world} {α : Type} {function} {next : Store → Analysis α},
    IsDefined world function →
      (∀ world store, (∀ owner, (store.functionAt function).declaringClass = some owner →
        MayOwn world owner) → Holds world (next store)) →
          Holds world (Analysis.store >>= next)

namespace Analysis

/-- An analysis that has the property of a discipline in a world. -/
def Keeps {α : Type} (discipline : Discipline) (world : discipline.World)
    (analysis : Analysis α) : Prop :=
  discipline.Holds world analysis

namespace Keeps

variable {α β : Type} {discipline : Discipline} {world : discipline.World}

theorem pure (result : α) : (Pure.pure result : Analysis α).Keeps discipline world :=
  discipline.pure world result

theorem throw (failure : Failure) : (throw failure : Analysis α).Keeps discipline world :=
  discipline.throw world failure

theorem bind {first : Analysis α} {next : α → Analysis β}
    (keeps : first.Keeps discipline world)
    (onwards : ∀ result, (next result).Keeps discipline world) :
    (first >>= next).Keeps discipline world :=
  discipline.bind keeps onwards

theorem store : Analysis.store.Keeps discipline world :=
  discipline.store world

theorem options : Analysis.options.Keeps discipline world :=
  discipline.options world

theorem lookupName? (name : String) (reach : Reach) :
    (Analysis.lookupName? name reach).Keeps discipline world :=
  discipline.lookupName? world name reach

theorem declare (name : String) (value : Value) (kind : VariableKind) (node : Option NodeId)
    (span : Span) : (Analysis.declare name value kind node span).Keeps discipline world :=
  discipline.declare world name value kind node span

theorem qualifiedName (name : String) : (Analysis.qualifiedName name).Keeps discipline world :=
  discipline.qualifiedName world name

theorem report (lint : Lint) (span : Span) : (Analysis.report lint span).Keeps discipline world :=
  discipline.report world lint span

/-- An analysis in a scope of its own. -/
theorem inScope {node : NodeId} {kind : ScopeKind} {parent : Option ScopeId}
    {body : ScopeId → Analysis α} (keeps : ∀ id, (body id).Keeps discipline world) :
    (Analysis.inScope node kind parent body).Keeps discipline world :=
  discipline.inScope keeps

/-- Reading the progress without a look at the scopes. -/
theorem read {next : Progress → Analysis α}
    (blind : ∀ progress scopes, next { progress with scopes } = next progress)
    (keeps : ∀ progress, (next progress).Keeps discipline world) :
    (get >>= next).Keeps discipline world :=
  discipline.read blind keeps

/-- The innermost scope is found, or there is none. -/
theorem currentScope {next : ScopeId → Analysis α}
    (keeps : ∀ id, (next id).Keeps discipline world) :
    (do next (← orFault (← scopes).current)).Keeps discipline world :=
  discipline.currentScope keeps

/-- A class is created and given its bases, and may own its members then. -/
theorem createClass {engine : Engine} (definition : ClassDefinition) {bases : List Expression}
    {next : ClassId → Analysis α}
    (based : ∀ world, (engine.evaluateBases bases).Keeps discipline world)
    (onwards : ∀ world id, discipline.MayOwn world id → (next id).Keeps discipline world) :
    (do
      let id ← Engine.createClass definition
      engine.giveBases id bases
      next id).Keeps discipline world :=
  discipline.createClass definition based onwards

/-- A function is created, and may be changed then. -/
theorem createFunction (definition : FunctionDefinition) {owner : Option ClassId}
    (qualifiedName : String) {next : FunctionId → Analysis α}
    (mayOwn : ∀ id, owner = some id → discipline.MayOwn world id)
    (onwards : ∀ id, discipline.MayChange id → (next id).Keeps discipline world) :
    (do
      let id ← onStore fun store =>
        store.addFunction (Engine.declaredRecord definition owner qualifiedName)
      next id).Keeps discipline world :=
  discipline.createFunction definition qualifiedName mayOwn onwards

/-- An overload that waits is evaluated in the scope of its function, and may be changed then. -/
theorem evaluation {id : OverloadId} (entry : FunctionEntry) {body : ScopeId → Analysis Unit}
    (mayChange : discipline.MayChange id.function)
    (keeps : discipline.MayRecord id → ∀ scope, (body scope).Keeps discipline world) :
    (Engine.whenPending id do
      Engine.changeOverload id fun overload => { overload with state := .evaluating }
      Analysis.inScope entry.definition.id .functionBody (some entry.scope) fun scope => do
        body scope
        Engine.changeOverload id fun overload =>
          { overload with state := .evaluated }).Keeps discipline world :=
  discipline.evaluation entry mayChange keeps

/-- The store is read for the definition of a function. -/
theorem readDefinition (function : FunctionId) {next : Store → Analysis α}
    (keeps : ∀ world store,
      ((store.functionAt function).node ≠ none →
        discipline.IsDefined world function ∧ discipline.MayChange function) →
        (next store).Keeps discipline world) :
    (Analysis.store >>= next).Keeps discipline world :=
  discipline.readDefinition function keeps

/-- The store is read for the class that declares a function. -/
theorem readOwner {function : FunctionId} (defined : discipline.IsDefined world function)
    {next : Store → Analysis α}
    (keeps : ∀ world store,
      (∀ owner, (store.functionAt function).declaringClass = some owner →
        discipline.MayOwn world owner) → (next store).Keeps discipline world) :
    (Analysis.store >>= next).Keeps discipline world :=
  discipline.readOwner defined keeps

/-- A change of an overload that leaves it as far evaluated as it is. -/
theorem changeOverload {id : OverloadId} {change : Overload → Overload}
    (mayRecord : discipline.MayRecord id)
    (same : ∀ overload, (change overload).state = overload.state) :
    (Engine.changeOverload id change).Keeps discipline world :=
  discipline.changeOverload mayRecord same

/-- A returned value that is recorded with its overload. -/
theorem addReturn {id : OverloadId} (mayRecord : discipline.MayRecord id)
    (value : Value) : (Analysis.addReturn id value).Keeps discipline world :=
  changeOverload mayRecord fun _ => rfl

/-- A member that is set on a class that may own it. -/
theorem setMember {owner : ClassId} (name : String) (value : Value) (overwrite : Bool)
    (mayOwn : discipline.MayOwn world owner) :
    (modifyStore fun store => (store.addMember owner name value overwrite).2).Keeps
      discipline world :=
  discipline.setMember name value overwrite mayOwn

/-- An attribute that is set on a class that may own it. -/
theorem setAttribute {owner : ClassId} (mayOwn : discipline.MayOwn world owner) (name : String)
    (value : Value) : (Analysis.setAttribute owner name value).Keeps discipline world :=
  discipline.setAttribute name value mayOwn

end Keeps

end Analysis

/-- An engine whose evaluations and specializations keep a discipline in every world. -/
structure Engine.Follows (discipline : Discipline) (engine : Engine) : Prop where
  evaluateFunction : ∀ {world} function,
    (engine.evaluateFunction function).Keeps discipline world
  specialize : ∀ {world} id arguments, (engine.specialize id arguments).Keeps discipline world

/-- The engine that goes no deeper. -/
theorem Engine.exhausted_follows (discipline : Discipline) :
    Engine.exhausted.Follows discipline where
  evaluateFunction _ := .throw _
  specialize _ _ := .throw _

end TypeInference
