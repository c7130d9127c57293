import TypeInference.Proofs.Contract
import TypeInference.Proofs.Discipline

/-!
# Proceeding is a discipline

An analysis that proceeds does so from an origin in which methods have owners that
may own them, and such an origin is the world of this discipline. Wherever the store
is read for what a function or a class is, the analysis goes on from the store that it
reads.
-/

namespace TypeInference

open Analysis

variable {confined : Prop} {origin : Store}

namespace Engine

/-- The record of a class that a definition declares. -/
def declaredClass (definition : ClassDefinition) (qualifiedName : String) : ClassRecord :=
  { ClassRecord.named definition.name.name qualifiedName none with node := some definition.id }

/-- A declared class begins as the next class of the store, without bases, and is
known for its node. -/
theorem createClass_apply (definition : ClassDefinition) (environment : Environment)
    (before : Progress) :
    ∃ qualifiedName, createClass definition environment before =
      .ok before.store.nextClass
        { before with
          store := (before.store.addClass (declaredClass definition qualifiedName)).2
          symbols := before.symbols.insertClass definition.id before.store.nextClass } :=
  ⟨_, rfl⟩

/-- A definition that is new declares the class that begins so. The class is given its bases, the
name is declared, and the body makes members in a scope of its own. -/
theorem declareClass_of_new (engine : Engine) {definition : ClassDefinition} {before : Progress}
    (new : before.symbols.class? definition.id = none) (environment : Environment) :
    ∃ qualifiedName,
      let id := before.store.nextClass
      let begun : Progress :=
        { before with
          store := (before.store.addClass (declaredClass definition qualifiedName)).2
          symbols := before.symbols.insertClass definition.id id }
      createClass definition environment before = .ok id begun ∧
      engine.declareClass definition environment before =
        (do
          engine.giveBases id definition.bases
          Analysis.declare definition.name.name (.type (.cls id)) .local (some definition.id)
            definition.name.span
          Analysis.inScope definition.id .classBody none fun _ => do
            Analysis.declare classCell (.type (.cls id)) .local (some definition.id)
              definition.span
            engine.collectMembers id definition.body
          return id : Analysis ClassId) environment begun := by
  obtain ⟨node, name, bases, body, decorators, span⟩ := definition
  obtain ⟨qualifiedName, created⟩ :=
    createClass_apply ⟨node, name, bases, body, decorators, span⟩ environment before
  refine ⟨qualifiedName, created, ?_⟩
  rw [declareClass, bind_apply, get_apply]
  dsimp only at new ⊢
  rw [new]
  dsimp only
  rw [bind_of_ok created]

/-- The class that declares a new function. -/
theorem declaringClass_declaredRecord (definition : FunctionDefinition) (owner : Option ClassId)
    (qualifiedName : String) :
    (declaredRecord definition owner qualifiedName).declaringClass = owner := by
  cases owner with
  | none => rfl
  | some id =>
    unfold declaredRecord FunctionRecord.inClass FunctionRecord.addOverload
    dsimp only
    split <;> rfl

/-- A function begins with one overload, of which nothing is known yet. -/
theorem overloads_declaredRecord (definition : FunctionDefinition) (owner : Option ClassId)
    (qualifiedName : String) : (declaredRecord definition owner qualifiedName).overloads =
      [{ name := definition.name.name, node := some definition.id }] := by
  cases owner with
  | none => rfl
  | some id =>
    unfold declaredRecord FunctionRecord.inClass FunctionRecord.addOverload
    dsimp only
    split <;> rfl

variable {engine : Engine} {bases : List Expression}

/-- Giving a class that is new to the origin its bases goes onward. -/
theorem giveBases_onward
    (based : ∀ {origin : Store}, origin.Owned confined →
      (engine.evaluateBases bases).Proceeds confined origin)
    {calm : Prop} (id : ClassId) (environment : Environment) (before : Progress)
    (onward : Store.Onward confined calm origin before.store) (absent : ¬origin.HasClass id)
    (present : before.store.HasClass id) (underived : before.store.Underived id) :
    Store.Reached confined calm origin (engine.giveBases id bases environment before) := by
  unfold giveBases
  rw [bind_apply]
  have evaluated := based onward.owned environment calm before (.refl onward.owned)
  cases found : engine.evaluateBases bases environment before with
  | ok types middle =>
    rw [found] at evaluated
    have kept := Store.Onward.classes evaluated id present
    exact ((onward.trans evaluated).order id (withObject types) kept.present
      ⟨kept.kept.bases.trans underived.bases,
        kept.kept.resolutionOrder.trans underived.resolutionOrder⟩ absent).parametrize id _
  | error failure middle =>
    rw [found] at evaluated
    exact onward.relax.trans evaluated

/-- A class that may own its members still may when it has its bases. -/
theorem mayOwn_giveBases
    (based : ∀ {origin : Store}, origin.Owned confined →
      (engine.evaluateBases bases).Proceeds confined origin)
    (id : ClassId) (environment : Environment) {before after : Progress}
    (owned : before.store.Owned confined) (mayOwn : before.store.MayOwn confined id)
    (returned : engine.giveBases id bases environment before = .ok () after) :
    after.store.MayOwn confined id := by
  obtain ⟨types, middle, found, changed⟩ := bind_eq_ok.mp returned
  have evaluated := based owned environment True before (.refl owned)
  rw [found] at evaluated
  have still := Store.Onward.mayOwn evaluated mayOwn
  cases changed
  intro isConfined
  have declared := still isConfined
  refine ⟨by simpa using declared.present, ?_, ?_⟩
  · rw [Store.classAt_modifyClass_eq, Store.classAt_setBases]
    simp [declared.present, declared.original]
  · rw [Store.classAt_modifyClass_eq, Store.classAt_setBases]
    simp [declared.present, declared.userDefined]

/-- Declaring a class, as far as its bases. A class that is new to the origin may
own its members. -/
theorem createClass_bind_proceeds {α : Type}
    (based : ∀ {origin : Store}, origin.Owned confined →
      (engine.evaluateBases bases).Proceeds confined origin)
    (definition : ClassDefinition) {next : ClassId → Analysis α}
    (onwards : ∀ store id, store.Owned confined → store.MayOwn confined id →
      (next id).Proceeds confined store) :
    (do
      let id ← createClass definition
      engine.giveBases id bases
      next id).Proceeds confined origin := by
  intro environment calm before onward
  obtain ⟨qualifiedName, created⟩ := createClass_apply definition environment before
  rw [bind_apply, created]
  dsimp only
  rw [bind_apply]
  -- The class is none of the origin, so giving it bases and parameters goes onward.
  have absent : ¬origin.HasClass before.store.nextClass := fun inOrigin =>
    before.store.not_hasClass_nextClass (onward.classes _ inOrigin).present
  have record : (before.store.addClass (declaredClass definition qualifiedName)).2.classAt
      before.store.nextClass = declaredClass definition qualifiedName := by
    rw [Store.classAt_addClass_eq, if_pos rfl]
  have present : (before.store.addClass (declaredClass definition qualifiedName)).2.HasClass
      before.store.nextClass := (before.store.hasClass_addClass _ _).mpr (.inr rfl)
  have blank : (declaredClass definition qualifiedName).Blank := ⟨rfl, rfl, rfl, rfl, rfl⟩
  have declared : (before.store.addClass
      (declaredClass definition qualifiedName)).2.IsDeclared before.store.nextClass :=
    ⟨present, by rw [record]; rfl, by rw [record]; rfl⟩
  have fresh := onward.createClass _ blank rfl rfl
  have given := giveBases_onward based before.store.nextClass environment
    { before with
      store := (before.store.addClass (declaredClass definition qualifiedName)).2
      symbols := before.symbols.insertClass definition.id before.store.nextClass }
    fresh absent present ⟨by rw [record]; rfl, by rw [record]; rfl⟩
  cases found : engine.giveBases before.store.nextClass bases environment
      { before with
        store := (before.store.addClass (declaredClass definition qualifiedName)).2
        symbols := before.symbols.insertClass definition.id before.store.nextClass } with
  | ok _ after =>
    rw [found] at given
    have mayOwn : after.store.MayOwn confined before.store.nextClass :=
      mayOwn_giveBases based _ environment fresh.owned (fun _ => declared) found
    exact .trans given (onwards after.store _ (Store.Onward.owned given) mayOwn environment calm
      after (.refl (Store.Onward.owned given)))
  | error failure after =>
    rw [found] at given
    exact given

end Engine

/-- A function that a definition declares, and whose class may own its members. -/
structure Store.IsDefined (confined : Prop) (store : Store) (function : FunctionId) : Prop where
  present : store.HasFunction function
  mayOwn : ∀ owner, (store.functionAt function).declaringClass = some owner →
    store.MayOwn confined owner

namespace Store

/-- A defined function stays one. -/
theorem IsDefined.onward {calm : Prop} {store : Store} {function : FunctionId}
    (defined : origin.IsDefined confined function)
    (onward : Onward confined calm origin store) : store.IsDefined confined function where
  present := (onward.functions function defined.present).present
  mayOwn owner declaring := by
    have same := (onward.functions function defined.present).kept
    rw [same.declaringClass] at declaring
    exact onward.mayOwn (defined.mayOwn owner declaring)

/-- Only a function of the store has a definition, and the class that declares it may
own its members. -/
theorem Owned.isDefined {store : Store} (owned : store.Owned confined) {function : FunctionId}
    (known : (store.functionAt function).node ≠ none) : store.IsDefined confined function where
  present := by
    refine Decidable.byContradiction fun outside => known ?_
    rw [functionAt_of_not_hasFunction store function outside]
    rfl
  mayOwn := owned function known

end Store

namespace Analysis.Proceeds

/-- A change of an overload. -/
theorem changeOverload (id : OverloadId) (change : Overload → Overload) :
    (Engine.changeOverload id change).Proceeds confined origin :=
  .modifyStore fun _ _ onward => onward.changeFunction id.function _ fun _ => ⟨rfl, rfl, rfl⟩

/-- Something that is done if an overload waits. -/
theorem whenPending {id : OverloadId} {analysis : Analysis Unit}
    (proceeds : analysis.Proceeds confined origin) :
    (Engine.whenPending id analysis).Proceeds confined origin := by
  refine .bind .get fun progress => ?_
  split
  · exact proceeds
  · exact .pure ()

end Analysis.Proceeds

namespace Discipline

/-- To proceed from every origin in which methods have owners that may own them. -/
def proceeding (confined : Prop) : Discipline where
  World := { origin : Store // origin.Owned confined }
  Holds world _ analysis := analysis.Proceeds confined world.1
  MayOwn world := world.1.MayOwn confined
  IsDefined world := world.1.IsDefined confined
  MayChange _ := True
  MayRecord _ := True
  pure _ := .pure
  throw _ := .throw
  bind := .bind
  store _ := .store
  options _ := .options
  lookupName? _ := .lookupName?
  declare _ := .declare
  redirectGlobal _ _ := .changeScopes _
  redirectNonlocal _ _ := .changeScopes _
  qualifiedName _ := .qualifiedName
  report _ := .report
  read _ proceeds := .bind .get proceeds
  currentScope proceeds := .bind .scopes fun _ => .bind (.orFault _) proceeds
  globals _ _ := .bind .scopes fun _ => .pure _
  inScope := .inScope
  clearVariables _ _ := .modify fun _ => rfl
  insertEntry _ _ := .modify fun _ => rfl
  createFunction {_ _} _ {_} _ {_} mayOwn onwards := .bind
    (.onStore fun _ _ onward => onward.createFunction _ fun id declaring => mayOwn id <| by
      rwa [Engine.declaringClass_declaredRecord] at declaring) fun id => onwards id trivial
  changeFunction {_ function _} _ same :=
    .modifyStore fun _ store onward => onward.changeFunction function _ fun record =>
      (same store record).1
  changeOverload {_ id _} _ _ := .changeOverload id _
  evaluation {_ id} _ {_} _ proceeds := .whenPending <| .bind (.changeOverload id _) fun _ =>
    .inScope fun scope => .bind (proceeds trivial scope) fun _ => .changeOverload id _
  setMember {_ owner} name value overwrite mayOwn :=
    .modifyStore fun _ _ onward => onward.setMember owner name value overwrite mayOwn
  setAttribute name value mayOwn := .setAttribute mayOwn name value
  createClass {_ _ _} definition {_ _} based onwards :=
    Engine.createClass_bind_proceeds (fun owned => based ⟨_, owned⟩) definition
      fun _ id owned mayOwn => onwards ⟨_, owned⟩ id mayOwn
  readDefinition {_ _} _ {_} onwards := .of_store fun store onward =>
    onwards ⟨store, onward.owned⟩ store fun known => ⟨onward.owned.isDefined known, trivial⟩
  readOwner {_ _ _ _} defined onwards := .of_store fun store onward =>
    onwards ⟨store, onward.owned⟩ store (defined.onward onward).mayOwn

end Discipline

/-- An engine whose evaluations and specializations proceed from every store. -/
abbrev Engine.Proceeds (confined : Prop) (engine : Engine) : Prop :=
  engine.Follows (.proceeding confined)

/-- What keeps the discipline of proceeding proceeds. -/
theorem Analysis.Keeps.proceeds {α : Type} {analysis : Analysis α}
    (owned : origin.Owned confined)
    (keeps : analysis.Keeps (.proceeding confined) ⟨origin, owned⟩) :
    analysis.Proceeds confined origin :=
  keeps

end TypeInference
