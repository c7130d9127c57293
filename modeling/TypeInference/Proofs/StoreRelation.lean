import TypeInference.Proofs.Placeholder

/-!
# Disciplines about the store

Many disciplines say how the store that an analysis leaves is related to the one it
began with, where the analysis succeeds or in any case. Such a relation is a discipline
if it composes and if the single changes of the store satisfy it; what concerns scopes,
symbols or diagnostics alone needs no proof then. Specializations keep it if from the
beginning of one to its end it holds as a whole.
-/

namespace TypeInference

open Analysis

/-- A relation between the stores before and after an analysis that composes. -/
structure StorePreorder where
  Relates : Store → Store → Prop
  /-- Whether a failed analysis satisfies the relation too. -/
  Failing : Prop
  refl : ∀ store, Relates store store
  trans : ∀ {before middle after}, Relates before middle → Relates middle after →
    Relates before after

/-- A relation between the stores before and after an analysis that its changes of the
store satisfy, if they change no other overloads than those that may be changed. -/
structure StoreRelation extends StorePreorder where
  /-- An overload that may be changed. -/
  MayRecord : OverloadId → Prop
  /-- While another one waits, it does not matter what happens. -/
  waiting : ∀ {id store after}, ¬MayRecord id → (store.overloadAt id).state = .pending →
    Relates store after
  createFunction : ∀ store definition owner qualifiedName,
    Relates store (store.addFunction (Engine.declaredRecord definition owner qualifiedName)).2
  changeFunction : ∀ store id {change : FunctionRecord → FunctionRecord},
    (∀ record : FunctionRecord, record.SameIdentity (change record) ∧
      (change record).overloads = record.overloads) →
      Relates store (store.modifyFunction id change)
  changeOverload : ∀ store {id} {change : Overload → Overload}, MayRecord id →
    (∀ overload, (change overload).state = overload.state) →
      Relates store (store.modifyOverload id change)
  /-- An overload is evaluated, with something else in between. -/
  evaluation : ∀ {id} {store made : Store}, MayRecord id →
    Relates (store.modifyOverload id fun overload => { overload with state := .evaluating })
      made →
      Relates store (made.modifyOverload id fun overload => { overload with state := .evaluated })
  /-- What happens in between fails. -/
  interruption : ∀ {id} {store made : Store}, MayRecord id → Failing →
    Relates (store.modifyOverload id fun overload => { overload with state := .evaluating })
      made → Relates store made
  addMember : ∀ store owner name value overwrite,
    Relates store (store.addMember owner name value overwrite).2
  createClass : ∀ store {record : ClassRecord}, record.Blank → record.template = none →
    Relates store (store.addClass record).2
  setBases : ∀ store id bases, Relates store (store.setBases id bases)
  parametrize : ∀ store id parameters,
    Relates store (store.modifyClass id fun record => { record with parameters })
  /-- A specialization is begun and finished, with its making in between. -/
  specialization : ∀ {store made : Store} {template bindings}, store.HasClass template →
    Engine.unfinished? store template (store.signature bindings) = none →
      Relates (store.begin template bindings) made →
        Relates store (made.finish template (store.signature bindings) store.nextClass)
  /-- The making of a specialization fails. -/
  abandonment : ∀ {store made : Store} {template bindings}, Failing → store.HasClass template →
    Engine.unfinished? store template (store.signature bindings) = none →
      Relates (store.begin template bindings) made →
        Relates store (Engine.endSpecialization made template)

namespace Analysis

variable {α β : Type} {relation : StorePreorder}

/-- An analysis that ends with a store related to the one from which it begins. -/
def RespectsFrom (relation : StorePreorder) (environment : Environment) (before : Progress)
    (analysis : Analysis α) : Prop :=
  match analysis environment before with
  | .ok _ after => relation.Relates before.store after.store
  | .error _ after => relation.Failing → relation.Relates before.store after.store

/-- An analysis that begins and ends with related stores. -/
def Respects (relation : StorePreorder) (analysis : Analysis α) : Prop :=
  ∀ environment before, analysis.RespectsFrom relation environment before

namespace Respects

/-- What is left with a result is related to what was there. -/
theorem of_ok {analysis : Analysis α} (respects : analysis.Respects relation)
    {environment : Environment} {before after : Progress} {result : α}
    (returned : analysis environment before = .ok result after) :
    relation.Relates before.store after.store := by
  have outcome := respects environment before
  rw [RespectsFrom, returned] at outcome
  exact outcome

/-- Whatever is left is related to what was there, if that holds of failures. -/
theorem onwards {analysis : Analysis α} (respects : analysis.Respects relation)
    (failing : relation.Failing) (environment : Environment) (before : Progress) :
    relation.Relates before.store (analysis.after environment before).store := by
  have outcome := respects environment before
  unfold after
  cases found : analysis environment before with
  | ok result after =>
    rw [RespectsFrom, found] at outcome
    exact outcome
  | error failure after =>
    rw [RespectsFrom, found] at outcome
    exact outcome failing

/-- An analysis whose ends are all related to where it begins. -/
theorem of_onwards {analysis : Analysis α}
    (onwards : ∀ environment before,
      relation.Relates before.store (analysis.after environment before).store) :
    analysis.Respects relation := by
  intro environment before
  have relates := onwards environment before
  unfold after at relates
  unfold RespectsFrom
  generalize analysis environment before = outcome at relates
  cases outcome with
  | ok _ after => exact relates
  | error _ after => exact fun _ => relates

/-- An analysis that leaves the store alone. -/
theorem of_still {analysis : Analysis α}
    (still : ∀ environment before, (analysis.after environment before).store = before.store) :
    analysis.Respects relation :=
  of_onwards fun environment before => still environment before ▸ relation.refl before.store

theorem pure (result : α) : (Pure.pure result : Analysis α).Respects relation :=
  of_still fun _ _ => rfl

theorem throw (failure : Failure) : (throw failure : Analysis α).Respects relation :=
  of_still fun _ _ => rfl

theorem bind {first : Analysis α} {next : α → Analysis β} (respects : first.Respects relation)
    (onwards : ∀ result, (next result).Respects relation) : (first >>= next).Respects relation := by
  intro environment before
  have earlier := respects environment before
  unfold RespectsFrom at earlier ⊢
  rw [bind_apply]
  cases found : first environment before with
  | ok result middle =>
    rw [found] at earlier
    have later := onwards result environment middle
    unfold RespectsFrom at later
    dsimp only
    generalize next result environment middle = outcome at later
    cases outcome with
    | ok _ after => exact relation.trans earlier later
    | error _ after => exact fun failing => relation.trans earlier (later failing)
  | error failure middle =>
    rw [found] at earlier
    exact earlier

theorem store : Analysis.store.Respects relation :=
  of_still fun _ _ => rfl

/-- Reading the store, and going on from exactly what is read. -/
theorem read {next : Store → Analysis α}
    (respects : ∀ environment before,
      (next before.store).RespectsFrom relation environment before) :
    (Analysis.store >>= next).Respects relation :=
  respects

/-- A change of the store that satisfies the relation. -/
theorem modifyStore {change : Store → Store}
    (relates : ∀ store, relation.Relates store (change store)) :
    (Analysis.modifyStore change).Respects relation :=
  fun _ before => relates before.store

/-- A change of the store with a result that satisfies the relation. -/
theorem onStore {change : Store → α × Store}
    (relates : ∀ store, relation.Relates store (change store).2) :
    (Analysis.onStore change).Respects relation :=
  fun _ before => relates before.store

/-- A change of the scopes that may end in a fault. -/
theorem changeScopes (change : Scopes → Except Fault Scopes) :
    (Analysis.changeScopes change).Respects relation := by
  refine of_still fun environment before => ?_
  obtain ⟨scopes, left⟩ := after_changeScopes change environment before
  rw [left]

theorem lookupName? (name : String) (reach : Reach) :
    (Analysis.lookupName? name reach).Respects relation := by
  refine of_still fun environment before => ?_
  obtain ⟨scopes, left⟩ := after_lookupName? name reach environment before
  rw [left]

/-- Something that is done if an overload waits. -/
theorem whenPending {id : OverloadId} {analysis : Analysis Unit}
    (respects : analysis.Respects relation) :
    (Engine.whenPending id analysis).Respects relation := by
  refine .bind (.of_still fun _ _ => rfl) fun progress => ?_
  split
  · exact respects
  · exact .pure ()

/-- The innermost scope is found, or there is none. -/
theorem currentScope {next : ScopeId → Analysis α}
    (respects : ∀ id, (next id).Respects relation) :
    (do next (← orFault (← scopes).current) : Analysis α).Respects relation := by
  refine .bind (.of_still fun _ _ => rfl) fun scopes => .bind ?_ respects
  cases scopes.current with
  | ok id => exact .pure id
  | error fault => exact .throw _

/-- An analysis with a change of the scopes before it and after it. -/
theorem inScope {node : NodeId} {kind : ScopeKind} {parent : Option ScopeId}
    {body : ScopeId → Analysis α} (respects : ∀ id, (body id).Respects relation) :
    (Analysis.inScope node kind parent body).Respects relation := by
  intro environment before
  unfold RespectsFrom Analysis.inScope
  simp only [bind_apply, scopes_apply, onScopes_apply, withCleanup]
  generalize (before.scopes.push node kind parent).1 = scope
  generalize (before.scopes.push node kind parent).2 = scopes
  have inside := respects scope environment { before with scopes }
  unfold RespectsFrom at inside
  cases outcome : body scope environment { before with scopes } with
  | ok result after =>
    rw [outcome] at inside
    exact inside
  | error failure after =>
    rw [outcome] at inside
    exact inside

variable {relation : StoreRelation}

/-- An attribute that is set on a class. -/
theorem setAttribute (owner : ClassId) (name : String) (value : Value) :
    (Analysis.setAttribute owner name value).Respects relation.toStorePreorder := by
  refine .modifyStore fun store => ?_
  split
  · split
    · exact relation.addMember store owner name value true
    · exact relation.refl store
  · exact relation.addMember store owner name value true

/-- An overload is evaluated. -/
theorem evaluation {id : OverloadId} (mayRecord : relation.MayRecord id) (entry : FunctionEntry)
    {body : ScopeId → Analysis Unit}
    (respects : ∀ scope, (body scope).Respects relation.toStorePreorder) :
    (do
      Engine.changeOverload id fun overload => { overload with state := .evaluating }
      Analysis.inScope entry.definition.id .functionBody (some entry.scope) fun scope => do
        body scope
        Engine.changeOverload id fun overload =>
          { overload with state := .evaluated } :
        Analysis Unit).Respects relation.toStorePreorder := by
  intro environment before
  unfold RespectsFrom Analysis.inScope Engine.changeOverload
  simp only [bind_apply, modifyStore_apply, scopes_apply, onScopes_apply, withCleanup]
  generalize (before.scopes.push entry.definition.id .functionBody (some entry.scope)).1 = scope
  generalize (before.scopes.push entry.definition.id .functionBody (some entry.scope)).2 = scopes
  generalize begun : ({ before with
    store := before.store.modifyOverload id fun overload => { overload with state := .evaluating }
    scopes } : Progress) = progress
  have inside := respects scope environment progress
  unfold RespectsFrom at inside
  cases outcome : body scope environment progress with
  | ok result after =>
    rw [outcome, ← begun] at inside
    exact relation.evaluation mayRecord inside
  | error failure after =>
    rw [outcome, ← begun] at inside
    exact fun failing => relation.interruption mayRecord failing (inside failing)

/-- An overload that may not be changed is not evaluated, unless that does not matter. -/
theorem whenPending_of_not_mayRecord {id : OverloadId} (unchanged : ¬relation.MayRecord id)
    (analysis : Analysis Unit) :
    (Engine.whenPending id analysis).Respects relation.toStorePreorder := by
  refine .of_onwards fun environment before => ?_
  by_cases pending : (before.store.overloadAt id).state = .pending
  · exact relation.waiting unchanged pending
  · unfold after
    rw [Engine.whenPending_of_not_pending pending]
    exact relation.refl before.store

/-- A class is created. -/
theorem createClass (definition : ClassDefinition) :
    (Engine.createClass definition).Respects relation.toStorePreorder := by
  intro environment before
  obtain ⟨qualifiedName, created⟩ := Engine.createClass_apply definition environment before
  rw [RespectsFrom, created]
  exact relation.createClass before.store ⟨rfl, rfl, rfl, rfl, rfl⟩ rfl

/-- A class is given its bases. -/
theorem giveBases {engine : Engine} (id : ClassId) {bases : List Expression}
    (respects : (engine.evaluateBases bases).Respects relation.toStorePreorder) :
    (engine.giveBases id bases).Respects relation.toStorePreorder :=
  .bind respects fun types => .modifyStore fun store =>
    relation.trans (relation.setBases store id (Engine.withObject types))
      (relation.parametrize _ id _)

end Respects

end Analysis

/-- To begin and end with related stores. -/
def StoreRelation.discipline (relation : StoreRelation) : Discipline where
  World := Unit
  Holds _ _ analysis := analysis.Respects relation.toStorePreorder
  MayOwn _ _ := True
  IsDefined _ _ := True
  MayChange _ := True
  MayRecord := relation.MayRecord
  pure _ _ := .pure
  throw _ _ := .throw
  bind := .bind
  store _ := .store
  options _ := .of_still fun _ _ => rfl
  lookupName? _ := .lookupName?
  declare _ _ _ _ _ _ := .changeScopes _
  redirectGlobal _ _ := .changeScopes _
  redirectNonlocal _ _ := .changeScopes _
  qualifiedName _ _ := .of_still fun _ _ => rfl
  report _ _ _ := .of_still fun _ _ => rfl
  read _ respects := .bind (.of_still fun _ _ => rfl) respects
  currentScope := .currentScope
  globals _ _ := .of_still fun _ _ => rfl
  inScope := .inScope
  clearVariables _ _ := .of_still fun _ _ => rfl
  insertEntry _ _ := .of_still fun _ _ => rfl
  createFunction {_ _} definition {owner} qualifiedName {_} _ onwards :=
    .bind (.onStore fun store => relation.createFunction store definition owner qualifiedName)
      fun id => onwards id trivial
  changeFunction {_ function _} _ same := .modifyStore fun store =>
    relation.changeFunction store function (same store)
  changeOverload mayRecord same := .modifyStore fun store =>
    relation.changeOverload store mayRecord same
  evaluation {_ id} entry {_} _ respects := by
    by_cases mayRecord : relation.MayRecord id
    · exact .whenPending (.evaluation mayRecord entry (respects mayRecord))
    · exact .whenPending_of_not_mayRecord mayRecord _
  setMember {_ _} name value overwrite _ := .modifyStore fun store =>
    relation.addMember store _ name value overwrite
  setAttribute {_ _} name value _ := .setAttribute _ name value
  createClass {_ _ _} definition {_ _} based onwards :=
    .bind (.createClass definition) fun id => .bind (.giveBases id (based ())) fun _ =>
      onwards () id trivial
  readDefinition {_ _} _ {_} onwards := .bind .store fun store =>
    onwards () store fun _ => ⟨trivial, trivial⟩
  readOwner {_ _ _ _} _ onwards := .bind .store fun store =>
    onwards () store fun _ _ => trivial

/-- What keeps the discipline of a relation respects the relation. -/
theorem Analysis.Keeps.respects {α : Type} {relation : StoreRelation} {analysis : Analysis α}
    (keeps : analysis.Keeps relation.discipline ()) : analysis.Respects relation.toStorePreorder :=
  keeps

namespace Engine

variable {relation : StoreRelation} {engine : Engine}

theorem copyMembers_respects (follows : engine.Follows relation.discipline)
    (bindings : Bindings) (target : ClassId) (members : List (String × Value)) :
    (engine.copyMembers bindings target members).Respects relation.toStorePreorder := by
  induction members with
  | nil => exact .pure ()
  | cons member rest inductionHypothesis =>
    exact .bind (substitute_keeps follows bindings member.2).respects fun replaced =>
      .bind (.modifyStore fun store => relation.addMember store target member.1 replaced true)
        fun _ => inductionHypothesis

theorem materialize_respects (follows : engine.Follows relation.discipline)
    (template placeholder : ClassId) (evidence : Evidence) :
    (engine.materialize template placeholder evidence).Respects relation.toStorePreorder :=
  .bind .store fun _ => .bind (substituteBases_keeps follows evidence.bindings _).respects
    fun _ => .bind (.modifyStore fun store => relation.setBases store placeholder _) fun _ =>
      .bind .store fun _ => copyMembers_respects follows _ _ _

theorem makeSpecialization_respects (follows : engine.Follows relation.discipline)
    (template : ClassId) (evidence : Evidence) (environment : Environment) (before : Progress)
    (present : before.store.HasClass template)
    (idle : unfinished? before.store template (before.store.signature evidence.bindings) = none) :
    (engine.makeSpecialization template evidence).RespectsFrom relation.toStorePreorder
      environment before := by
  have inside := materialize_respects follows template before.store.nextClass evidence environment
    { before with store := before.store.begin template evidence.bindings }
  unfold RespectsFrom at inside ⊢
  rw [makeSpecialization_apply]
  split at inside
  · next found =>
    rw [found]
    exact relation.specialization present idle inside
  · next found =>
    rw [found]
    exact fun failing => relation.abandonment failing present idle (inside failing)

theorem specializeClass_respects (follows : engine.Follows relation.discipline) (id : ClassId)
    (arguments : Arguments) :
    (engine.specializeClass id arguments).Respects relation.toStorePreorder := by
  refine .bind .store fun store => ?_
  split
  · exact (follows.specialize _ _).respects
  · refine .bind (ensureConstructed_keeps follows id).respects fun _ => .read fun environment
      before => ?_
    dsimp only
    split
    · exact Respects.pure _ environment before
    · next unresolved =>
      have present := hasClass_of_typeParameters (Bool.eq_false_iff.mpr unresolved)
      split
      · exact Respects.pure _ environment before
      · split
        · exact Respects.pure _ environment before
        · next idle =>
          exact makeSpecialization_respects follows id _ environment before present idle

/-- The engine of every depth keeps the discipline of a relation. -/
theorem atDepth_respects (relation : StoreRelation) (depth : Nat) :
    (Engine.atDepth depth).Follows relation.discipline :=
  atDepth_follows (fun _ follows _ id arguments =>
    specializeClass_respects follows id arguments) depth

end Engine

end TypeInference
