import TypeInference.Proofs.Balance
import TypeInference.Proofs.Phrases

/-!
# What analyses leave to one another

An analyzer hands the store from one module to the next, and nothing else. In the store, what
was there before stays as it was, whatever a module does and however its analysis ends: its
functions are not changed at all, and its classes in nothing but their specializations.
A definition declares functions and classes of its own and changes only these, since no
registered function has a definition and methods belong to declared classes.

The specializations, however, are shared. They are found by the names of classes, so that a
module may be given the specialization that an earlier module made for a class of the same
name.
-/

namespace TypeInference

/-- A class without its specializations. -/
def ClassRecord.unspecialized (record : ClassRecord) : ClassRecord :=
  { record with specializations := {}, unfinished := {} }

/-- A store that has what an origin has, apart from specializations. No method that a
definition declares belongs to a class of the origin. -/
structure Store.Retains (origin store : Store) : Prop where
  grown : origin.classes.size ≤ store.classes.size
  functionsGrown : origin.functions.size ≤ store.functions.size
  classes : ∀ id, origin.HasClass id →
    (store.classAt id).unspecialized = (origin.classAt id).unspecialized
  functions : ∀ id, origin.HasFunction id → store.functionAt id = origin.functionAt id
  owners : ∀ id, ¬origin.HasFunction id → ∀ owner,
    (store.functionAt id).declaringClass = some owner → ¬origin.HasClass owner

namespace Store.Retains

variable {origin store : Store}

theorem refl (store : Store) : store.Retains store where
  grown := Nat.le_refl _
  functionsGrown := Nat.le_refl _
  classes _ _ := rfl
  functions _ _ := rfl
  owners id outside owner declaring := by
    rw [functionAt_of_not_hasFunction store id outside] at declaring
    cases declaring

theorem hasClass (retains : origin.Retains store) {id : ClassId} (old : origin.HasClass id) :
    store.HasClass id :=
  Nat.lt_of_lt_of_le old retains.grown

theorem hasFunction (retains : origin.Retains store) {id : FunctionId}
    (old : origin.HasFunction id) : store.HasFunction id :=
  Nat.lt_of_lt_of_le old retains.functionsGrown

/-- The next class is none of the origin. -/
theorem nextClass_new (retains : origin.Retains store) : ¬origin.HasClass store.nextClass :=
  fun old => store.not_hasClass_nextClass (retains.hasClass old)

theorem addClass (retains : origin.Retains store) (record : ClassRecord) :
    origin.Retains (store.addClass record).2 where
  grown := by simpa [Store.addClass] using Nat.le_succ_of_le retains.grown
  functionsGrown := retains.functionsGrown
  classes id old := by
    rw [store.classAt_addClass_of_hasClass record id (retains.hasClass old),
      retains.classes id old]
  functions := retains.functions
  owners := retains.owners

/-- A class that is new to the origin is changed, or one of the origin in its
specializations. -/
theorem modifyClass (retains : origin.Retains store) (id : ClassId)
    {change : ClassRecord → ClassRecord}
    (kept : origin.HasClass id →
      ∀ record : ClassRecord, (change record).unspecialized = record.unspecialized) :
    origin.Retains (store.modifyClass id change) where
  grown := by simpa using retains.grown
  functionsGrown := retains.functionsGrown
  classes asked old := by
    rw [classAt_modifyClass_eq, ← retains.classes asked old]
    split
    · next reached => exact kept (reached.1 ▸ old) _
    · rfl
  functions := retains.functions
  owners := retains.owners

theorem addMember (retains : origin.Retains store) {owner : ClassId}
    (new : ¬origin.HasClass owner) (name : String) (value : Value) (overwrite : Bool) :
    origin.Retains (store.addMember owner name value overwrite).2 := by
  rw [addMember_eq]
  exact retains.modifyClass owner fun old => absurd old new

theorem begin (retains : origin.Retains store) (template : ClassId) (bindings : Bindings) :
    origin.Retains (store.begin template bindings) :=
  (retains.addClass _).modifyClass template fun _ _ => rfl

theorem endSpecialization (retains : origin.Retains store) (template : ClassId) :
    origin.Retains (Engine.endSpecialization store template) :=
  retains.modifyClass template fun _ _ => rfl

theorem finish (retains : origin.Retains store) (template : ClassId)
    (signature : ResolvedSignature) (placeholder : ClassId) :
    origin.Retains (store.finish template signature placeholder) :=
  (retains.endSpecialization template).modifyClass template fun _ _ => rfl

/-- A function is created for a class that is new to the origin, or for none. -/
theorem addFunction (retains : origin.Retains store) (record : FunctionRecord)
    (new : ∀ owner, record.declaringClass = some owner → ¬origin.HasClass owner) :
    origin.Retains (store.addFunction record).2 where
  grown := retains.grown
  functionsGrown := by
    simpa [Store.addFunction] using Nat.le_succ_of_le retains.functionsGrown
  classes := retains.classes
  functions id old := by
    have apart : id ≠ store.nextFunction := by
      rintro rfl
      exact Nat.lt_irrefl _ (retains.hasFunction old)
    rw [functionAt_addFunction_eq, if_neg apart, retains.functions id old]
  owners id outside owner declaring := by
    rw [functionAt_addFunction_eq] at declaring
    split at declaring
    · exact new owner declaring
    · exact retains.owners id outside owner declaring

theorem modifyFunction (retains : origin.Retains store) {id : FunctionId}
    (new : ¬origin.HasFunction id) {change : FunctionRecord → FunctionRecord}
    (same : ∀ record : FunctionRecord,
      (change record).declaringClass = record.declaringClass) :
    origin.Retains (store.modifyFunction id change) where
  grown := retains.grown
  functionsGrown := by simpa [Store.modifyFunction] using retains.functionsGrown
  classes := retains.classes
  functions asked old := by
    have apart : asked ≠ id := fun equal => new (equal ▸ old)
    rw [functionAt_modifyFunction_eq, if_neg fun reached => apart reached.1,
      retains.functions asked old]
  owners asked outside owner declaring := by
    rw [functionAt_modifyFunction_eq] at declaring
    split at declaring
    · rw [same] at declaring
      exact retains.owners asked outside owner declaring
    · exact retains.owners asked outside owner declaring

end Store.Retains

open Analysis Store

/-- To leave a store that has what an origin has, if that is where an analysis begins. -/
def StorePreorder.retaining (origin : Store) : StorePreorder where
  Relates before after := origin.Retains before → origin.Retains after
  Failing := True
  refl _ := id
  trans earlier later retains := later (earlier retains)

namespace Analysis.Respects

variable {α : Type} {origin : Store}

theorem changeOverload_retaining {id : OverloadId} (new : ¬origin.HasFunction id.function)
    (change : Overload → Overload) :
    (Engine.changeOverload id change).Respects (.retaining origin) :=
  .modifyStore fun _ retains => retains.modifyFunction new fun _ => rfl

theorem setAttribute_retaining {owner : ClassId} (new : ¬origin.HasClass owner) (name : String)
    (value : Value) : (Analysis.setAttribute owner name value).Respects (.retaining origin) := by
  refine .modifyStore fun store retains => ?_
  split
  · split
    · exact retains.addMember new name value true
    · exact retains
  · exact retains.addMember new name value true

theorem createClass_retaining {engine : Engine} (definition : ClassDefinition)
    {bases : List Expression} {next : ClassId → Analysis α}
    (based : (engine.evaluateBases bases).Respects (.retaining origin))
    (onwards : ∀ id, ¬origin.HasClass id → (next id).Respects (.retaining origin)) :
    (do
      let id ← Engine.createClass definition
      engine.giveBases id bases
      next id).Respects (.retaining origin) := by
  refine of_onwards fun environment before retains => ?_
  -- Whatever the class is given, it is not one of the origin.
  have new := retains.nextClass_new
  have given : (engine.giveBases before.store.nextClass bases).Respects (.retaining origin) :=
    .bind based fun _ => .modifyStore fun _ retains =>
      (retains.modifyClass _ fun old => absurd old new).modifyClass _ fun old => absurd old new
  obtain ⟨qualifiedName, created⟩ := Engine.createClass_apply definition environment before
  rw [after_congr (bind_of_ok created _)]
  exact (given.bind fun _ => onwards before.store.nextClass new).onwards trivial environment _
    (retains.addClass _)

end Analysis.Respects

/-- To retain what was there before, where no function of that has a definition. -/
def Discipline.retaining (origin : Store)
    (undefined : ∀ id, (origin.functionAt id).node = none) : Discipline where
  World := Unit
  Holds _ _ analysis := analysis.Respects (.retaining origin)
  MayOwn _ id := ¬origin.HasClass id
  IsDefined _ id := ¬origin.HasFunction id
  MayChange id := ¬origin.HasFunction id
  MayRecord id := ¬origin.HasFunction id.function
  pure _ _ := .pure
  throw _ _ := .throw
  bind := .bind
  store _ := .store
  options _ := .of_still fun _ _ => rfl
  lookupName? _ := .lookupName?
  declare _ _ _ _ _ _ := .changeScopes _
  redirectGlobal _ _ := .changeScopes _
  redirectNonlocal _ _ := .changeScopes _
  qualifiedName _ _ := .of_still fun _ _ => rfl
  report _ _ _ := .of_still fun _ _ => rfl
  read _ respects := .bind (.of_still fun _ _ => rfl) respects
  currentScope := .currentScope
  globals _ _ := .of_still fun _ _ => rfl
  inScope := .inScope
  clearVariables _ _ := .of_still fun _ _ => rfl
  insertEntry _ _ := .of_still fun _ _ => rfl
  createFunction {_ _} definition {owner} qualifiedName {_} mayOwn onwards :=
    .of_onwards fun environment before retains => by
      have created := retains.addFunction
        (Engine.declaredRecord definition owner qualifiedName) fun id declaring => mayOwn id (by
          rwa [Engine.declaringClass_declaredRecord] at declaring)
      have new : ¬origin.HasFunction before.store.nextFunction := fun old =>
        Nat.lt_irrefl _ (retains.hasFunction old)
      exact (onwards _ new).onwards trivial environment _ created
  changeFunction {_ _ _} new same := .modifyStore fun store retains =>
    retains.modifyFunction new fun record => (same store record).1.declaringClass
  changeOverload {_ _ _} new _ := .changeOverload_retaining new _
  evaluation {_ _} _ {_} new respects := .whenPending <|
    .bind (.changeOverload_retaining new _) fun _ => .inScope fun scope =>
      .bind (respects new scope) fun _ => .changeOverload_retaining new _
  setMember {_ _} name value overwrite new := .modifyStore fun _ retains =>
    retains.addMember new name value overwrite
  setAttribute {_ _} name value new := .setAttribute_retaining new name value
  createClass {_ _ _} definition {_ _} based onwards :=
    .createClass_retaining definition (based ()) (onwards ())
  readDefinition {_ _} function {_} onwards := .of_onwards fun environment before retains =>
    (onwards () before.store fun known => by
      have new : ¬origin.HasFunction function := fun old => known (by
        rw [retains.functions function old, undefined])
      exact ⟨new, new⟩).onwards trivial environment before retains
  readOwner {_ _ function _} new onwards := .of_onwards fun environment before retains =>
    (onwards () before.store (retains.owners function new)).onwards trivial environment before
      retains

/-- What keeps the discipline of retaining an origin does so. -/
theorem Analysis.Keeps.retaining {α : Type} {origin : Store}
    {undefined : ∀ id, (origin.functionAt id).node = none} {analysis : Analysis α}
    (keeps : analysis.Keeps (.retaining origin undefined) ()) :
    analysis.Respects (.retaining origin) :=
  keeps

namespace Engine

variable {origin : Store} {undefined : ∀ id, (origin.functionAt id).node = none}
  {engine : Engine}

theorem copyMembers_retaining (follows : engine.Follows (.retaining origin undefined))
    (bindings : Bindings) {target : ClassId} (new : ¬origin.HasClass target)
    (members : List (String × Value)) :
    (engine.copyMembers bindings target members).Respects (.retaining origin) := by
  induction members with
  | nil => exact .pure ()
  | cons member rest inductionHypothesis =>
    exact .bind (substitute_keeps follows bindings member.2).retaining fun value =>
      .bind (.modifyStore fun _ retains => retains.addMember new member.1 value true)
        fun _ => inductionHypothesis

theorem materialize_retaining (follows : engine.Follows (.retaining origin undefined))
    (template : ClassId) {placeholder : ClassId} (new : ¬origin.HasClass placeholder)
    (evidence : Evidence) :
    (engine.materialize template placeholder evidence).Respects (.retaining origin) :=
  .bind .store fun _ => .bind (substituteBases_keeps follows evidence.bindings _).retaining
    fun _ => .bind (.modifyStore fun _ retains =>
      retains.modifyClass placeholder fun old => absurd old new) fun _ => .bind .store fun _ =>
        copyMembers_retaining follows _ new _

theorem makeSpecialization_retaining (follows : engine.Follows (.retaining origin undefined))
    (template : ClassId) (evidence : Evidence) :
    (engine.makeSpecialization template evidence).Respects (.retaining origin) := by
  refine .of_onwards fun environment before retains => ?_
  have made := (materialize_retaining follows template retains.nextClass_new evidence).onwards
    trivial environment
    { before with store := before.store.begin template evidence.bindings }
    (retains.begin template evidence.bindings)
  rcases engine.after_makeSpecialization_cases template evidence environment before with
    finished | abandoned
  · exact finished ▸ made.finish template _ _
  · exact abandoned ▸ made.endSpecialization template

theorem specializeClass_retaining (follows : engine.Follows (.retaining origin undefined))
    (id : ClassId) (arguments : Arguments) :
    (engine.specializeClass id arguments).Respects (.retaining origin) := by
  refine .bind .store fun store => ?_
  split
  · exact (follows.specialize _ _).retaining
  · refine .bind (ensureConstructed_keeps follows id).retaining fun _ =>
      .bind .store fun store => ?_
    dsimp only
    split
    · exact .pure _
    · split
      · exact .pure _
      · split
        · exact .pure _
        · exact makeSpecialization_retaining follows id _

/-- The engine of every depth retains what was there before. -/
theorem atDepth_retaining (undefined : ∀ id, (origin.functionAt id).node = none) (depth : Nat) :
    (Engine.atDepth depth).Follows (.retaining origin undefined) :=
  atDepth_follows (fun _ follows _ id arguments =>
    specializeClass_retaining follows id arguments) depth

end Engine

namespace Analyzer

/-- The analyzer after it has analyzed some modules one after the other, whatever their
analyses gave. -/
def afterAll (analyzer : Analyzer) (modules : List Module) : Analyzer :=
  modules.foldl (fun analyzer module => (analyzer.analyze module).2) analyzer

/-- The store that the analysis of a module leaves. -/
theorem store_analyze (analyzer : Analyzer) (module : Module) :
    (analyzer.analyze module).2.store = ((Analysis.ofModule module).after
      ⟨analyzer.registry, analyzer.options⟩ { store := analyzer.store }).store := by
  unfold analyze run after
  cases Analysis.ofModule module ⟨analyzer.registry, analyzer.options⟩
    { store := analyzer.store } <;> rfl

/-- The registered names and the options stay. -/
theorem environment_afterAll (analyzer : Analyzer) (modules : List Module) :
    (analyzer.afterAll modules).registry = analyzer.registry ∧
      (analyzer.afterAll modules).options = analyzer.options := by
  induction modules generalizing analyzer with
  | nil => exact ⟨rfl, rfl⟩
  | cons module rest inductionHypothesis =>
    have once : (analyzer.analyze module).2.registry = analyzer.registry ∧
        (analyzer.analyze module).2.options = analyzer.options := by
      unfold analyze
      split <;> exact ⟨rfl, rfl⟩
    rw [← once.1, ← once.2]
    exact inductionHypothesis _

/-- Analyses retain what the analyzer was made with, and leave nothing unfinished. The
induction is on the modules. -/
theorem retains_afterAll {origin : Store} (undefined : ∀ id, (origin.functionAt id).node = none)
    (modules : List Module) {analyzer : Analyzer} (retains : origin.Retains analyzer.store)
    (finished : origin.SameUnfinished analyzer.store) :
    origin.Retains (analyzer.afterAll modules).store ∧
      origin.SameUnfinished (analyzer.afterAll modules).store := by
  induction modules generalizing analyzer with
  | nil => exact ⟨retains, finished⟩
  | cons module rest inductionHypothesis =>
    -- Each analysis begins with what the ones before have left, nothing unfinished included.
    have retaining := (ofModuleWithin_keeps Engine.depthLimit
      (Engine.atDepth_retaining undefined Engine.depthLimit) module).retaining
    have balanced := (ofModuleWithin_keeps Engine.depthLimit
      (Engine.atDepth_respects .balance Engine.depthLimit) module).respects
    have retainsNext : origin.Retains (analyzer.analyze module).2.store := by
      rw [store_analyze]
      exact retaining.onwards trivial _ _ retains
    have finishedNext : origin.SameUnfinished (analyzer.analyze module).2.store := by
      rw [store_analyze]
      exact finished.trans (balanced.onwards trivial _ _)
    exact inductionHypothesis retainsNext finishedNext

/-- A module with a class and a list of its objects. -/
def listing (value : Constant) (others : List Statement) : Module :=
  ⟨[.defineClass 1 "A" [] [.define "x" (.constant value .unknown)],
    .annotated (.ofName "v") (.indexed "List" "A") none .unknown] ++ others⟩

/-- A module that reads an attribute of the first object in its list. -/
def readingModule : Module :=
  listing (.str "s")
    [.define "w" (.attribute (.index (.ofName "v") (.constant (.int 0) .unknown) .unknown)
      (.ofName "x") .unknown)]

/-- The type of what that module has read, as it is shown. -/
def readType (analyzer : Analyzer) : Option String :=
  match analyzer.analyze readingModule with
  | (.ok analysis, after) => (analysis.value? "w").map after.store.valueText
  | (.error _, _) => none

end Analyzer

end TypeInference
