import TypeInference.Proofs.Ledger
import TypeInference.Proofs.Yielding

/-!
# What return statements record

While the body of a function is walked, its return statements record what they return. In between,
other functions are evaluated, classes with bodies of their own are declared, and the function may
be asked for again. None of that reaches the overload: once it has begun to be evaluated, it is
changed by its own evaluation only. So it ends up with one value for each return statement of the
body, in the order in which they stand there. -/

namespace TypeInference

open Analysis

namespace Store

/-- An overload that has begun to be evaluated is left alone. -/
def Guards (id : OverloadId) (before after : Store) : Prop :=
  (before.overloadAt id).state ≠ .pending → after.overloadAt id = before.overloadAt id

variable {id : OverloadId}

theorem Guards.of_functions {before after : Store} (same : after.functions = before.functions) :
    before.Guards id after := by
  intro _
  unfold overloadAt functionAt
  rw [same]

theorem Guards.trans {before middle after : Store} (earlier : before.Guards id middle)
    (later : middle.Guards id after) : before.Guards id after := by
  intro begun
  have same := earlier begun
  rw [later (same ▸ begun), same]

/-- An overload that has begun is one of the store. -/
theorem hasOverload_of_begun {store : Store} (begun : (store.overloadAt id).state ≠ .pending) :
    store.HasOverload id := by
  refine Decidable.byContradiction fun outside => begun ?_
  rw [overloadAt_of_not_hasOverload store id outside]
  rfl

/-- An overload that has begun is changed in its place. -/
theorem overloadAt_modifyOverload_of_begun {store : Store}
    (begun : (store.overloadAt id).state ≠ .pending) (change : Overload → Overload) :
    (store.modifyOverload id change).overloadAt id = change (store.overloadAt id) := by
  rw [overloadAt_modifyOverload, if_pos ⟨rfl, hasOverload_of_begun begun⟩]

theorem Guards.modifyOverload (store : Store) {other : OverloadId} (apart : other ≠ id)
    (change : Overload → Overload) : store.Guards id (store.modifyOverload other change) := by
  intro _
  rw [overloadAt_modifyOverload, if_neg fun reached => apart reached.1.symm]

theorem Guards.addFunction (store : Store) (record : FunctionRecord) :
    store.Guards id (store.addFunction record).2 := by
  intro begun
  have old : id.function ≠ store.nextFunction := fun new =>
    Nat.lt_irrefl _ (new ▸ (hasOverload_of_begun begun).hasFunction)
  unfold overloadAt
  rw [functionAt_addFunction_eq, if_neg old]

theorem Guards.modifyFunction (store : Store) (changed : FunctionId)
    {change : FunctionRecord → FunctionRecord}
    (same : ∀ record : FunctionRecord, (change record).overloads = record.overloads) :
    store.Guards id (store.modifyFunction changed change) := by
  intro _
  unfold overloadAt
  rw [functionAt_modifyFunction_eq]
  split
  · rw [same]
  · rfl

end Store

/-- To leave an overload alone that has begun to be evaluated, also where something fails. -/
def StoreRelation.guarding (id : OverloadId) : StoreRelation where
  Relates := Store.Guards id
  Failing := True
  MayRecord other := other ≠ id
  waiting own pending begun := by
    rw [Decidable.of_not_not own] at pending
    exact absurd pending begun
  refl _ := .of_functions rfl
  trans := .trans
  createFunction store _ _ _ := .addFunction store _
  changeFunction store changed {_} same := .modifyFunction store changed fun record =>
    (same record).2
  changeOverload store {_ _} apart _ := .modifyOverload store apart _
  evaluation {_ store made} apart inside :=
    have begun := (Store.Guards.modifyOverload store apart _).trans inside
    begun.trans (.modifyOverload made apart _)
  interruption {_ store _} apart _ inside :=
    (Store.Guards.modifyOverload store apart _).trans inside
  addMember _ _ _ _ _ := .of_functions (by rw [Store.addMember_eq]; rfl)
  createClass _ _ _ _ := .of_functions rfl
  setBases _ _ _ := .of_functions rfl
  parametrize _ _ _ := .of_functions rfl
  specialization {store _ template bindings} _ _ inside :=
    have begun : store.Guards _ (store.begin template bindings) := .of_functions rfl
    begun.trans (inside.trans (.of_functions rfl))
  abandonment {store _ template bindings} _ _ _ inside :=
    have begun : store.Guards _ (store.begin template bindings) := .of_functions rfl
    begun.trans (inside.trans (.of_functions rfl))

namespace Statement

mutual

/-- The return statements in a statement, in order, each given by its expression if it has one.
Those in nested definitions are not in the statement. -/
def returnSites : Statement → List (Option Expression)
  | .ret value _ => [value]
  | .branch _ body otherwise _ | .iteration _ _ body otherwise _ | .loop _ body otherwise _ =>
    blockReturnSites body ++ blockReturnSites otherwise
  | .expression _ _ | .assign _ _ _ | .annotated _ _ _ _ | .function _ | .classDefinition _
  | .global _ _ | .nonlocal _ _ | .pass _ => []

/-- The return statements in several statements. -/
def blockReturnSites : List Statement → List (Option Expression)
  | [] => []
  | statement :: rest => returnSites statement ++ blockReturnSites rest

end

end Statement

/-- A return statement, given by its expression if it has one, with what it returned. -/
abbrev Returned := Option Expression × Value

/-- An overload with which more returned values are recorded. -/
def Overload.returning (overload : Overload) (values : List Value) : Overload :=
  { overload with inferredReturns := overload.inferredReturns ++ values }

@[simp] theorem Overload.returning_nil (overload : Overload) :
    overload.returning [] = overload := by
  simp [returning]

@[simp] theorem Overload.returning_append (overload : Overload) (first second : List Value) :
    overload.returning (first ++ second) = (overload.returning first).returning second := by
  simp [returning]

/-- An overload that returns none if nothing else is returned and nothing is declared. -/
def Overload.completed (overload : Overload) : Overload :=
  if overload.declaredReturn = none ∧ overload.inferredReturns = [] then
    overload.returning [Store.noneObject]
  else overload

@[simp] theorem Overload.state_completed (overload : Overload) :
    overload.completed.state = overload.state := by
  unfold completed
  split <;> rfl

@[simp] theorem Overload.declaredReturn_completed (overload : Overload) :
    overload.completed.declaredReturn = overload.declaredReturn := by
  unfold completed
  split <;> rfl

theorem Overload.inferredReturns_completed (overload : Overload) :
    overload.completed.inferredReturns = overload.inferredReturns ++
      if overload.inferredReturns = [] ∧ overload.declaredReturn = none then [Store.noneObject]
      else [] := by
  unfold completed
  by_cases empty : overload.declaredReturn = none ∧ overload.inferredReturns = []
  · rw [if_pos empty, if_pos empty.symm]
    rfl
  · rw [if_neg empty, if_neg fun both => empty both.symm, List.append_nil]

/-- A frame that collects no returned values. -/
def Frame.silenced (frame : Frame) : Frame :=
  { frame with overload := none }

namespace Engine

variable {engine : Engine}

mutual

/-- Walks a statement, and tells what its return statements returned. -/
def statementReturns (engine : Engine) (frame : Frame) : Statement → Analysis (List Returned)
  | .ret value span => do
    let returned := (← engine.checkedOptional value).getD Store.noneObject
    returnValue frame returned span
    return [(value, returned)]
  | .branch test body otherwise _ => do
    let _ ← engine.checkedValue test
    let first ← engine.blockReturns frame body
    let second ← engine.blockReturns frame otherwise
    return first ++ second
  | .iteration target iterable body otherwise span => do
    let value ← engine.checkedValue iterable
    Analysis.bindIterationTarget target value span
    let first ← engine.blockReturns frame body
    let second ← engine.blockReturns frame otherwise
    return first ++ second
  | .loop test body otherwise _ => do
    let _ ← engine.checkedValue test
    let first ← engine.blockReturns frame body
    let second ← engine.blockReturns frame otherwise
    return first ++ second
  | statement => do
    engine.walkStatement frame statement
    return []

/-- Walks statements, and tells what their return statements returned, in order. -/
def blockReturns (engine : Engine) (frame : Frame) : List Statement → Analysis (List Returned)
  | [] => return []
  | statement :: rest => do
    let first ← engine.statementReturns frame statement
    let others ← engine.blockReturns frame rest
    return first ++ others

end

mutual

/-- To tell what is returned makes no difference to the walk. -/
theorem walkStatement_eq (engine : Engine) (frame : Frame) : ∀ statement,
    engine.walkStatement frame statement = (do
      let _ ← engine.statementReturns frame statement
      return)
  | .ret value span => by
    simp only [walkStatement, statementReturns, bind_assoc, pure_bind, bind_pure_unit]
  | .branch test body otherwise _ => by
    simp only [walkStatement, statementReturns, bind_assoc, pure_bind,
      walkBlock_eq engine frame body, walkBlock_eq engine frame otherwise]
  | .iteration target iterable body otherwise span => by
    simp only [walkStatement, statementReturns, bind_assoc, pure_bind,
      walkBlock_eq engine frame body, walkBlock_eq engine frame otherwise]
  | .loop test body otherwise _ => by
    simp only [walkStatement, statementReturns, bind_assoc, pure_bind,
      walkBlock_eq engine frame body, walkBlock_eq engine frame otherwise]
  | .expression _ _ | .assign _ _ _ | .annotated _ _ _ _ | .function _ | .classDefinition _
  | .global _ _ | .nonlocal _ _ | .pass _ => by
    simp only [statementReturns, bind_assoc, pure_bind, bind_pure_unit]

theorem walkBlock_eq (engine : Engine) (frame : Frame) : ∀ block,
    engine.walkBlock frame block = (do
      let _ ← engine.blockReturns frame block
      return)
  | [] => by simp only [walkBlock, blockReturns, pure_bind]
  | statement :: rest => by
    simp only [walkBlock, blockReturns, bind_assoc, pure_bind,
      walkStatement_eq engine frame statement, walkBlock_eq engine frame rest]

end

variable {id : OverloadId}

/-- What a return statement returns: nothing is none, and an expression has the value that it has
where the walk comes to it. -/
def Returns (engine : Engine) (environment : Environment) : Returned → Prop
  | (none, value) => value = Store.noneObject
  | (some expression, value) =>
    ∃ current next, engine.checkedValue expression environment current = .ok value next

/-- Return statements have returned something, and an overload has recorded it in this order. -/
structure Records (engine : Engine) (environment : Environment) (id : OverloadId)
    (sites : List (Option Expression)) (returned : List Returned) (before after : Store) :
    Prop where
  sites : returned.map Prod.fst = sites
  values : ∀ each ∈ returned, engine.Returns environment each
  recorded : after.overloadAt id = (before.overloadAt id).returning (returned.map Prod.snd)

/-- An analysis that tells what return statements returned, and in which an overload that has begun
records exactly that. -/
def Collects (engine : Engine) (id : OverloadId) (sites : List (Option Expression))
    (analysis : Analysis (List Returned)) : Prop :=
  ∀ environment before returned after, (before.store.overloadAt id).state ≠ .pending →
    analysis environment before = .ok returned after →
      engine.Records environment id sites returned before.store after.store

namespace Collects

theorem nothing : engine.Collects id [] (pure []) := by
  intro environment before returned after _ given
  cases given
  exact ⟨rfl, nofun, (Overload.returning_nil _).symm⟩

/-- What leaves an overload alone may be done before. -/
theorem later {α : Type} {first : Analysis α} {next : α → Analysis (List Returned)}
    {sites : List (Option Expression)}
    (guards : first.Respects (StoreRelation.guarding id).toStorePreorder)
    (collects : ∀ result, engine.Collects id sites (next result)) :
    engine.Collects id sites (first >>= next) := by
  intro environment before returned after begun given
  obtain ⟨result, middle, earlier, given⟩ := bind_eq_ok.mp given
  have same : middle.store.overloadAt id = before.store.overloadAt id :=
    guards.of_ok earlier begun
  obtain ⟨each, values, recorded⟩ :=
    collects result environment middle returned after (same ▸ begun) given
  exact ⟨each, values, same ▸ recorded⟩

/-- What is returned one after the other is recorded in this order. -/
theorem append {first second : Analysis (List Returned)} {sites others : List (Option Expression)}
    (collects : engine.Collects id sites first) (onwards : engine.Collects id others second) :
    engine.Collects id (sites ++ others) (do
      let earlier ← first
      let later ← second
      return earlier ++ later) := by
  intro environment before returned after begun given
  obtain ⟨earlier, middle, one, given⟩ := bind_eq_ok.mp given
  obtain ⟨later, last, other, given⟩ := bind_eq_ok.mp given
  cases given
  obtain ⟨rfl, values, recorded⟩ := collects environment before earlier middle begun one
  have still : (middle.store.overloadAt id).state ≠ .pending := by
    rw [recorded]
    exact begun
  obtain ⟨rfl, others, again⟩ := onwards environment middle later after still other
  refine ⟨List.map_append, fun each listed => ?_, ?_⟩
  · exact (List.mem_append.mp listed).elim (values each) (others each)
  · rw [again, recorded, List.map_append, Overload.returning_append]

end Collects

/-- A value that is returned is recorded, also where that is reported. -/
theorem returnValue_records {frame : Frame} (collecting : frame.overload = some id) {value : Value}
    {span : Span} {environment : Environment} {before after : Progress}
    (begun : (before.store.overloadAt id).state ≠ .pending)
    (returned : returnValue frame value span environment before = .ok () after) :
    after.store.overloadAt id = (before.store.overloadAt id).returning [value] := by
  have stored : after.store = before.store.modifyOverload id (·.returning [value]) := by
    unfold returnValue at returned
    simp only [collecting, bind_apply, store_apply] at returned
    split at returned
    · cases returned
      rfl
    · cases returned
      rfl
  rw [stored, Store.overloadAt_modifyOverload_of_begun begun]

theorem assignTargets_silenced (frame : Frame) (span : Span) (value : Value)
    (targets : List Expression) :
    assignTargets frame.silenced span value targets = assignTargets frame span value targets := by
  induction targets with
  | nil => rfl
  | cons target rest inductionHypothesis =>
    rw [assignTargets, assignTargets, inductionHypothesis]
    rfl

/-- A statement that returns nothing itself leaves an overload alone that has begun, whatever is
evaluated or declared by it. -/
theorem walkStatement_guards (follows : engine.Follows (StoreRelation.guarding id).discipline)
    {frame : Frame} {statement : Statement}
    (same : engine.walkStatement frame.silenced statement = engine.walkStatement frame statement) :
    (engine.walkStatement frame statement).Respects
      (StoreRelation.guarding id).toStorePreorder := by
  have owns : frame.silenced.Owns (StoreRelation.guarding id).discipline () :=
    ⟨fun _ _ => trivial, fun _ impossible => nomatch impossible⟩
  exact same ▸ (walkStatement_keeps follows owns statement).respects

mutual

/-- A statement records what its own return statements return. -/
theorem statementReturns_collects
    (follows : engine.Follows (StoreRelation.guarding id).discipline) {frame : Frame}
    (collecting : frame.overload = some id) :
    ∀ statement, engine.Collects id (Statement.returnSites statement)
      (engine.statementReturns frame statement)
  | .ret value span => by
    intro environment before returned after begun given
    rw [statementReturns] at given
    obtain ⟨found, middle, evaluated, given⟩ := bind_eq_ok.mp given
    obtain ⟨_, last, records, given⟩ := bind_eq_ok.mp given
    cases given
    have same : middle.store.overloadAt id = before.store.overloadAt id :=
      (checkedOptional_keeps follows value).respects.of_ok evaluated begun
    have recorded := returnValue_records collecting (same ▸ begun) records
    refine ⟨by rw [Statement.returnSites]; rfl, List.forall_mem_singleton.mpr ?_, same ▸ recorded⟩
    cases value with
    | none =>
      cases evaluated
      rfl
    | some expression =>
      obtain ⟨value, _, valued, given⟩ := bind_eq_ok.mp evaluated
      cases given
      exact ⟨before, middle, valued⟩
  | .branch test body otherwise _ => by
    rw [statementReturns, Statement.returnSites]
    exact .later (checkedValue_keeps follows test).respects fun _ =>
      .append (blockReturns_collects follows collecting body)
        (blockReturns_collects follows collecting otherwise)
  | .iteration target iterable body otherwise span => by
    rw [statementReturns, Statement.returnSites]
    exact .later (checkedValue_keeps follows iterable).respects fun value =>
      .later (bindIterationTarget_keeps target value span).respects fun _ =>
        .append (blockReturns_collects follows collecting body)
          (blockReturns_collects follows collecting otherwise)
  | .loop test body otherwise _ => by
    rw [statementReturns, Statement.returnSites]
    exact .later (checkedValue_keeps follows test).respects fun _ =>
      .append (blockReturns_collects follows collecting body)
        (blockReturns_collects follows collecting otherwise)
  | .assign targets value span => by
    have same : engine.walkStatement frame.silenced (.assign targets value span) =
        engine.walkStatement frame (.assign targets value span) := by
      simp only [walkStatement, assignTargets_silenced]
    simp only [statementReturns, Statement.returnSites]
    exact .later (walkStatement_guards follows same) fun _ => .nothing
  | .annotated target hint value span => by
    have same : engine.walkStatement frame.silenced (.annotated target hint value span) =
        engine.walkStatement frame (.annotated target hint value span) := by
      simp only [walkStatement]
      rfl
    simp only [statementReturns, Statement.returnSites]
    exact .later (walkStatement_guards follows same) fun _ => .nothing
  -- No other statement looks at the frame.
  | .expression _ _ | .function _ | .classDefinition _ | .global _ _ | .nonlocal _ _ | .pass _ => by
    simp only [statementReturns, Statement.returnSites]
    refine .later (walkStatement_guards follows ?_) fun _ => .nothing
    simp only [walkStatement]

/-- Statements record what their return statements return, one after the other. -/
theorem blockReturns_collects
    (follows : engine.Follows (StoreRelation.guarding id).discipline) {frame : Frame}
    (collecting : frame.overload = some id) :
    ∀ block, engine.Collects id (Statement.blockReturnSites block)
      (engine.blockReturns frame block)
  | [] => by
    rw [blockReturns, Statement.blockReturnSites]
    exact .nothing
  | statement :: rest => by
    rw [blockReturns, Statement.blockReturnSites]
    exact .append (statementReturns_collects follows collecting statement)
      (blockReturns_collects follows collecting rest)

end

/-- The body of an overload is walked: that of a constructor, where no return is declared, and in
modules of the user. -/
def WalksBody (environment : Environment) (id : OverloadId) (definition : FunctionDefinition)
    (progress : Progress) : Prop :=
  isConstructor (progress.store.functionAt id.function) definition = true ∨
    (progress.store.overloadAt id).declaredReturn = none ∨ environment.options.isUser = true

/-- Where a body was walked and nothing is returned or declared to be returned, none is. -/
theorem completion_records {environment : Environment} {before after : Progress}
    (begun : (before.store.overloadAt id).state ≠ .pending)
    (completed : (do
      let overload := (← Analysis.store).overloadAt id
      if overload.declaredReturn.isNone && overload.inferredReturns.isEmpty then
        Analysis.addReturn id Store.noneObject : Analysis Unit) environment before = .ok () after) :
    after.store.overloadAt id = (before.store.overloadAt id).completed := by
  rw [bind_apply, store_apply] at completed
  unfold Overload.completed
  by_cases empty : (before.store.overloadAt id).declaredReturn = none ∧
      (before.store.overloadAt id).inferredReturns = []
  · have stored :
        after.store = before.store.modifyOverload id (·.returning [Store.noneObject]) := by
      simp only [empty, Option.isNone_none, List.isEmpty_nil, Bool.and_self, if_true] at completed
      cases completed
      rfl
    rw [if_pos empty, stored, Store.overloadAt_modifyOverload_of_begun begun]
  · have some : ((before.store.overloadAt id).declaredReturn.isNone &&
        (before.store.overloadAt id).inferredReturns.isEmpty) ≠ true := by
      simpa using empty
    simp only [some] at completed
    cases completed
    rw [if_neg empty]

/-- What an overload has recorded after its body: what the return statements returned, if the body
is walked, and none if nothing is returned. -/
theorem walkBody_records (follows : engine.Follows (StoreRelation.guarding id).discipline)
    {definition : FunctionDefinition} {environment : Environment} {before after : Progress}
    (begun : (before.store.overloadAt id).state ≠ .pending)
    (walked : engine.walkBody id definition environment before = .ok () after) :
    (WalksBody environment id definition before → ∃ returned last,
      engine.blockReturns (.ofOverload before.store id definition) definition.body environment
          before = .ok returned last ∧
        returned.map Prod.fst = Statement.blockReturnSites definition.body ∧
        (∀ each ∈ returned, engine.Returns environment each) ∧
        after.store.overloadAt id =
          ((before.store.overloadAt id).returning (returned.map Prod.snd)).completed) ∧
    (¬WalksBody environment id definition before →
      after.store.overloadAt id = before.store.overloadAt id) := by
  have chosen : (isConstructor (before.store.functionAt id.function) definition ||
      !(before.store.overloadAt id).declaredReturn.isSome || environment.options.isUser) = true ↔
        WalksBody environment id definition before := by
    simp [WalksBody, or_assoc]
  obtain ⟨_, _, read, walked⟩ := bind_eq_ok.mp walked
  cases read
  obtain ⟨_, _, read, walked⟩ := bind_eq_ok.mp walked
  cases read
  dsimp only at walked
  constructor
  · intro walks
    rw [if_pos (chosen.mpr walks), walkBlock_eq, bind_assoc] at walked
    obtain ⟨returned, last, collected, completed⟩ := bind_eq_ok.mp walked
    rw [pure_bind] at completed
    obtain ⟨sites, values, recorded⟩ := blockReturns_collects follows rfl definition.body
      environment before returned last begun collected
    refine ⟨returned, last, collected, sites, values, ?_⟩
    rw [completion_records (by rw [recorded]; exact begun) completed, recorded]
  · intro stays
    rw [if_neg fun walks => stays (chosen.mp walks)] at walked
    have declared : (before.store.overloadAt id).declaredReturn ≠ none := fun none =>
      stays (.inr (.inl none))
    rw [completion_records begun walked, Overload.completed, if_neg fun empty => declared empty.1]

/-- While the parameters of an overload are declared, it gets nothing else than these. -/
theorem declaresParameters_records (follows : engine.Follows (StoreRelation.guarding id).discipline)
    {definition : FunctionDefinition} {environment : Environment} {before after : Progress}
    (begun : (before.store.overloadAt id).state ≠ .pending)
    (returned : engine.declaresParameters id definition environment before = .ok () after) :
    ∃ parameters, after.store.overloadAt id =
      { before.store.overloadAt id with parameters } := by
  obtain ⟨parameters, middle, declared, changed⟩ := bind_eq_ok.mp returned
  cases changed
  have same : middle.store.overloadAt id = before.store.overloadAt id :=
    (declareParameters_keeps follows _ _ _ _).respects.of_ok declared begun
  refine ⟨parameters, ?_⟩
  dsimp only
  rw [Store.overloadAt_modifyOverload_of_begun (same ▸ begun), same]

/-- While the return of an overload is declared, it gets nothing else than this, from a type hint or
from a top-level yield. -/
theorem declareReturn_records (follows : engine.Follows (StoreRelation.guarding id).discipline)
    {definition : FunctionDefinition} {environment : Environment} {before after : Progress}
    (begun : (before.store.overloadAt id).state ≠ .pending)
    (undeclared : (before.store.overloadAt id).declaredReturn = none)
    (returned : engine.declareReturn id definition environment before = .ok () after) :
    ∃ declaredReturn, after.store.overloadAt id =
        { before.store.overloadAt id with declaredReturn } ∧
      (declaredReturn = none ↔ definition.returns = none ∧
        topLevelYield? definition.body = none) := by
  have described {middle : Progress} (value : Value)
      (same : middle.store.overloadAt id = before.store.overloadAt id) :
      (middle.store.modifyOverload id fun overload =>
        { overload with declaredReturn := some value }).overloadAt id =
          { before.store.overloadAt id with declaredReturn := some value } := by
    rw [Store.overloadAt_modifyOverload_of_begun (same ▸ begun), same]
  unfold declareReturn at returned
  cases annotated : definition.returns with
  | some hint =>
    simp only [annotated] at returned
    obtain ⟨ty, middle, hinted, returned⟩ := bind_eq_ok.mp returned
    have same := (evaluateTypeHint_keeps follows hint).respects.of_ok hinted begun
    cases returned
    exact ⟨_, described _ same, by simp⟩
  | none =>
    simp only [annotated] at returned
    cases yielded : topLevelYield? definition.body with
    | some value =>
      simp only [yielded] at returned
      obtain ⟨_, marked, flagged, returned⟩ := bind_eq_ok.mp returned
      obtain ⟨element, middle, valued, returned⟩ := bind_eq_ok.mp returned
      have flags : (insertFunctionFlags id.function { generator := true }).Keeps
          (StoreRelation.guarding id).discipline () := insertFunctionFlags_keeps trivial _
      have first : marked.store.overloadAt id = before.store.overloadAt id :=
        flags.respects.of_ok flagged begun
      have same := (optionalValue_keeps follows value).respects.of_ok valued (first ▸ begun)
      cases returned
      exact ⟨_, described _ (same.trans first), by simp⟩
    | none =>
      simp only [yielded] at returned
      cases returned
      exact ⟨none, by rw [← undeclared], by simp⟩

/-- The engine of every depth leaves an overload alone that has begun. -/
theorem atDepth_guarding (id : OverloadId) (depth : Nat) :
    (Engine.atDepth depth).Follows (StoreRelation.guarding id).discipline :=
  atDepth_respects (.guarding id) depth

/-- When the body of an overload is walked that is evaluated for the first time, its parameters and
its return have been declared, and nothing has been recorded yet. Afterwards it counts as evaluated.
-/
theorem evaluateOverload_records (follows : engine.Follows (StoreRelation.guarding id).discipline)
    {environment : Environment} {before after : Progress} {entry : FunctionEntry}
    (there : before.store.HasOverload id)
    (unrecorded : (before.store.overloadAt id).inferredReturns = [])
    (undeclared : (before.store.overloadAt id).declaredReturn = none)
    (evaluated : engine.evaluateOverload id entry environment before = .ok () after) :
    ∃ declared recorded last,
      engine.declaresParameters id entry.definition environment (entered id entry before) =
        .ok () declared ∧
      engine.declareReturn id entry.definition environment declared = .ok () recorded ∧
      (recorded.store.overloadAt id).state ≠ .pending ∧
      (recorded.store.overloadAt id).inferredReturns = [] ∧
      ((recorded.store.overloadAt id).declaredReturn = none ↔
        entry.definition.returns = none ∧ topLevelYield? entry.definition.body = none) ∧
      engine.walkBody id entry.definition environment recorded = .ok () last ∧
      ((last.store.overloadAt id).state ≠ .pending → after.store.overloadAt id =
        { last.store.overloadAt id with state := .evaluated }) := by
  obtain ⟨declared, recorded, last, parameters, returned, walked, ended⟩ :=
    evaluateOverload_ends evaluated
  have begun : (entered id entry before).store.overloadAt id =
      { before.store.overloadAt id with state := .evaluating } := by
    unfold entered
    dsimp only
    rw [Store.overloadAt_modifyOverload, if_pos ⟨rfl, there⟩]
  obtain ⟨_, described⟩ :=
    declaresParameters_records follows (by rw [begun]; exact nofun) parameters
  rw [begun] at described
  obtain ⟨_, announced, declares⟩ := declareReturn_records follows
    (by rw [described]; exact nofun) (by rw [described]; exact undeclared) returned
  rw [described] at announced
  refine ⟨declared, recorded, last, parameters, returned, ?_, ?_, ?_, walked, fun still => ?_⟩
  · rw [announced]
    exact nofun
  · rw [announced]
    exact unrecorded
  · rw [announced]
    exact declares
  · rw [ended, Store.overloadAt_modifyOverload_of_begun still]

/-- Every return statement is collected once. When a function is evaluated for the first time, with
a result, and its body is walked, then the values that are recorded with its overload are, in order,
those of the return statements in the body, in branches and loops at any depth but not in nested
definitions: none for an empty one, and otherwise what its expression is found to be where the walk
comes to it. If there is no such statement and no return is declared, none is recorded instead. If
the body is not walked, nothing is recorded.

Proof: an overload that has begun is changed by its own evaluation only (`atDepth_guarding`), so
whatever is evaluated or declared between two return statements leaves it alone. By induction over
the statements the walk records what it returns, one after the other. -/
theorem evaluateFunction_collects (depth : Nat) {environment : Environment}
    {before after : Progress} {function : FunctionId} {entry : FunctionEntry}
    (begins : before.Begins function entry)
    (unrecorded : (before.store.overloadAt ⟨function, 0⟩).inferredReturns = [])
    (undeclared : (before.store.overloadAt ⟨function, 0⟩).declaredReturn = none)
    (evaluated : (Engine.atDepth (depth + 1)).evaluateFunction function environment before =
      .ok () after) :
    let engine := Engine.atDepth depth
    let id : OverloadId := ⟨function, 0⟩
    let definition := entry.definition
    let sites := Statement.blockReturnSites definition.body
    let overload := after.store.overloadAt id
    ∃ declared recorded,
      engine.declaresParameters id definition environment (entered id entry before) =
        .ok () declared ∧
      engine.declareReturn id definition environment declared = .ok () recorded ∧
      overload.state = .evaluated ∧
      overload.declaredReturn = (recorded.store.overloadAt id).declaredReturn ∧
      (overload.declaredReturn = none ↔
        definition.returns = none ∧ topLevelYield? definition.body = none) ∧
      (WalksBody environment id definition recorded → ∃ returned last,
        engine.blockReturns (.ofOverload recorded.store id definition) definition.body environment
            recorded = .ok returned last ∧
          returned.map Prod.fst = sites ∧ (∀ each ∈ returned, engine.Returns environment each) ∧
          overload.inferredReturns = returned.map Prod.snd ++
            if sites = [] ∧ overload.declaredReturn = none then [Store.noneObject] else []) ∧
      (¬WalksBody environment id definition recorded → overload.inferredReturns = []) := by
  intro engine id definition sites overload
  have there : before.store.HasOverload id := by
    have once := congrArg List.length begins.pending
    rw [List.length_map] at once
    exact Nat.lt_of_lt_of_eq Nat.zero_lt_one once.symm
  have evaluates : engine.evaluateOverload id entry environment before = .ok () after :=
    (evaluateDefinition_of_pending begins.node begins.pending begins.declared).symm.trans evaluated
  obtain ⟨declared, recorded, last, parameters, returned, begun, nothing, declares, walked,
    ended⟩ :=
    evaluateOverload_records (atDepth_guarding id depth) there unrecorded undeclared evaluates
  obtain ⟨walks, stays⟩ := walkBody_records (atDepth_guarding id depth) begun walked
  refine ⟨declared, recorded, parameters, returned, ?_⟩
  by_cases chosen : WalksBody environment id definition recorded
  · obtain ⟨found, final, collected, each, values, records⟩ := walks chosen
    rw [records, Overload.state_completed] at ended
    have closed : overload = _ := ended begun
    have declaration : overload.declaredReturn = (recorded.store.overloadAt id).declaredReturn := by
      rw [closed]
      exact Overload.declaredReturn_completed _
    have none : found.map Prod.snd = [] ↔ sites = [] := by
      rw [List.map_eq_nil_iff, ← List.map_eq_nil_iff, each]
    refine ⟨by rw [closed], declaration, declaration ▸ declares,
      fun _ => ⟨found, final, collected, each, values, ?_⟩, fun stays => absurd chosen stays⟩
    rw [declaration, closed]
    dsimp only
    rw [Overload.inferredReturns_completed]
    simp only [Overload.returning, nothing, List.nil_append, none]
  · rw [stays chosen] at ended
    have closed : overload = _ := ended begun
    have declaration : overload.declaredReturn = (recorded.store.overloadAt id).declaredReturn := by
      rw [closed]
    exact ⟨by rw [closed], declaration, declaration ▸ declares, fun walks => absurd walks chosen,
      fun _ => by rw [closed]; exact nothing⟩

end Engine

namespace Analyzer

/-- A function that returns something in one branch, and in the other one nothing, after it has
declared a function that returns something else. -/
def returning : FunctionDefinition :=
  ⟨⟨1⟩, .ofName "chosen", [{ name := .ofName "flag" }], none,
    [.branch (.ofName "flag") [.ret (some (.constant (.int 1) .unknown)) .unknown]
      [.defineFunction 2 "inner" ["text"] [.returning "text"], .ret none .unknown] .unknown],
    [], .unknown⟩

/-- It is evaluated with two values: what the first branch returns, and none. -/
theorem evaluateFunction_collects_branches :
    ∃ after value, (Engine.atDepth 1).evaluateFunction nextOverload.function Registry.environment
        (generating returning) = .ok () after ∧
      (after.store.overloadAt nextOverload).inferredReturns = [value, Store.noneObject] ∧
      ∃ current next, (Engine.atDepth 0).checkedValue (.constant (.int 1) .unknown)
        Registry.environment current = .ok value next := by
  have evaluated : ((Engine.atDepth 1).evaluateFunction nextOverload.function).yields
      Registry.environment (generating returning) () = true := by
    decide +kernel
  have begins : (generating returning).Begins nextOverload.function (nextEntry returning) :=
    ⟨by decide +kernel, by decide +kernel, by with_unfolding_all rfl⟩
  obtain ⟨declared, recorded, -, -, -, -, -, walks, -⟩ := Engine.evaluateFunction_collects 0 begins
    (by decide +kernel) (by decide +kernel) (ok_of_yields evaluated)
  obtain ⟨returned, last, -, sites, values, collected⟩ := walks (.inr (.inr rfl))
  match returned, sites with
  | [(_, first), (_, second)], rfl =>
    have given := values _ List.mem_cons_self
    have nothing : second = Store.noneObject := values _ (List.mem_cons_of_mem _ List.mem_cons_self)
    subst nothing
    exact ⟨_, first, ok_of_yields evaluated, collected, given⟩

end Analyzer

end TypeInference
