import TypeInference.Proofs.StoreRelation

/-!
# How far functions are evaluated

An overload is pending, is being evaluated, and has been evaluated. Whatever succeeds
leaves every overload as it was or evaluated, so that a function that is evaluated while
nothing else is being evaluated has all its overloads evaluated afterwards.
-/

namespace TypeInference

namespace Store

/-- Whether an overload of the store stands at a place. -/
def HasOverload (store : Store) (id : OverloadId) : Prop :=
  id.index < (store.functionAt id.function).overloads.length

instance (store : Store) (id : OverloadId) : Decidable (store.HasOverload id) :=
  inferInstanceAs (Decidable (_ < _))

/-- A place outside of the store reads as an empty overload. -/
theorem overloadAt_of_not_hasOverload (store : Store) (id : OverloadId)
    (outside : ¬store.HasOverload id) : store.overloadAt id = default := by
  have beyond : (store.functionAt id.function).overloads.length ≤ id.index := Nat.not_lt.mp outside
  simp [overloadAt, List.getElem?_eq_none beyond]

/-- An overload of the store is one of a function of the store. -/
theorem HasOverload.hasFunction {store : Store} {id : OverloadId} (there : store.HasOverload id) :
    store.HasFunction id.function := by
  refine Decidable.byContradiction fun outside => ?_
  rw [HasOverload, functionAt_of_not_hasFunction store id.function outside] at there
  cases there

/-- The overloads of every function after one of them is changed. -/
theorem overloads_modifyOverload (store : Store) (changed : OverloadId)
    (change : Overload → Overload) (function : FunctionId) :
    ((store.modifyOverload changed change).functionAt function).overloads =
      if function = changed.function then
        (store.functionAt function).overloads.modify changed.index change
      else (store.functionAt function).overloads := by
  unfold modifyOverload
  rw [functionAt_modifyFunction_eq]
  by_cases same : function = changed.function
  · by_cases present : store.HasFunction changed.function
    · rw [if_pos ⟨same, present⟩, if_pos same]
      rfl
    · rw [if_neg fun both => present both.2, if_pos same, same,
        functionAt_of_not_hasFunction store _ present]
      change [] = List.modify [] changed.index change
      simp
  · rw [if_neg fun both => same both.1, if_neg same]

@[simp] theorem hasOverload_modifyOverload (store : Store) (changed id : OverloadId)
    (change : Overload → Overload) :
    (store.modifyOverload changed change).HasOverload id ↔ store.HasOverload id := by
  unfold HasOverload
  rw [overloads_modifyOverload]
  split <;> simp

/-- Every overload after one of them is changed. -/
theorem overloadAt_modifyOverload (store : Store) (changed id : OverloadId)
    (change : Overload → Overload) :
    (store.modifyOverload changed change).overloadAt id =
      if id = changed ∧ store.HasOverload changed then change (store.overloadAt id)
      else store.overloadAt id := by
  split
  · next reached =>
    obtain ⟨rfl, there⟩ := reached
    have inside : id.index < (store.functionAt id.function).overloads.length := there
    simp [overloadAt, overloads_modifyOverload, inside]
  · next missed =>
    -- Another place, or none in the store, reads as it did.
    by_cases same : id = changed
    · subst same
      have outside : ¬store.HasOverload id := fun there => missed ⟨rfl, there⟩
      rw [overloadAt_of_not_hasOverload store id outside,
        overloadAt_of_not_hasOverload _ id (by simpa using outside)]
    · unfold overloadAt
      rw [overloads_modifyOverload]
      split
      · next sameFunction =>
        have apart : changed.index ≠ id.index := by
          intro sameIndex
          cases id
          cases changed
          cases sameFunction
          cases sameIndex
          exact same rfl
        simp [apart]
      · rfl

/-- What an analysis that succeeds makes of overloads. -/
structure Settles (before after : Store) : Prop where
  /-- Every overload is as far evaluated as it was, or evaluated. -/
  states : ∀ id, (after.overloadAt id).state = (before.overloadAt id).state ∨
    (after.overloadAt id).state = .evaluated
  /-- The functions that were there have as many overloads as they had. -/
  counts : ∀ id, before.HasFunction id → after.HasFunction id ∧
    (after.functionAt id).overloads.length = (before.functionAt id).overloads.length

namespace Settles

variable {before middle after : Store}

/-- A store whose functions are not changed. -/
theorem of_same (same : after.functions = before.functions) : before.Settles after := by
  have functionAt (id : FunctionId) : after.functionAt id = before.functionAt id := by
    rw [Store.functionAt, same]
    rfl
  exact
    { states := fun id => .inl (by rw [overloadAt, functionAt]; rfl)
      counts := fun id present => ⟨by rw [HasFunction, same]; exact present, by rw [functionAt]⟩ }

theorem trans (earlier : before.Settles middle) (later : middle.Settles after) :
    before.Settles after where
  states id := by
    rcases later.states id with same | evaluated
    · rw [same]
      exact earlier.states id
    · exact .inr evaluated
  counts id present := by
    obtain ⟨still, same⟩ := earlier.counts id present
    obtain ⟨there, again⟩ := later.counts id still
    exact ⟨there, again.trans same⟩

/-- The overloads that were there are still there. -/
theorem hasOverload (settles : before.Settles after) {id : OverloadId}
    (there : before.HasOverload id) : after.HasOverload id := by
  rw [HasOverload, (settles.counts id.function there.hasFunction).2]
  exact there

/-- An overload that is evaluated stays evaluated. -/
theorem evaluated (settles : before.Settles after) {id : OverloadId}
    (evaluated : (before.overloadAt id).state = .evaluated) :
    (after.overloadAt id).state = .evaluated :=
  (settles.states id).elim (fun same => same.trans evaluated) fun evaluated => evaluated

/-- A change of an overload that leaves it as far evaluated as it is. -/
theorem modifyOverload (store : Store) (changed : OverloadId) {change : Overload → Overload}
    (same : ∀ overload, (change overload).state = overload.state) :
    store.Settles (store.modifyOverload changed change) where
  states id := by
    rw [overloadAt_modifyOverload]
    split
    · exact .inl (same _)
    · exact .inl rfl
  counts id present := by
    refine ⟨by simpa [Store.modifyOverload] using present, ?_⟩
    rw [overloads_modifyOverload]
    split <;> simp

/-- An overload is being evaluated, and after what succeeds in between evaluated. -/
theorem evaluation (id : OverloadId) {store made : Store} {begin finish : Overload → Overload}
    (finished : ∀ overload, (finish overload).state = .evaluated)
    (settles : (store.modifyOverload id begin).Settles made) :
    store.Settles (made.modifyOverload id finish) where
  states other := by
    rw [overloadAt_modifyOverload]
    split
    · exact .inr (finished _)
    · next missed =>
      rcases settles.states other with same | evaluated
      · rw [overloadAt_modifyOverload] at same
        split at same
        · next reached =>
          -- The place was changed at the beginning, so it is in the store, and changed at the end.
          refine absurd ⟨reached.1, settles.hasOverload ?_⟩ missed
          simpa using reached.2
        · exact .inl same
      · exact .inr evaluated
  counts other present := by
    obtain ⟨there, same⟩ := settles.counts other (by simpa [Store.modifyOverload] using present)
    refine ⟨by simpa [Store.modifyOverload] using there, ?_⟩
    rw [overloads_modifyOverload] at same ⊢
    split at same <;> split <;> simp_all

/-- A change of a function that leaves its overloads alone. -/
theorem modifyFunction (store : Store) (changed : FunctionId)
    {change : FunctionRecord → FunctionRecord}
    (same : ∀ record : FunctionRecord, (change record).overloads = record.overloads) :
    store.Settles (store.modifyFunction changed change) := by
  have overloads (id : FunctionId) :
      ((store.modifyFunction changed change).functionAt id).overloads =
        (store.functionAt id).overloads := by
    rw [functionAt_modifyFunction_eq]
    split
    · exact same _
    · rfl
  exact
    { states := fun id => .inl (by unfold overloadAt; rw [overloads])
      counts := fun id present => ⟨by simpa using present, by rw [overloads]⟩ }

/-- A function that is created with pending overloads. -/
theorem addFunction (store : Store) {record : FunctionRecord}
    (pending : ∀ overload ∈ record.overloads, overload.state = .pending) :
    store.Settles (store.addFunction record).2 where
  states id := by
    unfold overloadAt
    rw [functionAt_addFunction_eq]
    split
    · next created =>
      rw [created, functionAt_of_not_hasFunction store store.nextFunction (Nat.lt_irrefl _)]
      left
      cases found : record.overloads[id.index]? with
      | none => rfl
      | some overload => exact pending overload (List.mem_of_getElem? found)
    · exact .inl rfl
  counts id present := by
    have apart : id ≠ store.nextFunction := by
      rintro rfl
      exact Nat.lt_irrefl _ present
    rw [hasFunction_addFunction, functionAt_addFunction_eq, if_neg apart]
    exact ⟨.inl present, rfl⟩

end Settles

end Store

/-- A function begins with one overload, which is pending. -/
theorem Engine.pending_declaredRecord (definition : FunctionDefinition) (owner : Option ClassId)
    (qualifiedName : String) :
    ∀ overload ∈ (declaredRecord definition owner qualifiedName).overloads,
      overload.state = .pending := by
  intro overload listed
  rw [overloads_declaredRecord, List.mem_singleton] at listed
  rw [listed]

/-- To leave every overload as far evaluated as it was, or evaluated, unless something
fails. -/
def StoreRelation.settling : StoreRelation where
  Relates := Store.Settles
  Failing := False
  MayRecord _ := True
  waiting other _ := (other trivial).elim
  refl _ := .of_same rfl
  trans := .trans
  createFunction store definition owner qualifiedName :=
    .addFunction store (Engine.pending_declaredRecord definition owner qualifiedName)
  changeFunction store id {_} same := .modifyFunction store id fun record => (same record).2
  changeOverload store {id _} _ same := .modifyOverload store id same
  evaluation {id _ _} _ settles := .evaluation id (fun _ => rfl) settles
  interruption _ impossible _ := impossible.elim
  addMember store owner name value overwrite := .of_same (by rw [Store.addMember_eq]; rfl)
  createClass _ _ _ _ := .of_same rfl
  setBases _ _ _ := .of_same rfl
  parametrize _ _ _ := .of_same rfl
  specialization {store made template bindings} _ _ settles :=
    have begun : store.Settles (store.begin template bindings) := .of_same rfl
    begun.trans (settles.trans (.of_same rfl))
  abandonment impossible := impossible.elim

namespace Store

/-- No overload is in a state. -/
def NoOverloadIs (store : Store) (state : OverloadState) : Prop :=
  ∀ function ∈ store.functions, ∀ overload ∈ function.overloads, overload.state ≠ state

instance (store : Store) (state : OverloadState) : Decidable (store.NoOverloadIs state) :=
  inferInstanceAs (Decidable (∀ function ∈ store.functions, _))

/-- Every overload of a function has been evaluated. -/
def IsEvaluated (store : Store) (function : FunctionId) : Prop :=
  ∀ overload ∈ (store.functionAt function).overloads, overload.state = .evaluated

instance (store : Store) (function : FunctionId) : Decidable (store.IsEvaluated function) :=
  inferInstanceAs (Decidable (∀ overload ∈ _, _))

/-- An overload of a store in which none is in a state is not. -/
theorem NoOverloadIs.state_ne {store : Store} {state : OverloadState}
    (none : store.NoOverloadIs state) {id : OverloadId} (there : store.HasOverload id) :
    (store.overloadAt id).state ≠ state := by
  have present : id.function.index < store.functions.size := there.hasFunction
  have inside : id.index < (store.functionAt id.function).overloads.length := there
  have listed : store.functionAt id.function ∈ store.functions := by
    simp [functionAt, present]
  have found : store.overloadAt id = (store.functionAt id.function).overloads[id.index] := by
    simp [overloadAt, inside]
  rw [found]
  exact none _ listed _ (List.getElem_mem inside)

/-- It is enough to look at the overloads by their places. -/
theorem noOverloadIs_of_hasOverload {store : Store} {state : OverloadState}
    (none : ∀ id, store.HasOverload id → (store.overloadAt id).state ≠ state) :
    store.NoOverloadIs state := by
  intro record listed overload among same
  obtain ⟨place, inside, rfl⟩ := Array.getElem_of_mem listed
  obtain ⟨index, within, rfl⟩ := List.getElem_of_mem among
  have there : store.HasOverload ⟨⟨place⟩, index⟩ := by
    simpa [HasOverload, functionAt, inside] using within
  refine none _ there ?_
  simpa [overloadAt, functionAt, inside, within] using same

/-- Where nothing is being evaluated no place reads as an overload being evaluated. -/
theorem NoOverloadIs.not_evaluating {store : Store} (idle : store.NoOverloadIs .evaluating)
    (id : OverloadId) : (store.overloadAt id).state ≠ .evaluating := by
  by_cases there : store.HasOverload id
  · exact idle.state_ne there
  · rw [overloadAt_of_not_hasOverload store id there]
    exact fun impossible => nomatch impossible

/-- The overloads of a function by their places. -/
theorem isEvaluated_iff (store : Store) (function : FunctionId) :
    store.IsEvaluated function ↔ ∀ place < (store.functionAt function).overloads.length,
      (store.overloadAt ⟨function, place⟩).state = .evaluated := by
  unfold IsEvaluated overloadAt
  constructor
  · intro evaluated place inside
    simpa [inside] using evaluated _ (List.getElem_mem inside)
  · intro evaluated overload listed
    obtain ⟨place, inside, found⟩ := List.mem_iff_getElem.mp listed
    simpa [inside, found] using evaluated place inside

end Store

namespace Engine

open Analysis

variable {engine : Engine}

/-- An overload that was evaluated successfully is evaluated. -/
theorem evaluateOverload_evaluates (follows : engine.Follows StoreRelation.settling.discipline)
    {id : OverloadId} {entry : FunctionEntry} {environment : Environment}
    {before after : Progress} (there : before.store.HasOverload id)
    (returned : engine.evaluateOverload id entry environment before = .ok () after) :
    (after.store.overloadAt id).state = .evaluated := by
  unfold evaluateOverload at returned
  simp only [evaluateInside_eq, changeOverload] at returned
  obtain ⟨_, begun, begins, rest⟩ := bind_eq_ok.mp returned
  cases begins
  unfold Analysis.inScope at rest
  simp only [bind_apply, scopes_apply, onScopes_apply, withCleanup, modifyStore_apply] at rest
  split at rest
  · next found =>
    cases rest
    split at found
    · next result made parts =>
      cases found
      have settles := (evaluateParts_keeps follows id entry.definition _ trivial trivial
        trivial).respects.of_ok parts
      -- What is evaluated in between takes no overload away.
      have still : made.store.HasOverload id := settles.hasOverload (by simpa using there)
      simp [Store.overloadAt_modifyOverload, still]
    · cases found
  · cases rest

/-- After the pending overloads at some places were evaluated, while nothing else was
being evaluated, all overloads at these places are evaluated. -/
theorem evaluatePending_evaluates (follows : engine.Follows StoreRelation.settling.discipline)
    {function : FunctionId} {node : NodeId} {environment : Environment} (places : List Nat) :
    ∀ {before after : Progress},
      engine.evaluatePending function node places environment before = .ok () after →
      (∀ id, (before.store.overloadAt id).state ≠ .evaluating) →
      (∀ place ∈ places, before.store.HasOverload ⟨function, place⟩) →
      ∀ place ∈ places, (after.store.overloadAt ⟨function, place⟩).state = .evaluated := by
  induction places with
  | nil => exact fun _ _ _ _ listed => absurd listed List.not_mem_nil
  | cons first rest inductionHypothesis =>
    intro before after returned idle there
    -- The first overload is evaluated, now or before, and what is left is a state like
    -- the one before, from which the others are evaluated.
    obtain ⟨middle, settles, evaluated, others⟩ : ∃ middle : Progress,
        before.store.Settles middle.store ∧
          (middle.store.overloadAt ⟨function, first⟩).state = .evaluated ∧
            engine.evaluatePending function node rest environment middle = .ok () after := by
      rw [evaluatePending, bind_apply, get_apply] at returned
      dsimp only at returned
      split at returned
      · next pending =>
        cases known : before.symbols.function? node with
        | some entry =>
          rw [known] at returned
          obtain ⟨_, middle, done, onwards⟩ := bind_eq_ok.mp returned
          exact ⟨middle,
            (evaluateOverload_keeps follows _ entry trivial trivial).respects.of_ok
              ((whenPending_of_pending pending _ _).trans done),
            evaluateOverload_evaluates follows (there first List.mem_cons_self) done, onwards⟩
        | none =>
          rw [known] at returned
          cases returned
      · next decided =>
        refine ⟨before, .of_same rfl, ?_, returned⟩
        cases state : (before.store.overloadAt ⟨function, first⟩).state with
        | pending => exact absurd state decided
        | evaluating => exact absurd state (idle _)
        | evaluated => rfl
    have remaining := inductionHypothesis others
      (fun id => by
        rcases settles.states id with same | evaluated
        · rw [same]
          exact idle id
        · rw [evaluated]
          decide)
      fun place listed => settles.hasOverload (there place (List.mem_cons_of_mem _ listed))
    intro place listed
    rcases List.mem_cons.mp listed with rfl | later
    · exact ((evaluatePending_keeps follows function node trivial trivial rest).respects.of_ok
        others).evaluated evaluated
    · exact remaining place later

/-- A function with a definition that was evaluated successfully, while nothing was being
evaluated, has all its overloads evaluated. -/
theorem evaluateFunction_evaluates {depth : Nat} {function : FunctionId}
    {environment : Environment} {before after : Progress}
    (idle : before.store.NoOverloadIs .evaluating)
    (defined : (before.store.functionAt function).node ≠ none)
    (returned : (Engine.atDepth depth).evaluateFunction function environment before =
      .ok () after) : after.store.IsEvaluated function := by
  have settles := ((atDepth_respects .settling depth).evaluateFunction function).respects.of_ok
    returned
  cases depth with
  | zero => cases returned
  | succ depth =>
    change evaluateDefinition (atDepth depth) function environment before = .ok () after at returned
    unfold evaluateDefinition at returned
    rw [bind_apply, store_apply] at returned
    dsimp only at returned
    cases known : (before.store.functionAt function).node with
    | none => exact absurd known defined
    | some node =>
      rw [known] at returned
      have present : before.store.HasFunction function := by
        refine Decidable.byContradiction fun outside => defined ?_
        rw [Store.functionAt_of_not_hasFunction _ _ outside]
        rfl
      have places := evaluatePending_evaluates (atDepth_respects .settling depth) _ returned
        idle.not_evaluating (fun place listed => List.mem_range.mp listed)
      rw [Store.isEvaluated_iff, (settles.counts function present).2]
      exact fun place inside => places place (List.mem_range.mpr inside)

end Engine

end TypeInference
