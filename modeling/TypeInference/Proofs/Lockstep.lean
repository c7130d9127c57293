import TypeInference.Proofs.Parallel
import TypeInference.Proofs.Settling

/-!
# Runs in parallel

Two runs with parallel stores stay in parallel while classes of the origin are specialized
and no overload is pending: substitution follows the values and bases of the origin, the
template of a specialization is one of its classes, and a placeholder that is created
meanwhile is the same in both runs.
-/

namespace TypeInference

open Store

/-- An object of a class refers to the class. -/
theorem Value.mem_classes_object (id : ClassId) (content : Content) :
    id ∈ (Value.object (.cls id) content).classes := by
  rcases content with _ | _ | ⟨_, _⟩ | ⟨_, _⟩ | _ <;> simp [Value.classes, Ty.asClass?]

/-- Two runs that are in the same place with parallel stores. -/
structure Progress.Parallel (origin : Store) (made : ClassId) (bases : List Ty × List Ty)
    (first second : Progress) : Prop where
  stores : Store.Parallel origin made bases first.store second.store
  same : second = { first with store := second.store }

/-- Runs are in parallel with other parallel stores. -/
theorem Progress.Parallel.withStores {origin : Store} {made : ClassId}
    {bases others : List Ty × List Ty} {first second : Progress}
    (parallel : Progress.Parallel origin made bases first second) {one another : Store}
    (stores : Store.Parallel origin made others one another) :
    Progress.Parallel origin made others { first with store := one }
      { second with store := another } :=
  ⟨stores, by rw [parallel.same]⟩

namespace Analysis

variable {α β : Type} {origin : Store} {made : ClassId} {bases : List Ty × List Ty}

/-- Two runs that end with one result or one failure, in parallel. -/
inductive EndAlike (origin : Store) (made : ClassId) (bases : List Ty × List Ty) :
    EStateM.Result Failure Progress α → EStateM.Result Failure Progress α → Prop
  | ok (result : α) {first second : Progress}
      (parallel : Progress.Parallel origin made bases first second) :
      EndAlike origin made bases (.ok result first) (.ok result second)
  | error (failure : Failure) {first second : Progress}
      (parallel : Progress.Parallel origin made bases first second) :
      EndAlike origin made bases (.error failure first) (.error failure second)

/-- An analysis that keeps two runs in parallel. -/
def StaysParallel (origin : Store) (made : ClassId) (bases : List Ty × List Ty)
    (analysis : Analysis α) : Prop :=
  ∀ environment {first second}, Progress.Parallel origin made bases first second →
    EndAlike origin made bases (analysis environment first) (analysis environment second)

namespace StaysParallel

theorem pure (result : α) :
    (Pure.pure result : Analysis α).StaysParallel origin made bases :=
  fun _ _ _ parallel => .ok result parallel

theorem throw (failure : Failure) :
    (throw failure : Analysis α).StaysParallel origin made bases :=
  fun _ _ _ parallel => .error failure parallel

theorem bind {first : Analysis α} {next : α → Analysis β}
    (stays : first.StaysParallel origin made bases)
    (onwards : ∀ result, (next result).StaysParallel origin made bases) :
    (first >>= next).StaysParallel origin made bases := by
  intro environment one another parallel
  have earlier := stays environment parallel
  rw [bind_apply, bind_apply]
  generalize first environment one = outcome at earlier
  generalize first environment another = other at earlier
  cases earlier with
  | ok result still => exact onwards result environment still
  | error failure still => exact .error failure still

/-- Reading the store, if what follows is the same in both runs. -/
theorem read {next : Store → Analysis α}
    (stays : ∀ {first second}, Store.Parallel origin made bases first second →
      next second = next first ∧ (next first).StaysParallel origin made bases) :
    (Analysis.store >>= next).StaysParallel origin made bases := by
  intro environment first second parallel
  obtain ⟨same, onwards⟩ := stays parallel.stores
  change EndAlike origin made bases (next first.store environment first)
    (next second.store environment second)
  rw [same]
  exact onwards environment parallel

/-- A change of the store that keeps stores in parallel. -/
theorem modifyStore {change : Store → Store}
    (keeps : ∀ {first second}, Store.Parallel origin made bases first second →
      Store.Parallel origin made bases (change first) (change second)) :
    (Analysis.modifyStore change).StaysParallel origin made bases :=
  fun _ _ _ parallel => .ok () (parallel.withStores (keeps parallel.stores))

end StaysParallel

end Analysis

namespace Engine

open Analysis

variable {origin : Store} {made : ClassId} {bases : List Ty × List Ty} {engine : Engine}

/-- An engine that keeps two runs in parallel, as far as classes of the origin are
specialized. -/
structure KeepsParallel (origin : Store) (made : ClassId) (bases : List Ty × List Ty)
    (engine : Engine) : Prop where
  evaluateFunction : ∀ function,
    (engine.evaluateFunction function).StaysParallel origin made bases
  specialize : ∀ {id}, origin.HasClass id → ∀ arguments,
    (engine.specialize id arguments).StaysParallel origin made bases

theorem ensureConstructed_parallel (keeps : engine.KeepsParallel origin made bases)
    (id : ClassId) : (engine.ensureConstructed id).StaysParallel origin made bases := by
  refine .read fun {first second} parallel => ⟨?_, ?_⟩
  · simp only [ownMember?, parallel.templateOf, parallel.reads (·.flags) (fun _ => rfl),
      parallel.reads (·.members) (fun _ => rfl)]
  · split
    · exact .pure ()
    · split
      · exact keeps.evaluateFunction _
      · exact .pure ()

/-- Specializing a generic class of the origin with its open parameters replaced. -/
theorem substituteClass_parallel (closed : origin.Closed)
    (keeps : engine.KeepsParallel origin made bases) (bindings : Bindings) {id : ClassId}
    (old : origin.HasClass id) :
    (engine.substituteClass bindings id).StaysParallel origin made bases := by
  refine .read fun {first second} parallel => ⟨?_, ?_⟩
  · have template := parallel.hasClass_templateOf closed old
    simp only [parallel.isGeneric closed old, parallel.templateOf,
      parallel.typeParameters template, parallel.reads (·.parameters) (fun _ => rfl)]
  · split
    · exact .pure id
    · dsimp only
      split
      · exact .pure id
      · exact keeps.specialize (parallel.hasClass_templateOf closed old) _

theorem substituteType_parallel (closed : origin.Closed)
    (keeps : engine.KeepsParallel origin made bases) (bindings : Bindings) {ty : Ty}
    (old : ∀ id ∈ ty.asClass?.toList, origin.HasClass id) :
    (engine.substituteType bindings ty).StaysParallel origin made bases := by
  cases ty with
  | cls id =>
    exact .bind (substituteClass_parallel closed keeps bindings (old id List.mem_cons_self))
      fun _ => .pure _
  | _ => exact .pure _

theorem union_parallel (values : List Value) :
    (do return (← Analysis.store).union values).StaysParallel origin made bases :=
  .read fun parallel => ⟨by rw [parallel.union], .pure _⟩

theorem newObject_parallel (id : ClassId) :
    (do return (← Analysis.store).newObject id).StaysParallel origin made bases :=
  .read fun parallel => ⟨by rw [parallel.newObject], .pure _⟩

mutual

theorem substitute_parallel (closed : origin.Closed)
    (keeps : engine.KeepsParallel origin made bases) (bindings : Bindings) :
    ∀ value : Value, (∀ id ∈ value.classes, origin.HasClass id) →
      (engine.substitute bindings value).StaysParallel origin made bases
  | .unknown, _ => .pure _
  | .type ty, old => by
    rw [substitute]
    exact .bind (substituteType_parallel closed keeps bindings old) fun _ => .pure _
  | .union alternatives, old => by
    rw [substitute]
    exact .bind (substituteAll_parallel closed keeps bindings alternatives old) union_parallel
  | .object (.parameter parameter) content, _ => by
    rw [substitute]
    split
    · exact newObject_parallel _
    · exact .pure _
    · exact .pure _
  | .object (.cls id) content, old => by
    rw [substitute]
    refine .bind (substituteClass_parallel closed keeps bindings
      (old id (Value.mem_classes_object id content))) fun specialized => ?_
    match content with
    | .plain =>
      dsimp only
      split
      · exact .pure _
      · exact newObject_parallel specialized
    | .constant _ => exact .pure _
    | .sequence ⟨items, _⟩ =>
      exact .bind (substituteAll_parallel closed keeps bindings items fun id among =>
        old id (List.mem_append_right _ among)) fun _ => .pure _
    | .mapping ⟨entries, _⟩ =>
      exact .bind (substituteEntries_parallel closed keeps bindings entries fun id among =>
        old id (List.mem_append_right _ among)) fun _ => .pure _
    | .iterator element =>
      exact .bind (substitute_parallel closed keeps bindings element fun id among =>
        old id (List.mem_append_right _ among)) fun _ => .pure _
  | .object .unknown _, _ => .pure _
  | .object (.function _) _, _ => .pure _
  | .object (.marker _) _, _ => .pure _

theorem substituteAll_parallel (closed : origin.Closed)
    (keeps : engine.KeepsParallel origin made bases) (bindings : Bindings) :
    ∀ values : List Value, (∀ id ∈ Value.classesOfAll values, origin.HasClass id) →
      (engine.substituteAll bindings values).StaysParallel origin made bases
  | [], _ => .pure _
  | value :: rest, old => by
    rw [substituteAll]
    refine .bind (substitute_parallel closed keeps bindings value ?_) fun _ =>
      .bind (substituteAll_parallel closed keeps bindings rest ?_) fun _ => .pure _
    · exact fun id among => old id (List.mem_append_left _ among)
    · exact fun id among => old id (List.mem_append_right _ among)

theorem substituteEntries_parallel (closed : origin.Closed)
    (keeps : engine.KeepsParallel origin made bases) (bindings : Bindings) :
    ∀ entries : List (Value × Value),
      (∀ id ∈ Value.classesOfEntries entries, origin.HasClass id) →
        (engine.substituteEntries bindings entries).StaysParallel origin made bases
  | [], _ => .pure _
  | (key, value) :: rest, old => by
    rw [substituteEntries]
    refine .bind (substitute_parallel closed keeps bindings key ?_) fun _ =>
      .bind (substitute_parallel closed keeps bindings value ?_) fun _ =>
        .bind (substituteEntries_parallel closed keeps bindings rest ?_) fun _ => .pure _
    · exact fun id among => old id (List.mem_append_left _ (List.mem_append_left _ among))
    · exact fun id among => old id (List.mem_append_left _ (List.mem_append_right _ among))
    · exact fun id among => old id (List.mem_append_right _ among)

end

theorem substituteBases_parallel (closed : origin.Closed)
    (keeps : engine.KeepsParallel origin made bases) (bindings : Bindings) (given : List Ty)
    (old : ∀ id ∈ given.filterMap Ty.asClass?, origin.HasClass id) :
    (engine.substituteBases bindings given).StaysParallel origin made bases := by
  induction given with
  | nil => exact .pure _
  | cons base rest inductionHypothesis =>
    cases base with
    | marker => exact inductionHypothesis old
    | cls id =>
      obtain ⟨own, others⟩ := List.forall_mem_cons.mp old
      exact .bind (substituteClass_parallel closed keeps bindings own) fun _ =>
        .bind (inductionHypothesis others) fun _ => .pure _
    | _ => exact .bind (inductionHypothesis old) fun _ => .pure _

theorem copyMembers_parallel (closed : origin.Closed)
    (keeps : engine.KeepsParallel origin made bases) (bindings : Bindings) {target : ClassId}
    (later : ¬origin.HasClass target) (members : List (String × Value))
    (old : ∀ member ∈ members, ∀ id ∈ member.2.classes, origin.HasClass id) :
    (engine.copyMembers bindings target members).StaysParallel origin made bases := by
  induction members with
  | nil => exact .pure _
  | cons member rest inductionHypothesis =>
    obtain ⟨own, others⟩ := List.forall_mem_cons.mp old
    exact .bind (substitute_parallel closed keeps bindings member.2 own) fun replaced =>
      .bind (.modifyStore fun parallel => parallel.addMember later member.1 replaced true)
        fun _ => inductionHypothesis others

/-- Copies the members of a template onto a specialization. -/
def copyAll (engine : Engine) (bindings : Bindings) (template target : ClassId) :
    Analysis Unit := do
  let members := (← Analysis.store).classAt template |>.members.entries
  engine.copyMembers bindings target
    (members.filter fun member => !structuralMembers.contains member.1)

theorem copyAll_parallel (closed : origin.Closed)
    (keeps : engine.KeepsParallel origin made bases) (bindings : Bindings) {template : ClassId}
    (old : origin.HasClass template) {target : ClassId} (later : ¬origin.HasClass target) :
    (engine.copyAll bindings template target).StaysParallel origin made bases := by
  refine .read fun {first second} parallel => ⟨?_, ?_⟩
  · rw [parallel.reads (·.members) (fun _ => rfl)]
  · refine copyMembers_parallel closed keeps bindings later _ fun member among id referred => ?_
    have listed := (List.mem_filter.mp among).1
    rw [parallel.readsLasting (·.members) (fun _ => rfl) old] at listed
    refine closed.hasClass template ?_
    simp only [ClassRecord.referents, List.mem_append, List.mem_flatMap]
    exact .inr ⟨member, listed, referred⟩

theorem materialize_parallel (closed : origin.Closed)
    (keeps : engine.KeepsParallel origin made bases) (evidence : Evidence) {template : ClassId}
    (old : origin.HasClass template) {placeholder : ClassId}
    (later : ¬origin.HasClass placeholder) (apart : placeholder ≠ made) :
    (engine.materialize template placeholder evidence).StaysParallel origin made bases := by
  refine .read fun {first second} parallel => ⟨?_, ?_⟩
  · dsimp only
    rw [parallel.basesOf old]
  · refine .bind (substituteBases_parallel closed keeps evidence.bindings _ fun id among =>
      parallel.hasClass_base closed old among) fun given => ?_
    refine .bind (.modifyStore fun parallel => ?_) fun _ =>
      copyAll_parallel closed keeps evidence.bindings old later
    rw [parallel.addDiscovered]
    exact parallel.setBases later apart _

theorem makeSpecialization_parallel (closed : origin.Closed)
    (keeps : engine.KeepsParallel origin made bases) (evidence : Evidence) {template : ClassId}
    (old : origin.HasClass template) :
    (engine.makeSpecialization template evidence).StaysParallel origin made bases := by
  intro environment first second parallel
  have stores := parallel.stores
  have later : ¬origin.HasClass first.store.nextClass := fun among =>
    first.store.not_hasClass_nextClass (stores.hasClass among)
  -- The class that differs was there before, so it is not the new placeholder.
  have apart : first.store.nextClass ≠ made := (ne_nextClass stores.present).symm
  have begun := parallel.withStores (stores.begin template evidence.bindings)
  have inside := materialize_parallel closed keeps evidence old later apart environment begun
  rw [makeSpecialization_apply, makeSpecialization_apply, stores.nextClass, stores.signature]
  generalize engine.materialize template first.store.nextClass evidence environment
    { first with store := first.store.begin template evidence.bindings } = outcome at inside
  generalize engine.materialize template first.store.nextClass evidence environment
    { second with store := second.store.begin template evidence.bindings } = other at inside
  cases inside with
  | ok result left =>
    dsimp only
    rw [left.stores.reads (·.specializations) (fun _ => rfl)]
    exact .ok _ (left.withStores (left.stores.finish template _ _))
  | error failure left =>
    exact .error failure (left.withStores (left.stores.endSpecialization template))

theorem specializeClass_parallel (closed : origin.Closed)
    (keeps : engine.KeepsParallel origin made bases) {id : ClassId} (old : origin.HasClass id)
    (arguments : Arguments) :
    (engine.specializeClass id arguments).StaysParallel origin made bases := by
  refine .read fun {first second} parallel => ⟨?_, ?_⟩
  · dsimp only
    rw [parallel.reads (·.template) (fun _ => rfl)]
  · dsimp only
    rw [parallel.readsLasting (·.template) (fun _ => rfl) old]
    cases original : (origin.classAt id).template with
    | some template =>
      exact keeps.specialize (closed.hasClass id (by simp [ClassRecord.referents, original])) _
    | none =>
      refine .bind (ensureConstructed_parallel keeps id) fun _ => .read fun parallel => ⟨?_, ?_⟩
      · -- Parameters, signature, cache and stack are read alike, and so the same branch is taken.
        simp only [parallel.typeParameters old, parallel.ofArguments closed old,
          parallel.signature, unfinished?, parallel.reads (·.specializations) (fun _ => rfl),
          parallel.reads (·.unfinished) (fun _ => rfl), parallel.reads (·.hash) (fun _ => rfl)]
      · split
        · exact .pure _
        · split
          · exact .pure _
          · split
            · exact .pure _
            · exact makeSpecialization_parallel closed keeps _ old

/-- At places where no overload is pending there is nothing to evaluate. -/
theorem evaluatePending_of_none {function : FunctionId} (node : NodeId) {places : List Nat}
    (environment : Environment) {before : Progress}
    (none : ∀ place ∈ places, (before.store.overloadAt ⟨function, place⟩).state ≠ .pending) :
    engine.evaluatePending function node places environment before = .ok () before := by
  induction places with
  | nil => rfl
  | cons first rest inductionHypothesis =>
    obtain ⟨here, others⟩ := List.forall_mem_cons.mp none
    rw [evaluatePending, bind_apply, get_apply]
    dsimp only
    rw [if_neg here]
    exact inductionHypothesis others

/-- In a function of which no overload is pending there is nothing to evaluate. -/
theorem evaluateDefinition_of_none {function : FunctionId} (environment : Environment)
    {before : Progress} (none : ∀ place < (before.store.functionAt function).overloads.length,
      (before.store.overloadAt ⟨function, place⟩).state ≠ .pending) :
    engine.evaluateDefinition function environment before = .ok () before := by
  rw [evaluateDefinition, bind_apply, store_apply]
  dsimp only
  cases (before.store.functionAt function).node with
  | none => rfl
  | some node =>
    exact evaluatePending_of_none node environment fun place listed =>
      none place (List.mem_range.mp listed)

/-- Where no overload is pending there is nothing to evaluate. -/
theorem evaluateDefinition_of_settled (function : FunctionId) (environment : Environment)
    {before : Progress} (settled : before.store.NoOverloadIs .pending) :
    engine.evaluateDefinition function environment before = .ok () before :=
  evaluateDefinition_of_none environment fun _ inside => settled.state_ne inside

theorem evaluateDefinition_parallel (settled : origin.NoOverloadIs .pending)
    (function : FunctionId) :
    (engine.evaluateDefinition function).StaysParallel origin made bases := by
  intro environment first second parallel
  have firstSettled : first.store.NoOverloadIs .pending := by
    rw [NoOverloadIs, parallel.stores.functions]
    exact settled
  have secondSettled : second.store.NoOverloadIs .pending := by
    rw [NoOverloadIs, parallel.stores.sameFunctions]
    exact settled
  rw [evaluateDefinition_of_settled function environment firstSettled,
    evaluateDefinition_of_settled function environment secondSettled]
  exact .ok () parallel

/-- The engine of every depth keeps two runs in parallel. -/
theorem atDepth_parallel (closed : origin.Closed) (settled : origin.NoOverloadIs .pending)
    (depth : Nat) : (Engine.atDepth depth).KeepsParallel origin made bases := by
  induction depth with
  | zero => exact ⟨fun _ => .throw _, fun _ _ => .throw _⟩
  | succ depth inductionHypothesis =>
    exact
      { evaluateFunction := evaluateDefinition_parallel settled
        specialize := fun old arguments =>
          specializeClass_parallel closed inductionHypothesis old arguments }

end Engine

end TypeInference
