import TypeInference.Proofs.Operations
import TypeInference.Proofs.Standard

/-!
# Specialization is memoized

A template answers a resolved signature by its finished specialization, or else
by the placeholder of an unfinished one. No step changes an answer but the one
that abandons the specialization; a specialization that finishes is stored as the
very placeholder that was the answer before. A request that gives a result gives
the answer of its template, so requests for one signature agree across a run as
long as no specialization for it is abandoned in between.
-/

namespace TypeInference

namespace Store

/-- The class that a template has for a resolved signature. -/
def answer? (store : Store) (template : ClassId) (signature : ResolvedSignature) :
    Option ClassId :=
  ((store.classAt template).specializations.find? signature).or
    (Engine.unfinished? store template signature)

/-- Every signature has at most one finished specialization of a template. -/
def DistinctSignatures (store : Store) : Prop :=
  ∀ template, (store.classAt template).specializations.keys.Nodup

/-- A stored specialization is found, and every other signature keeps its own. -/
theorem find?_store (cache : SpecializationCache) (stored asked : ResolvedSignature)
    (specialized : ClassId) :
    (cache.store stored specialized).find? asked =
      if stored = asked then (cache.find? asked).or (some specialized) else cache.find? asked := by
  unfold SpecializationCache.store OrderedTable.putNew
  split
  · next known =>
    split
    · next same =>
      subst same
      obtain ⟨found, finds⟩ := Option.isSome_iff_exists.mp known
      rw [finds]
      rfl
    · rfl
  · next unknown =>
    rw [OrderedTable.find?_put]
    split
    · next same =>
      subst same
      rw [OrderedTable.contains, Bool.not_eq_true, Option.isSome_eq_false_iff,
        Option.isNone_iff_eq_none] at unknown
      rw [unknown]
      rfl
    · rfl

/-- Storing a specialization keeps signatures distinct. -/
theorem nodup_keys_store (cache : SpecializationCache) (signature : ResolvedSignature)
    (specialized : ClassId) (distinct : cache.keys.Nodup) :
    (cache.store signature specialized).keys.Nodup := by
  unfold SpecializationCache.store OrderedTable.putNew
  split
  · exact distinct
  · exact cache.nodup_keys_put signature specialized distinct

/-- The placeholder that leads a stack is found for its signature, and the rest of
the stack is asked for every other one. -/
theorem find?_cons (hash : TypeHash) (first : Unfinished) (rest : List Unfinished)
    (signature : ResolvedSignature) (its : first.template = hash) :
    UnfinishedStack.find? ⟨first :: rest⟩ hash signature =
      if first.signature = signature then some first.placeholder
      else UnfinishedStack.find? ⟨rest⟩ hash signature := by
  unfold UnfinishedStack.find?
  by_cases same : first.signature = signature
  · simp [its, same]
  · simp [its, same]

/-- The answer of a template whose innermost unfinished specialization is known. -/
theorem answer?_of_entries {store : Store} {template placeholder : ClassId}
    {current : ResolvedSignature} {rest : List Unfinished}
    (entries : (store.classAt template).unfinished.entries =
      ⟨(store.classAt template).hash, current, placeholder⟩ :: rest)
    (signature : ResolvedSignature) :
    store.answer? template signature =
      ((store.classAt template).specializations.find? signature).or
        (if current = signature then some placeholder
          else UnfinishedStack.find? ⟨rest⟩ (store.classAt template).hash signature) := by
  rw [← find?_cons _ ⟨(store.classAt template).hash, current, placeholder⟩ _ _ rfl, ← entries]
  rfl

namespace Step

variable {confined : Prop} {store next : Store} {event : Event}

/-- A specialization begins where the template has no answer. -/
theorem answer?_of_begun {template placeholder : ClassId} {signature : ResolvedSignature}
    (step : Step confined store (.begun template signature placeholder) next) :
    store.answer? template signature = none := by
  cases step with
  | begin _ bindings present uncached idle => rw [Store.answer?, uncached, idle]; rfl

/-- The cache and the stack of a template change where a specialization of it begins, is finished or
is abandoned, and else not. -/
theorem after_of_unconcerned {event : Event} {template : ClassId}
    (unconcerned : ¬∃ signature placeholder, event = .begun template signature placeholder ∨
      event = .finished template signature placeholder ∨
      event = .abandoned template signature placeholder)
    (cache : SpecializationCache) (hash : TypeHash) (entries : List Unfinished) :
    event.cacheAfter template cache = cache ∧ event.stackAfter template hash entries = entries := by
  cases event with
  | begun other signature placeholder =>
    have apart : template ≠ other := by
      rintro rfl
      exact unconcerned ⟨_, _, .inl rfl⟩
    exact ⟨rfl, if_neg apart⟩
  | finished other signature placeholder =>
    have apart : template ≠ other := by
      rintro rfl
      exact unconcerned ⟨_, _, .inr (.inl rfl)⟩
    exact ⟨if_neg apart, if_neg apart⟩
  | abandoned other signature placeholder =>
    have apart : template ≠ other := by
      rintro rfl
      exact unconcerned ⟨_, _, .inr (.inr rfl)⟩
    exact ⟨rfl, if_neg apart⟩
  | _ => exact ⟨rfl, rfl⟩

/-- No step changes the answer of a template, unless it abandons a specialization
for the very signature. Only beginnings and ends touch what an answer is read from. -/
theorem answer? (step : Step confined store event next) {template answer : ClassId}
    {signature : ResolvedSignature} (answered : store.answer? template signature = some answer)
    (unfailed : ∀ placeholder, event ≠ .abandoned template signature placeholder) :
    next.answer? template signature = some answer := by
  have present : store.HasClass template := by
    refine Decidable.byContradiction fun outside => ?_
    rw [Store.answer?, Engine.unfinished?, classAt_of_not_hasClass store template outside]
      at answered
    cases answered
  have cache := step.specializations template
  have stack : (next.classAt template).unfinished = ⟨event.stackAfter template
      (store.classAt template).hash (store.classAt template).unfinished.entries⟩ :=
    congrArg UnfinishedStack.mk (step.unfinished template)
  have hash := (step.sameIdentity present).hash
  have goal : next.answer? template signature =
      ((event.cacheAfter template (store.classAt template).specializations).find? signature).or
        (UnfinishedStack.find? ⟨event.stackAfter template (store.classAt template).hash
          (store.classAt template).unfinished.entries⟩ (store.classAt template).hash
          signature) := by
    rw [Store.answer?, Engine.unfinished?, cache, stack, hash]
  rw [goal]
  -- Three steps touch the cache or the stack of the template: its specializations that
  -- begin, finish, or are abandoned.
  by_cases concerned : ∃ other placeholder, event = .begun template other placeholder ∨
      event = .finished template other placeholder ∨ event = .abandoned template other placeholder
  · obtain ⟨other, placeholder, rfl | rfl | rfl⟩ := concerned
    · -- Begun: where there is an answer none begins for the same signature.
      have apart : other ≠ signature := by
        rintro rfl
        rw [step.answer?_of_begun] at answered
        cases answered
      simp only [Event.cacheAfter, Event.stackAfter, if_true]
      rw [find?_cons _ _ _ _ rfl, if_neg apart]
      exact answered
    · -- Finished: the placeholder moves from the stack to the cache.
      obtain ⟨rest, entries⟩ := (step.isCurrent_of_ends .finished).entries
      rw [answer?_of_entries entries] at answered
      simp only [Event.cacheAfter, Event.stackAfter, if_true, entries, List.tail_cons,
        find?_store]
      by_cases same : other = signature
      · rw [if_pos same] at answered ⊢
        rw [answered]
        rfl
      · rw [if_neg same] at answered ⊢
        exact answered
    · -- Abandoned: the placeholder is gone, but it was not the answer.
      have apart : other ≠ signature := fun same => unfailed placeholder (same ▸ rfl)
      obtain ⟨rest, entries⟩ := (step.isCurrent_of_ends .abandoned).entries
      rw [answer?_of_entries entries, if_neg apart] at answered
      simp only [Event.cacheAfter, Event.stackAfter, if_true, entries, List.tail_cons]
      exact answered
  · have unchanged := after_of_unconcerned concerned (store.classAt template).specializations
      (store.classAt template).hash (store.classAt template).unfinished.entries
    rw [unchanged.1, unchanged.2]
    exact answered

/-- Signatures stay distinct. -/
theorem distinctSignatures (step : Step confined store event next)
    (distinct : store.DistinctSignatures) : next.DistinctSignatures := by
  intro template
  rw [step.specializations template]
  unfold Event.cacheAfter
  split
  · split
    · exact nodup_keys_store _ _ _ (distinct template)
    · exact distinct template
  · exact distinct template

end Step

namespace Course

variable {confined : Prop} {start store : Store} {events : List Event}

/-- Along a course the answer of a template stays, unless a specialization for the
very signature is abandoned. -/
theorem answer? (course : Course confined start events store) {template answer : ClassId}
    {signature : ResolvedSignature} (answered : start.answer? template signature = some answer)
    (unfailed : ∀ placeholder, .abandoned template signature placeholder ∉ events) :
    store.answer? template signature = some answer := by
  induction course with
  | still => exact answered
  | advance before step inductionHypothesis =>
    have earlier := inductionHypothesis fun placeholder listed =>
      unfailed placeholder (List.mem_append_left _ listed)
    exact step.answer? earlier fun placeholder same =>
      unfailed placeholder (List.mem_append_right _ (List.mem_singleton.mpr same.symm))

end Course

end Store

namespace Engine

open Analysis Store

/-- The template and the resolved signature that a request for a specialization
comes to; nothing if no parameter is resolved. The constructor of the template is
evaluated before the arguments are matched, as for the request itself. -/
def requested? : Nat → ClassId → Arguments → Analysis (Option (ClassId × ResolvedSignature))
  | 0, _, _ => throw .tooDeep
  | depth + 1, id, arguments => do
    match ((← Analysis.store).classAt id).template with
    | some template => requested? depth template arguments
    | none =>
      (Engine.atDepth depth).ensureConstructed id
      let store ← Analysis.store
      let parameters := store.typeParameters id
      let evidence := Evidence.ofArguments store id parameters arguments
      if parameters.all evidence.bindings.isUnresolved then return none
      return some (id, store.signature evidence.bindings)

/-- A specialization that is made is the answer of its template from then on. -/
theorem makeSpecialization_answers {engine : Engine} (proceeds : engine.Proceeds False)
    (template : ClassId) (evidence : Evidence) (environment : Environment)
    {before after : Progress} {result : ClassId} (present : before.store.HasClass template)
    (uncached : (before.store.classAt template).specializations.find?
      (before.store.signature evidence.bindings) = none)
    (idle : unfinished? before.store template (before.store.signature evidence.bindings) = none)
    (returned : engine.makeSpecialization template evidence environment before = .ok result after) :
    after.store.answer? template (before.store.signature evidence.bindings) = some result := by
  have began : Step False before.store (.begun template _ _) _ :=
    .begin before.store template evidence.bindings present uncached idle
  have outcome := makeSpecialization_outcome False proceeds template evidence
    environment before (fun _ _ _ _ impossible => impossible.elim) present uncached idle
  rw [returned] at outcome
  obtain ⟨made, making, _, left, stored⟩ := outcome
  have ended : Step False made (.finished template _ _) _ :=
    .finish made template _ _ (making.isCurrent began present) fun impossible => impossible.elim
  rw [left, Store.answer?, ended.specializations template, stored]
  simp only [Event.cacheAfter, if_true, find?_store, SpecializationCache.stored]
  cases (made.classAt template).specializations.find?
    (before.store.signature evidence.bindings) <;> rfl

/-- A request for a signature gives the answer that the template has, or else the
specialization is made. The induction is on the depth, since a specialization
passes the request on to its template. -/
theorem specialize_of_requested (depth : Nat) (id : ClassId) (arguments : Arguments)
    (environment : Environment) {before middle : Progress} {template : ClassId}
    {signature : ResolvedSignature}
    (requested : requested? depth id arguments environment before =
      .ok (some (template, signature)) middle) :
    (∃ answer, middle.store.answer? template signature = some answer ∧
      (Engine.atDepth depth).specialize id arguments environment before = .ok answer middle) ∨
    (middle.store.HasClass template ∧ ∃ deeper evidence,
      signature = middle.store.signature evidence.bindings ∧
        (middle.store.classAt template).specializations.find? signature = none ∧
        unfinished? middle.store template signature = none ∧
        (Engine.atDepth depth).specialize id arguments environment before =
          (Engine.atDepth deeper).makeSpecialization template evidence environment middle) := by
  induction depth generalizing id with
  | zero => cases requested
  | succ depth inductionHypothesis =>
    change _ ∨ _ ∧ ∃ deeper evidence, _ ∧ _ ∧ _ ∧
      specializeClass (Engine.atDepth depth) id arguments environment before = _
    change (∃ answer, _ ∧
      specializeClass (Engine.atDepth depth) id arguments environment before = _) ∨ _
    unfold specializeClass
    unfold requested? at requested
    rw [bind_apply, store_apply] at requested ⊢
    dsimp only at requested ⊢
    -- Both the request and its signature look at the template first.
    cases original : (before.store.classAt id).template with
    | some template =>
      rw [original] at requested
      exact inductionHypothesis template requested
    | none =>
      rw [original] at requested
      dsimp only at requested ⊢
      rw [bind_apply] at requested ⊢
      cases evaluated : (Engine.atDepth depth).ensureConstructed id environment before with
      | error failure constructed =>
        rw [evaluated] at requested
        cases requested
      | ok _ constructed =>
        rw [evaluated] at requested
        dsimp only at requested ⊢
        rw [bind_apply, store_apply] at requested ⊢
        dsimp only at requested ⊢
        -- From here on both read the same store, the one that the constructor has left.
        by_cases unresolved : (constructed.store.typeParameters id).all
            (Evidence.ofArguments constructed.store id (constructed.store.typeParameters id)
              arguments).bindings.isUnresolved = true
        · rw [if_pos unresolved] at requested
          cases requested
        · rw [if_neg unresolved] at requested ⊢
          cases requested
          generalize known : (Evidence.ofArguments middle.store template
            (middle.store.typeParameters template) arguments) = evidence at unresolved ⊢
          cases uncached : (middle.store.classAt template).specializations.find?
              (middle.store.signature evidence.bindings) with
          | some finished => exact .inl ⟨finished, by rw [Store.answer?, uncached]; rfl, rfl⟩
          | none =>
            cases idle : unfinished? middle.store template
                (middle.store.signature evidence.bindings) with
            | some placeholder =>
              exact .inl ⟨placeholder, by rw [Store.answer?, uncached, idle]; rfl, rfl⟩
            | none =>
              refine .inr ⟨hasClass_of_typeParameters (Bool.eq_false_iff.mpr unresolved), depth,
                evidence, rfl, ?_, ?_, rfl⟩ <;> rfl

/-- A request that gives a result gives the answer of its template. -/
theorem specialize_answers (depth : Nat) (id : ClassId) (arguments : Arguments)
    (environment : Environment) {before middle after : Progress} {result template : ClassId}
    {signature : ResolvedSignature}
    (requested : requested? depth id arguments environment before =
      .ok (some (template, signature)) middle)
    (returned : (Engine.atDepth depth).specialize id arguments environment before =
      .ok result after) :
    after.store.answer? template signature = some result := by
  rcases specialize_of_requested depth id arguments environment requested with
    ⟨answer, answered, given⟩ | ⟨present, deeper, evidence, rfl, uncached, idle, made⟩
  · cases given.symm.trans returned
    exact answered
  · exact makeSpecialization_answers (atDepth_proceeds deeper) template evidence environment
      present uncached idle (made.symm.trans returned)

/-- A request for a signature that has an answer gives it. In particular a request
for a specialization that is being made gives its placeholder. -/
theorem specialize_of_answered (depth : Nat) (id : ClassId) (arguments : Arguments)
    (environment : Environment) {before middle : Progress} {answer template : ClassId}
    {signature : ResolvedSignature}
    (requested : requested? depth id arguments environment before =
      .ok (some (template, signature)) middle)
    (answered : middle.store.answer? template signature = some answer) :
    (Engine.atDepth depth).specialize id arguments environment before = .ok answer middle := by
  rcases specialize_of_requested depth id arguments environment requested with
    ⟨other, known, given⟩ | ⟨_, _, _, _, uncached, idle, _⟩
  · cases known.symm.trans answered
    exact given
  · rw [Store.answer?, uncached, idle] at answered
    cases answered

/-- A request that, in some environment and at some depth, comes to a signature of
a template and gives a class. -/
def Gives (environment : Environment) (template : ClassId) (signature : ResolvedSignature)
    (before : Progress) (result : ClassId) (after : Progress) : Prop :=
  ∃ depth id arguments middle,
    requested? depth id arguments environment before = .ok (some (template, signature)) middle ∧
      (Engine.atDepth depth).specialize id arguments environment before = .ok result after

/-- A request develops the store by a course on which nothing is abandoned. -/
theorem Gives.course {environment : Environment} {template result : ClassId}
    {signature : ResolvedSignature} {before after : Progress}
    (gives : Gives environment template signature before result after) :
    ∃ events, Course False before.store events after.store ∧
      ∀ event ∈ events, ¬event.IsAbandonment := by
  obtain ⟨depth, id, arguments, middle, _, returned⟩ := gives
  have owned : before.store.Owned False := Operation.owned_unconfined _
  have proceeds : (atDepth depth).Proceeds False := atDepth_proceeds depth
  have reached := (proceeds.specialize id arguments).proceeds owned environment True before
    (.refl owned)
  rw [returned] at reached
  obtain ⟨events, course, quiet⟩ := Onward.course reached
  exact ⟨events, course, quiet trivial⟩

/-- A request gives the answer of its template. -/
theorem Gives.answer {environment : Environment} {template result : ClassId}
    {signature : ResolvedSignature} {before after : Progress}
    (gives : Gives environment template signature before result after) :
    after.store.answer? template signature = some result := by
  obtain ⟨depth, id, arguments, middle, requested, returned⟩ := gives
  exact specialize_answers depth id arguments environment requested returned

/-- Two requests for one signature of a template give the same class. They stand
anywhere in a run that starts with the registered classes, one after the other or
one while the other is being made; the one that gives its class first is named
first. In between anything may happen but that a specialization for the very
signature is abandoned. The template has at most one finished specialization for
every signature then. -/
theorem specialize_memoized {environment : Environment} {template : ClassId}
    {signature : ResolvedSignature} {before after laterBefore laterAfter : Progress}
    {result laterResult : ClassId} {history events : List Event}
    (reachable : Course False Registry.start.store history before.store)
    (first : Gives environment template signature before result after)
    (second : Gives environment template signature laterBefore laterResult laterAfter)
    (meanwhile : Course False after.store events laterAfter.store)
    (unfailed : ∀ placeholder, .abandoned template signature placeholder ∉ events) :
    laterResult = result ∧
      (laterAfter.store.classAt template).specializations.keys.Nodup := by
  have same : some result = some laterResult :=
    (meanwhile.answer? first.answer unfailed).symm.trans second.answer
  obtain ⟨own, making, _⟩ := first.course
  have whole := (reachable.append making).append meanwhile
  have initially : Registry.start.store.DistinctSignatures := fun template => by
    change (OrderedTable.entries _).map _ |>.Nodup
    rw [Registry.start, Registry.specializations_standard]
    exact List.nodup_nil
  exact ⟨(Option.some.inj same).symm,
    whole.invariant DistinctSignatures initially (fun step => step.distinctSignatures) template⟩

/-- A request for lists of integers, as far as its signature. -/
def integersRequested : Analysis (Option (ClassId × ResolvedSignature)) :=
  requested? 1 (builtinClass .list) (.ofTypes [builtinType .int] .unknown)

/-- A request for lists of integers. -/
def listOfIntegers : Analysis ClassId :=
  (Engine.atDepth 1).specialize (builtinClass .list) (.ofTypes [builtinType .int] .unknown)

/-- The signature of lists of integers. -/
def integerSignature : ResolvedSignature :=
  ⟨[Registry.standard.store.classHash (builtinClass .int)]⟩

/-- The progress after lists of integers were asked for. -/
def askedOnce : Progress :=
  listOfIntegers.after Registry.environment Registry.start

/-- The progress after lists of integers were asked for again. -/
def askedTwice : Progress :=
  integersRequested.after Registry.environment askedOnce

/-- The first request makes a class. -/
theorem gives_once :
    Gives Registry.environment (builtinClass .list) integerSignature Registry.start
      Registry.standard.store.nextClass askedOnce :=
  have requested : integersRequested Registry.environment Registry.start =
      .ok (some (builtinClass .list, integerSignature))
        (integersRequested.after Registry.environment Registry.start) :=
    ok_of_yields (by decide +kernel)
  have made : listOfIntegers Registry.environment Registry.start =
      .ok Registry.standard.store.nextClass askedOnce :=
    ok_of_yields (by decide +kernel)
  ⟨1, builtinClass .list, _, _, requested, made⟩

/-- The second request gives a class. -/
theorem gives_twice :
    Gives Registry.environment (builtinClass .list) integerSignature askedOnce
      Registry.standard.store.nextClass askedTwice := by
  have requested : integersRequested Registry.environment askedOnce =
      .ok (some (builtinClass .list, integerSignature)) askedTwice :=
    ok_of_yields (by decide +kernel)
  have unchanged : askedTwice.store.answer? (builtinClass .list) integerSignature =
      some Registry.standard.store.nextClass := by
    decide +kernel
  exact ⟨1, builtinClass .list, _, _, requested,
    specialize_of_answered 1 _ _ _ requested unchanged⟩

/-- Lists of integers that are asked for twice are one class. -/
theorem specialize_memoized_list :
    ∃ once twice,
      Gives Registry.environment (builtinClass .list) integerSignature Registry.start once
        askedOnce ∧
      Gives Registry.environment (builtinClass .list) integerSignature askedOnce twice
        askedTwice ∧
      twice = once ∧
        (askedTwice.store.classAt (builtinClass .list)).specializations.keys.Nodup := by
  obtain ⟨events, course, quiet⟩ := gives_twice.course
  exact ⟨_, _, gives_once, gives_twice,
    specialize_memoized .still gives_once gives_twice course fun placeholder listed =>
      quiet _ listed trivial⟩

end Engine

end TypeInference
