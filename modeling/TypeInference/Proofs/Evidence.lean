import TypeInference.Generics.Sampling

/-!
# What arguments show

Arguments bind the parameters of a template and no others, each in its place, whatever they
show of them. So bindings are known by the types in them.

The arguments that show nothing by themselves are given to open parameters in turn, and then chains
are followed. Both go on by binding one parameter after the other, so what such a bind keeps holds
in the end.
-/

namespace TypeInference

namespace Bindings

/-- A parameter that is among the keys is bound. -/
theorem contains_of_mem_keys {bindings : Bindings} {parameter : TypeParameter}
    (listed : parameter ∈ bindings.keys) : bindings.contains parameter = true := by
  have inEntries (entries : List (TypeParameter × Ty)) (among : parameter ∈ entries.map (·.1)) :
      (findIn parameter.hash entries).isSome = true := by
    induction entries with
    | nil => cases among
    | cons entry rest inductionHypothesis =>
      rw [findIn]
      split
      · rfl
      · next other =>
        refine inductionHypothesis ((List.mem_cons.mp among).resolve_left fun same => other ?_)
        rw [same]
  exact inEntries bindings.entries listed

theorem keys_bind_of_contains {bindings : Bindings} {parameter : TypeParameter}
    (bound : bindings.contains parameter = true) (ty : Ty) :
    (bindings.bind parameter ty).keys = bindings.keys := by
  rw [keys_bind, if_pos bound]

/-- Bindings with the same parameters and types are the same. -/
theorem eq_of_keys_types {first second : Bindings} (keys : first.keys = second.keys)
    (types : first.types = second.types) : first = second := by
  have same : first.entries = second.entries :=
    (List.zip_of_prod keys types).trans (List.zip_of_prod rfl rfl).symm
  cases first
  cases second
  exact congrArg Bindings.mk same

/-- What is found for an identity was bound to a parameter of that identity. -/
theorem mem_of_findIn {hash : TypeHash} {entries : List (TypeParameter × Ty)} {ty : Ty}
    (found : findIn hash entries = some ty) : ∃ key, (key, ty) ∈ entries ∧ key.hash = hash := by
  induction entries with
  | nil => cases found
  | cons entry rest inductionHypothesis =>
    rw [findIn] at found
    split at found
    · next same =>
      cases found
      exact ⟨entry.1, List.mem_cons_self, same⟩
    · obtain ⟨key, listed, same⟩ := inductionHypothesis found
      exact ⟨key, List.mem_cons_of_mem _ listed, same⟩

theorem mem_entries_of_find? {bindings : Bindings} {parameter : TypeParameter} {ty : Ty}
    (found : bindings.find? parameter = some ty) :
    ∃ key, (key, ty) ∈ bindings.entries ∧ key.hash = parameter.hash :=
  mem_of_findIn found

/-- What is found is among the types. -/
theorem mem_types_of_find? {bindings : Bindings} {parameter : TypeParameter} {ty : Ty}
    (found : bindings.find? parameter = some ty) : ty ∈ bindings.types := by
  obtain ⟨key, listed, -⟩ := mem_entries_of_find? found
  exact List.mem_map.mpr ⟨_, listed, rfl⟩

/-- A bind brings in no other type than the one that it is given. -/
theorem mem_types_bind {bindings : Bindings} {parameter : TypeParameter} {ty other : Ty}
    (listed : other ∈ (bindings.bind parameter ty).types) :
    other = ty ∨ other ∈ bindings.types := by
  have inEntries (entries : List (TypeParameter × Ty))
      (listed : other ∈ (bindIn parameter ty entries).map (·.2)) :
      other = ty ∨ other ∈ entries.map (·.2) := by
    induction entries with
    | nil => exact .inl (List.mem_singleton.mp listed)
    | cons entry rest inductionHypothesis =>
      rw [bindIn] at listed
      split at listed
      · rcases List.mem_cons.mp listed with same | later
        · exact .inl same
        · exact .inr (List.mem_cons_of_mem _ later)
      · rcases List.mem_cons.mp listed with same | later
        · exact .inr (same ▸ List.mem_cons_self)
        · exact (inductionHypothesis later).imp id (List.mem_cons_of_mem _)
  exact inEntries bindings.entries listed

/-- Only the identity of a parameter decides whether it is open. -/
theorem isUnresolved_congr {bindings : Bindings} {first second : TypeParameter}
    (same : first.hash = second.hash) :
    bindings.isUnresolved first = bindings.isUnresolved second := by
  unfold isUnresolved find?
  rw [same]

/-- A parameter that is unresolved is not bound, or is bound to itself. -/
theorem isUnresolved_iff {bindings : Bindings} {parameter : TypeParameter} :
    bindings.isUnresolved parameter = true ↔ ∀ ty, bindings.find? parameter = some ty →
      ∃ target, ty = .parameter target ∧ target.hash = parameter.hash := by
  unfold isUnresolved
  cases bindings.find? parameter with
  | none => exact iff_of_true rfl fun _ impossible => nomatch impossible
  | some ty =>
    cases ty with
    | parameter target => simp
    | unknown | cls _ | function _ | marker _ => simp

/-- Whether nothing is to be followed after a type: it is no parameter, or an open one. -/
def ends (bindings : Bindings) (ty : Ty) : Bool :=
  ty.asParameter?.all bindings.isUnresolved

/-- To follow a parameter changes nothing, if its type ends chains, or gives it the type of another
one that it was bound to and that is resolved. -/
theorem followOne_cases (state : Bindings × Bool) (parameter : TypeParameter) :
    (followOne state parameter = state ∧
      ∀ ty, state.1.find? parameter = some ty → state.1.ends ty = true) ∨
    ∃ target ty, state.1.find? parameter = some (.parameter target) ∧
      target.hash ≠ parameter.hash ∧ state.1.isUnresolved target = false ∧
        state.1.find? target = some ty ∧
          followOne state parameter = (state.1.bind parameter ty, true) := by
  unfold followOne
  split
  · next target found =>
    have isTarget {ty : Ty} (bound : state.1.find? parameter = some ty) : ty = .parameter target :=
      Option.some.inj (bound.symm.trans found)
    split
    · next stops =>
      rw [Bool.or_eq_true, decide_eq_true_eq] at stops
      refine .inl ⟨rfl, fun ty bound => isTarget bound ▸ ?_⟩
      rcases stops with itself | isOpen
      · have sameBound : state.1.find? target = state.1.find? parameter := by
          rw [find?, find?, itself]
        exact isUnresolved_iff.mpr fun ty reached => ⟨target, isTarget (sameBound ▸ reached), rfl⟩
      · exact isOpen
    · next resolved =>
      rw [Bool.or_eq_true, decide_eq_true_eq, not_or, Bool.not_eq_true] at resolved
      cases bound : state.1.find? target with
      | none =>
        refine absurd (isUnresolved_iff.mpr fun ty reached => ?_) (Bool.eq_false_iff.mp resolved.2)
        cases bound.symm.trans reached
      | some ty => exact .inr ⟨target, ty, found, resolved.1, resolved.2, bound, rfl⟩
  · next other =>
    refine .inl ⟨rfl, fun ty bound => ?_⟩
    cases ty with
    | parameter target => exact absurd bound (other target)
    | unknown | cls _ | function _ | marker _ => rfl

/-- What holds of bindings holds after chains were followed, if following a parameter one step
keeps it. The inductions are on the rounds, and in each on the parameters. -/
theorem followChains_induction {motive : Bindings → Prop}
    (kept : ∀ {bindings : Bindings} {parameter target : TypeParameter} {ty : Ty},
      bindings.find? parameter = some (.parameter target) → target.hash ≠ parameter.hash →
        bindings.isUnresolved target = false → bindings.find? target = some ty →
          motive bindings → motive (bindings.bind parameter ty))
    {bindings : Bindings} (initially : motive bindings) (parameters : List TypeParameter) :
    motive (bindings.followChains parameters) := by
  have round (followed : List TypeParameter) :
      ∀ state : Bindings × Bool, motive state.1 →
        motive (followed.foldl followOne state).1 := by
    induction followed with
    | nil => exact fun _ => id
    | cons parameter rest inductionHypothesis =>
      intro state holds
      refine inductionHypothesis _ ?_
      rcases followOne_cases state parameter with
        ⟨same, -⟩ | ⟨target, ty, found, apart, on, bound, now⟩
      · rw [same]
        exact holds
      · rw [now]
        exact kept found apart on bound holds
  have rounds (count : Nat) :
      ∀ bindings : Bindings, motive bindings →
        motive (followRounds parameters count bindings) := by
    induction count with
    | zero => exact fun _ => id
    | succ count inductionHypothesis =>
      intro bindings holds
      have once := round parameters (bindings, false) holds
      rw [followRounds]
      dsimp only
      split
      · exact inductionHypothesis _ once
      · exact once
  exact rounds _ bindings initially

theorem keys_followChains (bindings : Bindings) (parameters : List TypeParameter) :
    (bindings.followChains parameters).keys = bindings.keys := by
  refine followChains_induction (motive := fun followed => followed.keys = bindings.keys) ?_ rfl
    parameters
  intro followed parameter target ty found _ _ _ same
  rw [keys_bind_of_contains (by rw [contains, found]; rfl), same]

end Bindings

namespace Evidence

theorem keys_bindSample (evidence : Evidence) (store : Store) (parameter : TypeParameter)
    (sample : Option Value) :
    (evidence.bindSample store parameter sample).bindings.keys = evidence.bindings.keys := by
  unfold bindSample
  split
  · split
    · next bound => exact Bindings.keys_bind_of_contains (by simp_all) _
    · rfl
  · rfl

theorem keys_sampleBases? {evidence sampled : Evidence} {store : Store} {template : ClassId}
    {value : Value} (shown : evidence.sampleBases? store template value = some sampled) :
    sampled.bindings.keys = evidence.bindings.keys := by
  have based (ty : Ty) : (evidence.addBase store template ty).bindings = evidence.bindings := by
    unfold addBase
    split <;> rfl
  have samples (pairs : List (TypeParameter × Option Value)) (start : Evidence) :
      (pairs.foldl (fun evidence sample => evidence.bindSample store sample.1 sample.2)
        start).bindings.keys = start.bindings.keys := by
    induction pairs generalizing start with
    | nil => rfl
    | cons pair rest inductionHypothesis =>
      rw [List.foldl_cons, inductionHypothesis, keys_bindSample]
  unfold sampleBases? at shown
  dsimp only at shown
  split at shown
  · obtain ⟨base, _, rfl⟩ := Option.map_eq_some_iff.mp shown
    split
    · rw [samples, based]
    · rw [based]
  · cases shown

theorem keys_takeArgument (store : Store) (template : ClassId) (evidence : Evidence)
    (argument : Argument) :
    (takeArgument store template evidence argument).bindings.keys = evidence.bindings.keys := by
  unfold takeArgument
  dsimp only
  split
  · next parameter declared =>
    split
    · rfl
    · exact Bindings.keys_bind_of_contains (Option.filter_eq_some_iff.mp declared).2 _
  · split
    · next sampled shown =>
      split at shown
      · exact keys_sampleBases? shown
      · cases shown
    · split <;> rfl

/-- What holds of bindings holds after the rest of the arguments, if binding an open parameter to
the known type of an argument keeps it. The induction is on the parameters. -/
theorem bindRemaining_induction {store : Store} {motive : Bindings → Prop}
    {parameters : List TypeParameter} {arguments : List Argument}
    (kept : ∀ parameter ∈ parameters, ∀ argument ∈ arguments, ∀ bindings : Bindings,
      bindings.isUnresolved parameter = true → (store.typeOf argument.value).isUnknown = false →
        motive bindings → motive (bindings.bind parameter (store.typeOf argument.value)))
    {bindings : Bindings} (initially : motive bindings) :
    motive (bindRemaining store parameters arguments bindings) := by
  induction parameters generalizing arguments bindings with
  | nil => exact initially
  | cons parameter rest inductionHypothesis =>
    obtain ⟨own, others⟩ := List.forall_mem_cons.mp kept
    unfold bindRemaining
    split
    · next unresolved =>
      cases arguments with
      | nil => exact initially
      | cons argument more =>
        refine inductionHypothesis
          (fun parameter among => (List.forall_mem_cons.mp (others parameter among)).2) ?_
        split
        · exact initially
        · next known =>
          exact own argument List.mem_cons_self bindings unresolved (Bool.eq_false_iff.mpr known)
            initially
    · exact inductionHypothesis others initially

theorem keys_bindRemaining (store : Store) (parameters : List TypeParameter)
    (arguments : List Argument) (bindings : Bindings)
    (listed : ∀ parameter ∈ parameters, parameter ∈ bindings.keys) :
    (bindRemaining store parameters arguments bindings).keys = bindings.keys := by
  refine bindRemaining_induction (motive := fun bound => bound.keys = bindings.keys) ?_ rfl
  intro parameter among argument _ bound _ _ same
  rw [Bindings.keys_bind_of_contains (Bindings.contains_of_mem_keys (same ▸ listed _ among)), same]

/-- What a parameter is found with stays, if the parameter is resolved or none of those that are
filled. -/
theorem find?_bindRemaining_of_kept {store : Store} {asked : TypeParameter}
    {parameters : List TypeParameter} {arguments : List Argument} {bindings : Bindings}
    (kept : asked.hash ∉ parameters.map TypeParameter.hash ∨ bindings.isUnresolved asked = false) :
    (bindRemaining store parameters arguments bindings).find? asked = bindings.find? asked := by
  refine bindRemaining_induction
    (motive := fun bound => bound.find? asked = bindings.find? asked) ?_ rfl
  intro parameter among argument _ bound unresolved _ same
  have apart : parameter.hash ≠ asked.hash := by
    intro itself
    rcases kept with absent | resolved
    · exact absent (itself ▸ List.mem_map_of_mem among)
    · rw [Bindings.isUnresolved_congr itself, Bindings.isUnresolved, same] at unresolved
      exact Bool.false_ne_true (resolved.symm.trans unresolved)
  rw [Bindings.find?_bind, if_neg apart, same]

theorem keys_ofArguments (store : Store) (template : ClassId) (parameters : List TypeParameter)
    (arguments : Arguments) :
    (ofArguments store template parameters arguments).bindings.keys = parameters := by
  have taken (given : List Argument) (start : Evidence) :
      (given.foldl (takeArgument store template) start).bindings.keys = start.bindings.keys := by
    induction given generalizing start with
    | nil => rfl
    | cons argument rest inductionHypothesis =>
      rw [List.foldl_cons, inductionHypothesis, keys_takeArgument]
  have initially : (Bindings.identity parameters).keys = parameters := by
    simp [Bindings.keys, Bindings.identity, Function.comp_def]
  have shown := (taken arguments.list { bindings := .identity parameters }).trans initially
  unfold ofArguments
  dsimp only
  rw [Bindings.keys_followChains, keys_bindRemaining _ _ _ _ fun parameter among => by
    rw [shown]; exact among, shown]

theorem bases_bindSample (evidence : Evidence) (store : Store) (parameter : TypeParameter)
    (sample : Option Value) :
    (evidence.bindSample store parameter sample).bases = evidence.bases := by
  unfold bindSample
  split
  · split <;> rfl
  · rfl

/-- A value shows classes as bases. -/
theorem unmarked_sampleBases? {evidence sampled : Evidence} {store : Store} {template : ClassId}
    {value : Value} (unmarked : ∀ base ∈ evidence.bases, base.asMarker? = none)
    (shown : evidence.sampleBases? store template value = some sampled) :
    ∀ base ∈ sampled.bases, base.asMarker? = none := by
  have samples (pairs : List (TypeParameter × Option Value)) (start : Evidence) :
      (pairs.foldl (fun evidence sample => evidence.bindSample store sample.1 sample.2)
        start).bases = start.bases := by
    induction pairs generalizing start with
    | nil => rfl
    | cons pair rest inductionHypothesis =>
      rw [List.foldl_cons, inductionHypothesis, bases_bindSample]
  have based (found : ClassId) : ∀ base ∈ (evidence.addBase store template (.cls found)).bases,
      base.asMarker? = none := by
    unfold addBase
    split
    · exact unmarked
    · exact List.forall_mem_append.mpr ⟨unmarked, List.forall_mem_singleton.mpr rfl⟩
  unfold sampleBases? at shown
  dsimp only at shown
  split at shown
  · next found typed =>
    obtain ⟨base, _, rfl⟩ := Option.map_eq_some_iff.mp shown
    rw [typed]
    split
    · rw [samples]
      exact based found
    · exact based found
  · cases shown

/-- No arguments show a marker as a base. -/
theorem unmarked_ofArguments (store : Store) (template : ClassId)
    (parameters : List TypeParameter) (arguments : Arguments) :
    ∀ base ∈ (ofArguments store template parameters arguments).bases,
      base.asMarker? = none := by
  have taken (given : List Argument) : ∀ start : Evidence,
      (∀ base ∈ start.bases, base.asMarker? = none) →
        ∀ base ∈ (given.foldl (takeArgument store template) start).bases,
          base.asMarker? = none := by
    induction given with
    | nil => exact fun _ unmarked => unmarked
    | cons argument rest inductionHypothesis =>
      intro start unmarked
      refine inductionHypothesis _ ?_
      unfold takeArgument
      dsimp only
      split
      · split <;> exact unmarked
      · split
        · next sampled shown =>
          split at shown
          · exact unmarked_sampleBases? unmarked shown
          · cases shown
        · split <;> exact unmarked
  exact taken arguments.list _ fun _ impossible => nomatch impossible

end Evidence

end TypeInference
