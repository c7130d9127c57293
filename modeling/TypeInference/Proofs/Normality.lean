import TypeInference.Proofs.Watches

/-!
# Normal form

A value is in normal form if the unknown type is nowhere in it, neither as a value nor as the type
of an object, and each union in it has several alternatives, which are types and objects, no two
of them of one kind and one type. This goes for the items, keys, entries and elements of its
content as well.

Grounded progress has no other values: neither the unknown type nor a union that is not separate
is among what a store has. So all values that the analysis of a module keeps, and all that it
evaluates expressions to, are in normal form.
-/

namespace TypeInference

instance (ty : Ty) : Decidable (ty = .unknown) :=
  match ty with
  | .unknown => .isTrue rfl
  | .cls _ | .parameter _ | .function _ | .marker _ => .isFalse nofun

namespace Store

mutual

/-- Whether a value is in normal form. -/
def IsNormal (store : Store) : Value → Prop
  | .unknown => True
  | .type ty => ty ≠ .unknown
  | .object ty .plain => ty ≠ .unknown
  | .object ty (.constant _) => ty ≠ .unknown
  | .object ty (.sequence ⟨items, _⟩) => ty ≠ .unknown ∧ store.AreNormal items
  | .object ty (.mapping ⟨entries, _⟩) => ty ≠ .unknown ∧ store.AreNormalEntries entries
  | .object ty (.iterator element) => ty ≠ .unknown ∧ store.IsNormal element
  | .union alternatives => store.Separate alternatives ∧ store.AreNormal alternatives

/-- Whether all of some values are in normal form. -/
def AreNormal (store : Store) : List Value → Prop
  | [] => True
  | value :: rest => store.IsNormal value ∧ store.AreNormal rest

/-- Whether all keys and values of a mapping are in normal form. -/
def AreNormalEntries (store : Store) : List (Value × Value) → Prop
  | [] => True
  | (key, value) :: rest =>
    (store.IsNormal key ∧ store.IsNormal value) ∧ store.AreNormalEntries rest

end

mutual

/-- It can be decided whether a value is in normal form. -/
def decideNormal (store : Store) : ∀ value : Value, Decidable (store.IsNormal value)
  | .unknown => .isTrue trivial
  | .type ty | .object ty .plain | .object ty (.constant _) =>
    inferInstanceAs (Decidable (ty ≠ .unknown))
  | .object ty (.sequence ⟨items, _⟩) =>
    have := store.decideAllNormal items
    inferInstanceAs (Decidable (ty ≠ .unknown ∧ store.AreNormal items))
  | .object ty (.mapping ⟨entries, _⟩) =>
    have := store.decideNormalEntries entries
    inferInstanceAs (Decidable (ty ≠ .unknown ∧ store.AreNormalEntries entries))
  | .object ty (.iterator element) =>
    have := store.decideNormal element
    inferInstanceAs (Decidable (ty ≠ .unknown ∧ store.IsNormal element))
  | .union alternatives =>
    have := store.decideAllNormal alternatives
    inferInstanceAs (Decidable (store.Separate alternatives ∧ store.AreNormal alternatives))

/-- The same for several values. -/
def decideAllNormal (store : Store) : ∀ values : List Value, Decidable (store.AreNormal values)
  | [] => .isTrue trivial
  | value :: rest =>
    have := store.decideNormal value
    have := store.decideAllNormal rest
    inferInstanceAs (Decidable (store.IsNormal value ∧ store.AreNormal rest))

/-- The same for the entries of a mapping. -/
def decideNormalEntries (store : Store) :
    ∀ entries : List (Value × Value), Decidable (store.AreNormalEntries entries)
  | [] => .isTrue trivial
  | (key, value) :: rest =>
    have := store.decideNormal key
    have := store.decideNormal value
    have := store.decideNormalEntries rest
    inferInstanceAs (Decidable ((store.IsNormal key ∧ store.IsNormal value) ∧
      store.AreNormalEntries rest))

end

instance (store : Store) (value : Value) : Decidable (store.IsNormal value) :=
  store.decideNormal value

section Forms

variable {store : Store} {known : References}

/-- A type that stands somewhere is not the unknown one, since the store does not have that. -/
theorem ne_unknown_of_stands (has : ∀ reference, known reference → store.Has reference) {ty : Ty}
    (stands : ty.Stands known) : ty ≠ .unknown := by
  rintro rfl
  exact has .vague stands

mutual

/-- What refers to what a store has is in normal form. -/
theorem isNormal_of_within (has : ∀ reference, known reference → store.Has reference) :
    ∀ value : Value, value.OnlyMentions known → store.IsNormal value
  | .unknown, _ => trivial
  | .type _, within | .object _ .plain, within | .object _ (.constant _), within =>
    ne_unknown_of_stands has within
  | .object _ (.sequence ⟨items, _⟩), within =>
    ⟨ne_unknown_of_stands has within.1, areNormal_of_within has items within.2⟩
  | .object _ (.mapping ⟨entries, _⟩), within =>
    ⟨ne_unknown_of_stands has within.1, areNormalEntries_of_within has entries within.2⟩
  | .object _ (.iterator element), within =>
    ⟨ne_unknown_of_stands has within.1, isNormal_of_within has element within.2⟩
  | .union alternatives, within =>
    ⟨(has _ within.1).1, areNormal_of_within has alternatives within.2⟩

theorem areNormal_of_within (has : ∀ reference, known reference → store.Has reference) :
    ∀ values : List Value, Value.AllMention known values → store.AreNormal values
  | [], _ => trivial
  | value :: rest, within =>
    ⟨isNormal_of_within has value within.1, areNormal_of_within has rest within.2⟩

theorem areNormalEntries_of_within (has : ∀ reference, known reference → store.Has reference) :
    ∀ entries : List (Value × Value), Value.EntriesMention known entries →
      store.AreNormalEntries entries
  | [], _ => trivial
  | (key, value) :: rest, within =>
    ⟨⟨isNormal_of_within has key within.1.1, isNormal_of_within has value within.1.2⟩,
      areNormalEntries_of_within has rest within.2⟩

end

end Forms

end Store

/-- Whether a value is a type parameter or an object of one. -/
def Value.isBare : Value → Bool
  | .type (.parameter _) => true
  | .object (.parameter _) _ => true
  | _ => false

namespace Store

variable {store : Store}

/-- What is not bare is left by erasure, what is bare becomes unknown. -/
theorem eraseParameters_of_isSingle {value : Value} (single : value.isSingle = true) :
    store.eraseParameters value = if value.isBare then .unknown else value := by
  match value with
  | .type (.parameter _) | .object (.parameter _) _ => simp [eraseParameters, Value.isBare]
  | .type .unknown | .type (.cls _) | .type (.function _) | .type (.marker _)
  | .object .unknown _ | .object (.cls _) _ | .object (.function _) _ | .object (.marker _) _ =>
    simp [eraseParameters, Value.isBare]

theorem eraseAll_eq_map (values : List Value) :
    store.eraseAll values = values.map store.eraseParameters := by
  induction values with
  | nil => rfl
  | cons value rest inductionHypothesis => rw [eraseAll, inductionHypothesis, List.map_cons]

/-- Erasure leaves a value in normal form as it is, unless an alternative of it is bare. -/
theorem eraseParameters_of_isNormal {value : Value} (normal : store.IsNormal value) :
    store.eraseParameters value =
      if value.alternatives.any Value.isBare then .unknown else value := by
  match value with
  | .unknown => rfl
  | .type ty | .object ty content =>
    rw [eraseParameters_of_isSingle rfl]
    simp [Value.alternatives]
  | .union alternatives =>
    have separate : store.Separate alternatives := normal.1
    rw [eraseParameters, eraseAll_eq_map, Value.alternatives]
    cases bare : alternatives.any Value.isBare with
    | true =>
      obtain ⟨alternative, listed, isBare⟩ := List.any_eq_true.mp bare
      refine if_pos (List.any_eq_true.mpr ⟨_, List.mem_map_of_mem listed, ?_⟩)
      rw [eraseParameters_of_isSingle (separate.single alternative listed), isBare]
      rfl
    | false =>
      have kept : alternatives.map store.eraseParameters = alternatives := by
        refine (List.map_congr_left fun alternative listed => ?_).trans (List.map_id _)
        rw [eraseParameters_of_isSingle (separate.single alternative listed),
          Bool.eq_false_iff.mpr (List.any_eq_false.mp bare alternative listed)]
        rfl
      rw [kept, union_of_separate separate]
      rfl

end Store

namespace Progress

/-- All values that are kept anywhere are in normal form: those of registered names, variables,
members of classes, defaults of parameters, and those that functions are declared and found to
return. -/
structure Normal (environment : Environment) (progress : Progress) : Prop where
  names : ∀ value ∈ environment.registry.names.values, progress.store.IsNormal value
  visible : ∀ scope ∈ progress.scopes.all.toList, ∀ found ∈ scope.entries,
    progress.store.IsNormal found.value
  members : ∀ record ∈ progress.store.classes.toList, ∀ value ∈ record.members.values,
    progress.store.IsNormal value
  defaults : ∀ record ∈ progress.store.functions.toList, ∀ overload ∈ record.overloads,
    ∀ parameter ∈ overload.parameters, ∀ value ∈ parameter.default, progress.store.IsNormal value
  declared : ∀ record ∈ progress.store.functions.toList, ∀ overload ∈ record.overloads,
    ∀ value ∈ overload.declaredReturn, progress.store.IsNormal value
  inferred : ∀ record ∈ progress.store.functions.toList, ∀ overload ∈ record.overloads,
    ∀ value ∈ overload.inferredReturns, progress.store.IsNormal value

variable {environment : Environment} {before : Progress}

instance (environment : Environment) (progress : Progress) :
    Decidable (progress.Normal environment) :=
  decidable_of_iff
    ((∀ value ∈ environment.registry.names.values, progress.store.IsNormal value) ∧
      (∀ scope ∈ progress.scopes.all.toList, ∀ found ∈ scope.entries,
        progress.store.IsNormal found.value) ∧
      (∀ record ∈ progress.store.classes.toList, ∀ value ∈ record.members.values,
        progress.store.IsNormal value) ∧
      ∀ record ∈ progress.store.functions.toList, ∀ overload ∈ record.overloads,
        (∀ parameter ∈ overload.parameters, ∀ value ∈ parameter.default,
          progress.store.IsNormal value) ∧
        (∀ value ∈ overload.declaredReturn, progress.store.IsNormal value) ∧
        ∀ value ∈ overload.inferredReturns, progress.store.IsNormal value)
    ⟨fun ⟨names, visible, members, overloads⟩ => ⟨names, visible, members,
        fun record listed overload among => (overloads record listed overload among).1,
        fun record listed overload among => (overloads record listed overload among).2.1,
        fun record listed overload among => (overloads record listed overload among).2.2⟩,
      fun normal => ⟨normal.names, normal.visible, normal.members,
        fun record listed overload among => ⟨normal.defaults record listed overload among,
          normal.declared record listed overload among,
          normal.inferred record listed overload among⟩⟩⟩

/-- Progress that was normal and is. -/
def StaysNormal (environment : Environment) (before after : Progress) : Prop :=
  before.Normal environment ∧ after.Normal environment

instance (environment : Environment) (before after : Progress) :
    Decidable (before.StaysNormal environment after) :=
  inferInstanceAs (Decidable (_ ∧ _))

namespace Grounded

/-- What grounded progress may refer to is in normal form. -/
theorem isNormal (grounded : before.Grounded environment) {value : Value}
    (within : Within grounded.references value) : before.store.IsNormal value :=
  Store.isNormal_of_within (fun _ => id) value within

theorem normal (grounded : before.Grounded environment) : before.Normal environment := by
  have kept {α : Type} [Inhabited α] {records : Array α} {record : α}
      (listed : record ∈ records.toList) : ∃ index : Nat, records[index]?.getD default = record := by
    obtain ⟨index, found⟩ := List.getElem?_of_mem listed
    exact ⟨index, by rw [← Array.getElem?_toList, found]; rfl⟩
  have overloads {record : FunctionRecord} (listed : record ∈ before.store.functions.toList) :
      Within grounded.references record.overloads := by
    obtain ⟨index, rfl⟩ := kept listed
    exact (grounded.stored.2 ⟨index⟩).1
  refine ⟨fun value listed => grounded.isNormal (grounded.registered value listed), ?_, ?_, ?_, ?_,
    ?_⟩
  · intro scope listed found among
    obtain ⟨index, rfl⟩ := kept listed
    exact grounded.isNormal (grounded.visible ⟨index⟩ found among)
  · intro record listed value among
    obtain ⟨index, rfl⟩ := kept listed
    exact grounded.isNormal ((grounded.stored.1 ⟨index⟩).members value among)
  · intro record listed overload among parameter passed value given
    exact grounded.isNormal ((overloads listed overload among).1 parameter passed |>.2 value given)
  · intro record listed overload among value given
    exact grounded.isNormal ((overloads listed overload among).2.1 value given)
  · intro record listed overload among value given
    exact grounded.isNormal ((overloads listed overload among).2.2 value given)

/-- Expressions are evaluated to values in normal form. -/
theorem evaluate (grounded : before.Grounded environment) (depth : Nat) (reach : Reach)
    (expression : Expression) {value : Value} {after : Progress}
    (returned : (Engine.atDepth depth).evaluate reach expression environment before =
      .ok value after) :
    after.Grounded environment ∧ after.store.IsNormal value := by
  have evaluates : (Logic.grounding Bool).Holds grounded.references fun looks =>
      (Engine.inspectedIf depth looks).evaluate reach expression :=
    Engine.evaluate_holds (Engine.areGrounded_inspectedIf depth _) reach fun _ _ _ _ => trivial
  cases evaluates environment before grounded fun _ => id with
  | failed failed => cases returned.symm.trans (failed false)
  | returned same _ left within =>
    cases returned.symm.trans (same false)
    exact ⟨left, left.isNormal within⟩

/-- The globals of a module have values in normal form. -/
theorem globals (grounded : before.Grounded environment) (depth : Nat) (module : Module)
    {globals : List Variable} {after : Progress}
    (returned : Analysis.ofModuleWithin depth module environment before = .ok globals after) :
    ∀ found ∈ globals, after.store.IsNormal found.value := by
  intro found listed
  have analyzed := Grounds.ofModuleBy (Engine.areGrounded_inspectedIf depth) grounded depth module
  cases analyzed with
  | failed failed => cases returned.symm.trans (failed false)
  | returned same _ left within =>
    cases returned.symm.trans (same false)
    exact left.isNormal (within found listed)

end Grounded

end Progress

/-- Values stay in normal form. Whatever comes of the analysis of a module by a new analyzer, it
passes through progress in which all values that are kept anywhere are in normal form. So are the
values that expressions are evaluated to, in any progress that refers to what its store has and at
any depth, and the values of the globals that are returned. And it does not matter whether every
nested evaluation and specialization is watched for values in normal form.

Proof: all progress that is passed through is grounded, and what that may refer to is in normal
form. -/
theorem Analysis.values_normal (options : Options) (depth : Nat) (module : Module) :
    let environment : Environment := ⟨Registry.standard.registry, options⟩
    let before : Progress := { store := Registry.standard.store }
    let analysis := Analysis.ofModuleWithin depth module
    (∃ states, before.Passes environment states (analysis.after environment before) ∧
      ∀ state ∈ before :: states, state.Grounded environment ∧ state.Normal environment) ∧
    (∀ state : Progress, state.Grounded environment →
      ∀ depth reach expression value after,
        (Engine.atDepth depth).evaluate reach expression environment state = .ok value after →
          after.Grounded environment ∧ after.Normal environment ∧ after.store.IsNormal value) ∧
    (∀ globals after, analysis environment before = .ok globals after →
      ∀ found ∈ globals, after.store.IsNormal found.value) ∧
    Analysis.ofModuleBy (Engine.watchedAtDepth Progress.StaysNormal depth) depth module
        environment before =
      analysis environment before := by
  intro environment before analysis
  have grounded : before.Grounded environment := .initial options
  refine ⟨?_, ?_, ?_, ?_⟩
  · have analyzed := grounded.after_ofModuleWithin depth module
    obtain ⟨states, passes, all⟩ := analyzed.1.leads.passes grounded
    exact ⟨states, passes, fun state passed => ⟨all state passed, (all state passed).normal⟩⟩
  · intro state grounded depth reach expression value after returned
    obtain ⟨left, normal⟩ := grounded.evaluate depth reach expression returned
    exact ⟨left, left.normal, normal⟩
  · exact fun _ _ returned => grounded.globals depth module returned
  · exact Analysis.ofModuleBy_watched (fun before _ after => ⟨before.normal, after.normal⟩)
      grounded depth module

/-- A union of an object of integers and one of strings is in normal form, one of two objects of
integers is not. -/
example :
    let store := Registry.standard.store
    let number := store.builtinObject .int
    store.IsNormal (.union [number, store.builtinObject .str]) ∧
      ¬store.IsNormal (.union [number, number]) := by
  decide +kernel

end TypeInference
