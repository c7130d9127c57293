import TypeInference.Proofs.Occurrences

/-!
# What substitution puts in place of types

Substitution goes through a value and looks at its types: at those that are values, and at those of
objects and of what they hold. Classes are specialized, parameters are replaced by what they are
bound to, and an object whose type has changed is a new one. The types of constants are kept, and
so is all that objects of no class hold. So what is to be shown of all types in the result needs to
be shown of the classes that take the place of others, of bound types, of the types of new objects,
and of those that are kept.

All that is left in a later store. Classes keep their shapes, so that what is found on the way can
be judged by the last store.
-/

namespace TypeInference

open Analysis Store TypeParameter

namespace Value

mutual

/-- The types in a value that are kept whatever is bound: those of constants, and those of objects
of no class that have content. -/
def keptTypes : Value → List Ty
  | .unknown => []
  | .type _ => []
  | .object _ .plain => []
  | .object ty (.constant _) => [ty]
  | .object (.cls _) (.sequence ⟨items, _⟩) => keptOfItems items
  | .object (.cls _) (.mapping ⟨entries, _⟩) => keptOfEntries entries
  | .object (.cls _) (.iterator element) => keptTypes element
  | .object ty content => (Value.object ty content).allTypes
  | .union alternatives => keptOfItems alternatives

/-- The types in some values that are kept. -/
def keptOfItems : List Value → List Ty
  | [] => []
  | value :: rest => keptTypes value ++ keptOfItems rest

/-- The types in the entries of a mapping that are kept. -/
def keptOfEntries : List (Value × Value) → List Ty
  | [] => []
  | (key, value) :: rest => keptTypes key ++ keptTypes value ++ keptOfEntries rest

end

end Value

namespace Bindings

/-- Only the identity of a parameter decides what it is resolved to. -/
theorem resolve?_congr {bindings : Bindings} {first second : TypeParameter}
    (same : first.hash = second.hash) : bindings.resolve? first = bindings.resolve? second := by
  unfold resolve? find?
  rw [same]

theorem mem_types_of_resolve? {bindings : Bindings} {parameter : TypeParameter} {ty : Ty}
    (resolved : bindings.resolve? parameter = some ty) : ty ∈ bindings.types := by
  unfold resolve? at resolved
  split at resolved
  · next found =>
    split at resolved
    · cases resolved
    · cases resolved
      exact mem_types_of_find? found
  · next found =>
    cases resolved
    exact mem_types_of_find? found
  · cases resolved

/-- A parameter whose identity is among those of the keys is found. -/
theorem exists_find?_of_hash {bindings : Bindings} {parameter : TypeParameter}
    (listed : parameter.hash ∈ bindings.keys.map TypeParameter.hash) :
    ∃ ty, bindings.find? parameter = some ty := by
  obtain ⟨key, among, same⟩ := List.mem_map.mp listed
  obtain ⟨ty, found⟩ := Option.isSome_iff_exists.mp (contains_of_mem_keys among)
  exact ⟨ty, by rw [← found, find?, find?, same]⟩

/-- Bindings that leave all of their keys open have a parameter of the identity of each key. -/
theorem exists_parameter_of_unresolved {bindings : Bindings} {parameters : List TypeParameter}
    (keys : bindings.keys = parameters) (unresolved : parameters.all bindings.isUnresolved = true)
    {parameter : TypeParameter} (listed : parameter ∈ parameters) :
    ∃ target, .parameter target ∈ bindings.types ∧ target.hash = parameter.hash := by
  obtain ⟨ty, found⟩ := exists_find?_of_hash (List.mem_map_of_mem (keys.symm ▸ listed))
  obtain ⟨target, rfl, same⟩ :=
    isUnresolved_iff.mp (List.all_eq_true.mp unresolved parameter listed) ty found
  exact ⟨target, mem_types_of_find? found, same⟩

/-- The types of some parameters in their order, where an unbound one stands for itself. -/
def inOrder (bindings : Bindings) (parameters : List TypeParameter) : List Ty :=
  parameters.map fun parameter => (bindings.find? parameter).getD (.parameter parameter)

@[simp] theorem length_inOrder (bindings : Bindings) (parameters : List TypeParameter) :
    (bindings.inOrder parameters).length = parameters.length :=
  List.length_map _

/-- The types of different parameters in their order are those that they are bound to. -/
theorem mem_inOrder_iff {bindings : Bindings} {parameters : List TypeParameter}
    (keyed : bindings.keys.map TypeParameter.hash = parameters.map TypeParameter.hash)
    (distinct : Distinct parameters) {ty : Ty} :
    ty ∈ bindings.inOrder parameters ↔ ty ∈ bindings.types := by
  have distinctKeys : Distinct bindings.keys := by rwa [Distinct, keyed]
  constructor
  · intro listed
    obtain ⟨parameter, among, rfl⟩ := List.mem_map.mp listed
    have named : parameter.hash ∈ bindings.keys.map TypeParameter.hash :=
      keyed ▸ List.mem_map_of_mem among
    obtain ⟨ty, found⟩ := exists_find?_of_hash named
    rw [found]
    exact mem_types_of_find? found
  · intro listed
    obtain ⟨⟨key, bound⟩, entry, same⟩ := List.mem_map.mp listed
    cases same
    have hash : key.hash ∈ parameters.map TypeParameter.hash :=
      keyed ▸ List.mem_map_of_mem (List.mem_map_of_mem entry)
    obtain ⟨parameter, among, same⟩ := List.mem_map.mp hash
    have found : bindings.find? parameter = some bound := by
      rw [find?, same]
      exact find?_of_mem distinctKeys entry
    exact List.mem_map.mpr ⟨parameter, among, by rw [found]; rfl⟩

end Bindings

namespace Store

/-- A class that has the parameters of its template, each once, where the template is bound to its
own parameters. -/
structure Aligned (store : Store) (id : ClassId) : Prop where
  distinct : Distinct (store.typeParameters (store.templateOf id))
  keyed : (store.classAt id).parameters.keys.map TypeParameter.hash =
    (store.typeParameters (store.templateOf id)).map TypeParameter.hash
  own : ∀ ty ∈ store.arguments (store.templateOf id), ∃ parameter ∈
    store.typeParameters (store.templateOf id),
      ty.asParameter?.map TypeParameter.hash = some parameter.hash

/-- What the parameters of its template stand for in a class, in their order. -/
def presentTypes (store : Store) (id : ClassId) : List Ty :=
  (store.classAt id).parameters.inOrder (store.typeParameters (store.templateOf id))

/-- A class that is given back: it is not generic, or nothing in it is replaced. -/
def Kept (store : Store) (bindings : Bindings) (id : ClassId) : Prop :=
  store.isGeneric id = false ∨
    ∀ ty ∈ store.presentTypes id, Engine.replacement? bindings ty = none

/-- What the parameters of its template are to stand for in a class, where bindings are substituted
in it. -/
def replacedTypes (store : Store) (bindings : Bindings) (id : ClassId) : List Ty :=
  (store.presentTypes id).map fun ty => (Engine.replacement? bindings ty).getD ty

theorem length_replacedTypes (store : Store) (bindings : Bindings) (id : ClassId) :
    (store.replacedTypes bindings id).length =
      (store.typeParameters (store.templateOf id)).length :=
  (List.length_map _).trans (Bindings.length_inOrder _ _)

/-- A store that is moved to a later one, in which classes have the shapes that they had. -/
structure LastsTo (before after : Store) : Prop where
  leads : before.LeadsTo after
  keeps : before.KeepsShapes after

namespace LastsTo

variable {before middle after : Store}

theorem refl (store : Store) : store.LastsTo store :=
  ⟨.refl store, .refl store⟩

theorem trans (first : before.LastsTo middle) (second : middle.LastsTo after) :
    before.LastsTo after :=
  ⟨first.leads.trans second.leads, first.keeps.trans second.keeps⟩

end LastsTo

end Store

/-- A result of analyses that keep progress grounded and shapes as they are. -/
theorem Grounds.lastsTo_of_ok {environment : Environment} {α : Type} [Refers α]
    {before after : Progress} {analysis : Analysis α} {result : α}
    (grounds : Grounds environment none before fun _ : Unit => analysis)
    (shapes : analysis.Respects .shaping)
    (returned : analysis environment before = .ok result after) :
    before.store.LastsTo after.store ∧
      ∃ grounded : after.Grounded environment, Within grounded.references result := by
  cases grounds with
  | failed failed => cases (failed ()).symm.trans returned
  | returned same leads grounded within =>
    cases (same ()).symm.trans returned
    exact ⟨⟨leads.store, (shapes.of_ok returned).keeps⟩, grounded, within⟩

/-- The template of a class is there, and is no specialization. -/
theorem Progress.Grounded.templateOf {environment : Environment} {progress : Progress}
    (grounded : progress.Grounded environment) {id : ClassId}
    (present : progress.store.HasClass id) :
    progress.store.HasClass (progress.store.templateOf id) ∧
      (progress.store.classAt (progress.store.templateOf id)).template = none := by
  unfold Store.templateOf
  cases made : (progress.store.classAt id).template with
  | none => exact ⟨present, made⟩
  | some template =>
    have derived := grounded.tidy.derived made
    exact ⟨derived.present, derived.original⟩

/-- A class does not have the identity of the unknown type if no class has it in the end. -/
theorem Store.KeepsShapes.named {before after : Store} (keeps : before.KeepsShapes after)
    (named : ∀ record ∈ after.classes.toList, record.hash ≠ .unknown) {id : ClassId}
    (present : before.HasClass id) : before.typeHash (.cls id) ≠ .unknown := by
  have same := ClassRecord.hash_of_shape (keeps.shapes id present)
  exact fun unknown => named _ (classAt_mem (keeps.hasClass present)) (same.trans unknown)

/-- A class that has the parameters of its template keeps them, and the template its own. -/
theorem Store.KeepsShapes.aligned {environment : Environment} {progress : Progress} {next : Store}
    (keeps : progress.store.KeepsShapes next) (grounded : progress.Grounded environment)
    {id : ClassId} (present : progress.store.HasClass id) (aligned : progress.store.Aligned id) :
    next.Aligned id := by
  obtain ⟨distinct, keyed, own⟩ := aligned
  have templatePresent := (grounded.templateOf present).1
  have sameTemplate := keeps.templateOf present
  have sameParameters := keeps.typeParameters templatePresent (grounded.hasBases _)
  refine ⟨?_, ?_, ?_⟩
  · rwa [sameTemplate, sameParameters]
  · rwa [sameTemplate, sameParameters, ClassRecord.parameters_of_shape (keeps.shapes id present)]
  · rwa [sameTemplate, sameParameters, keeps.arguments templatePresent]

namespace Engine

variable {environment : Environment} {before after : Progress} {bindings : Bindings} {depth : Nat}

/-- A class in which nothing is replaced is given back. -/
theorem substituteClass_kept {engine : Engine} {id : ClassId}
    (kept : before.store.Kept bindings id) :
    engine.substituteClass bindings id environment before = .ok id before := by
  rw [substituteClass, bind_apply, store_apply]
  dsimp only
  split
  · rfl
  · next generic =>
    rw [if_pos]
    · rfl
    refine List.all_eq_true.mpr fun ty listed => Option.isNone_iff_eq_none.mpr ?_
    exact kept.resolve_left (by simpa using generic) ty listed

/-- A class is given back for nothing in it is replaced, or its template is specialized. -/
theorem substituteClass_cases {engine : Engine} {id result : ClassId}
    (returned : engine.substituteClass bindings id environment before = .ok result after) :
    result = id ∧ after = before ∧ before.store.Kept bindings id ∨
      (∃ ty ∈ before.store.presentTypes id, replacement? bindings ty ≠ none) ∧
        engine.specialize (before.store.templateOf id)
            (.ofTypes (before.store.replacedTypes bindings id) .unknown) environment before =
          .ok result after := by
  unfold substituteClass at returned
  rw [bind_apply, store_apply] at returned
  dsimp only at returned
  split at returned
  · next fixed =>
    cases returned
    exact .inl ⟨rfl, rfl, .inl (by simpa using fixed)⟩
  split at returned
  · next unchanged =>
    cases returned
    exact .inl ⟨rfl, rfl, .inr fun ty listed =>
      Option.isNone_iff_eq_none.mp (List.all_eq_true.mp unchanged ty listed)⟩
  · next changed =>
    obtain ⟨ty, listed, replaced⟩ := List.all_eq_false.mp (Bool.eq_false_iff.mpr changed)
    exact .inr ⟨⟨ty, listed, fun isNone => replaced (Option.isNone_iff_eq_none.mpr isNone)⟩,
      returned⟩

/-- The substitution in a class keeps progress grounded, and shapes as they are. -/
theorem substituteClass_lasts {id result : ClassId} (grounded : before.Grounded environment)
    (bound : Within grounded.references bindings) (present : before.store.HasClass id)
    (returned : (Engine.atDepth depth).substituteClass bindings id environment before =
      .ok result after) :
    before.store.LastsTo after.store ∧ after.Grounded environment ∧
      after.store.HasClass result := by
  obtain ⟨lasts, groundedAfter, there⟩ := ((substitutes (areGrounded_atDepth depth _)
    bound).substituteClass (fun _ has => has) present environment before grounded
      fun _ has => has).lastsTo_of_ok
        (substituteClass_keeps (atDepth_shaping depth) bindings id).shaping returned
  exact ⟨lasts, groundedAfter, there⟩

section Passing

variable (grounded : before.Grounded environment) (bound : Within grounded.references bindings)

include bound

theorem substitute_lasts {value result : Value} (given : Within grounded.references value)
    (returned : (Engine.atDepth depth).substitute bindings value environment before =
      .ok result after) : before.store.LastsTo after.store ∧ after.Grounded environment := by
  obtain ⟨lasts, groundedAfter, -⟩ := (substitute_holds
    (substitutes (areGrounded_atDepth depth _) bound) given environment before grounded
      fun _ has => has).lastsTo_of_ok
        (substitute_keeps (atDepth_shaping depth) bindings value).shaping returned
  exact ⟨lasts, groundedAfter⟩

theorem substituteAll_lasts {values result : List Value} (given : Within grounded.references values)
    (returned : (Engine.atDepth depth).substituteAll bindings values environment before =
      .ok result after) : before.store.LastsTo after.store := by
  obtain ⟨lasts, -⟩ := (substituteAll_holds
    (substitutes (areGrounded_atDepth depth _) bound) given environment before grounded
      fun _ has => has).lastsTo_of_ok
        (substituteAll_keeps (atDepth_shaping depth) bindings values).shaping returned
  exact lasts

theorem substituteEntries_lasts {entries result : List (Value × Value)}
    (given : Within grounded.references entries)
    (returned : (Engine.atDepth depth).substituteEntries bindings entries environment before =
      .ok result after) : before.store.LastsTo after.store := by
  obtain ⟨lasts, -⟩ := (substituteEntries_holds
    (substitutes (areGrounded_atDepth depth _) bound) given environment before grounded
      fun _ has => has).lastsTo_of_ok
        (substituteEntries_keeps (atDepth_shaping depth) bindings entries).shaping returned
  exact lasts

end Passing

end Engine

namespace Engine

variable {environment : Environment} {before after : Progress} {bindings : Bindings} {depth : Nat}
  {last : Store}

/-- A template is applied to known types. The class that this gives is bound to types of the same
identities, also where it is the template itself, which is the answer to its own parameters. -/
theorem specialize_identities (named : ∀ record ∈ last.classes.toList, record.hash ≠ .unknown)
    {template result : ClassId} {types : List Ty} (grounded : before.Grounded environment)
    (present : before.store.HasClass template)
    (original : (before.store.classAt template).template = none)
    (distinct : Distinct (before.store.typeParameters template))
    (length : types.length = (before.store.typeParameters template).length)
    (known : ∀ ty ∈ types, ty.isUnknown = false)
    (there : ∀ ty ∈ types, before.store.HasType ty)
    (own : ∀ ty ∈ last.arguments template, ∃ other ∈ before.store.typeParameters template,
      ty.asParameter?.map TypeParameter.hash = some other.hash) {span : Span}
    (returned : (Engine.atDepth depth).specialize template (.ofTypes types span) environment
      before = .ok result after) (lasts : after.store.LastsTo last) :
    ∀ ty ∈ last.arguments result, ∃ other ∈ types, last.typeHash other = last.typeHash ty := by
  obtain ⟨reaches, groundedAfter⟩ := specialize_grounded grounded depth present there returned
  have keeps := (((atDepth_shaping depth).specialize template _).shaping.of_ok returned).keeps
  have apart : before.store.typeHash (.cls template) ≠ .unknown :=
    (keeps.trans lasts.keeps).named named present
  have followed {ty : Ty} (listed : ty ∈ ((Bindings.positional
      (before.store.typeParameters template) types).followChains
        (before.store.typeParameters template)).types) : ty ∈ types :=
    Bindings.types_positional length ▸ Bindings.mem_types_followChains listed
  intro ty among
  rcases specialize_ofTypes grounded depth present original apart distinct length known there
    returned with ⟨rfl, unresolved⟩ | drafted
  · obtain ⟨other, listed, same⟩ := own ty among
    cases ty with
    | parameter argument =>
      have keys := (Bindings.keys_followChains _ (before.store.typeParameters result)).trans
        (Bindings.keys_positional length)
      obtain ⟨target, bound, itself⟩ := Bindings.exists_parameter_of_unresolved keys unresolved listed
      exact ⟨_, followed bound, itself.trans (Option.some.inj same).symm⟩
    | unknown | cls _ | function _ | marker _ => cases same
  · have later {types : List Ty} (there : ∀ ty ∈ types, after.store.HasType ty) :
        types.map last.typeHash = types.map after.store.typeHash :=
      List.map_congr_left fun ty listed => (lasts.leads.keepsType (there ty listed)).2
    have identities := congrArg ResolvedSignature.hashes drafted.bound
    have boundThere : ∀ ty ∈ after.store.arguments result, after.store.HasType ty :=
      groundedAfter.hasArguments result
    rw [lasts.keeps.arguments drafted.present] at among
    have same : (after.store.arguments result).map last.typeHash =
        ((Bindings.positional (before.store.typeParameters template) types).followChains
          (before.store.typeParameters template)).types.map last.typeHash := by
      rw [later boundThere,
        later fun ty listed => (reaches.store.keepsType (there ty (followed listed))).1]
      exact identities
    obtain ⟨other, listed, equal⟩ := exists_same_identity same among
    exact ⟨other, followed listed, equal⟩

/-- A class whose arguments are replaced by known types stays as it is, or there is nothing to
replace, or what takes its place is bound to types of the identities of those that replace them. -/
theorem substituteClass_identities
    (named : ∀ record ∈ last.classes.toList, record.hash ≠ .unknown) {id result : ClassId}
    (grounded : before.Grounded environment) (bound : Within grounded.references bindings)
    (present : before.store.HasClass id) (aligned : last.Aligned id)
    (known : ∀ ty ∈ last.arguments id, ((replacement? bindings ty).getD ty).isUnknown = false)
    (returned : (Engine.atDepth depth).substituteClass bindings id environment before =
      .ok result after) (lasts : after.store.LastsTo last) :
    (result = id ∧ ∀ ty ∈ last.arguments id, replacement? bindings ty = none) ∨
      (∃ ty ∈ last.arguments id, replacement? bindings ty ≠ none) ∧
        ∀ ty ∈ last.arguments result, ∃ other ∈ last.arguments id,
          last.typeHash ((replacement? bindings other).getD other) = last.typeHash ty := by
  have whole := (substituteClass_lasts grounded bound present returned).1.trans lasts
  have sameArguments := whole.keeps.arguments present
  obtain ⟨templatePresent, original⟩ := grounded.templateOf present
  have sameParameters := whole.keeps.typeParameters templatePresent (grounded.hasBases _)
  obtain ⟨distinct, keyed, own⟩ := aligned
  rw [whole.keeps.templateOf present, sameParameters] at distinct keyed own
  rw [ClassRecord.parameters_of_shape (whole.keeps.shapes id present)] at keyed
  have inOrder (ty : Ty) : ty ∈ before.store.presentTypes id ↔ ty ∈ last.arguments id := by
    rw [sameArguments]
    exact Bindings.mem_inOrder_iff keyed distinct
  rcases substituteClass_cases returned with ⟨rfl, -, kept⟩ | ⟨⟨ty, listed, replaced⟩, made⟩
  · refine .inl ⟨rfl, fun ty listed => ?_⟩
    rcases kept with fixed | unchanged
    · have argument : ty ∈ before.store.arguments result := sameArguments ▸ listed
      rw [replacement?, asParameter?_of_not_isGeneric fixed argument]
      rfl
    · exact unchanged ty ((inOrder ty).mpr listed)
  · refine .inr ⟨⟨ty, (inOrder ty).mp listed, replaced⟩, fun ty listed => ?_⟩
    have identities := specialize_identities named grounded templatePresent original distinct
      (before.store.length_replacedTypes bindings id) (fun ty listed => ?_)
      (fun ty listed => ?_) own made lasts
    · obtain ⟨other, among, same⟩ := identities ty listed
      obtain ⟨argument, given, rfl⟩ := List.mem_map.mp among
      exact ⟨argument, (inOrder argument).mp given, same⟩
    · obtain ⟨argument, given, rfl⟩ := List.mem_map.mp listed
      exact known argument ((inOrder argument).mp given)
    · exact hasType_of_within (fun _ has => has)
        (within_replacements (grounded.stored.1 id).parameters bound _ ty listed)

end Engine

/-- What refers to things that are there does so later. -/
theorem Store.LastsTo.within {environment : Environment} {before after : Progress} {α : Type}
    [Refers α] (lasts : before.store.LastsTo after.store) (grounded : before.Grounded environment)
    (groundedAfter : after.Grounded environment) {thing : α}
    (within : Within grounded.references thing) : Within groundedAfter.references thing :=
  Refers.widen lasts.leads.has thing within

mutual

/-- A value refers to all types that it has, kept or not. -/
theorem within_types {known : References} : ∀ {value : Value}, Within known value →
    Within known value.allTypes ∧ Within known value.keptTypes
  | .unknown, _ => ⟨within_nil, within_nil⟩
  | .type _, given => ⟨(within_cons _ _).mpr ⟨Ty.Stands.mentions given, within_nil⟩, within_nil⟩
  | .object _ .plain, given =>
    ⟨(within_cons _ _).mpr ⟨given.objectType, within_nil⟩, within_nil⟩
  | .object _ (.constant _), given =>
    ⟨(within_cons _ _).mpr ⟨given.objectType, within_nil⟩,
      (within_cons _ _).mpr ⟨given.objectType, within_nil⟩⟩
  | .object ty (.sequence ⟨items, _⟩), given => by
    have inside := within_typesOfItems ((within_sequence _ _ _).mp given).2
    have whole := (within_cons _ _).mpr ⟨given.objectType, inside.1⟩
    cases ty with
    | cls _ => exact ⟨whole, inside.2⟩
    | unknown | parameter _ | function _ | marker _ => exact ⟨whole, whole⟩
  | .object ty (.mapping ⟨entries, _⟩), given => by
    have inside := within_typesOfEntries ((within_mapping _ _ _).mp given).2
    have whole := (within_cons _ _).mpr ⟨given.objectType, inside.1⟩
    cases ty with
    | cls _ => exact ⟨whole, inside.2⟩
    | unknown | parameter _ | function _ | marker _ => exact ⟨whole, whole⟩
  | .object ty (.iterator element), given => by
    have inside := within_types ((within_iterator _ _).mp given).2
    have whole := (within_cons _ _).mpr ⟨given.objectType, inside.1⟩
    cases ty with
    | cls _ => exact ⟨whole, inside.2⟩
    | unknown | parameter _ | function _ | marker _ => exact ⟨whole, whole⟩
  | .union _, given => within_typesOfItems ((within_union _).mp given).2

theorem within_typesOfItems {known : References} : ∀ {values : List Value}, Within known values →
    Within known (Value.typesOfItems values) ∧ Within known (Value.keptOfItems values)
  | [], _ => ⟨within_nil, within_nil⟩
  | value :: rest, given => by
    rw [within_cons] at given
    have first := within_types given.1
    have others := within_typesOfItems given.2
    exact ⟨(within_append _ _).mpr ⟨first.1, others.1⟩, (within_append _ _).mpr ⟨first.2, others.2⟩⟩

theorem within_typesOfEntries {known : References} : ∀ {entries : List (Value × Value)},
    Within known entries →
      Within known (Value.typesOfEntries entries) ∧ Within known (Value.keptOfEntries entries)
  | [], _ => ⟨within_nil, within_nil⟩
  | (key, value) :: rest, given => by
    rw [within_cons, within_pair] at given
    have first := within_types given.1.1
    have second := within_types given.1.2
    have others := within_typesOfEntries given.2
    simp only [Value.typesOfEntries, Value.keptOfEntries, within_append]
    exact ⟨⟨⟨first.1, second.1⟩, others.1⟩, ⟨first.2, second.2⟩, others.2⟩

end

/-- Types that are ready for a substitution: what is asked of the types that are replaced holds of
them, and those that are kept have already what all types shall have in the end. -/
structure Fit (asked free : Ty → Prop) (types kept : List Ty) : Prop where
  replaced : ∀ ty ∈ types, asked ty
  kept : ∀ ty ∈ kept, free ty

namespace Fit

variable {asked free : Ty → Prop} {types others kept more : List Ty}

theorem left (fit : Fit asked free (types ++ others) (kept ++ more)) : Fit asked free types kept :=
  ⟨fun ty listed => fit.replaced ty (List.mem_append_left _ listed),
    fun ty listed => fit.kept ty (List.mem_append_left _ listed)⟩

theorem right (fit : Fit asked free (types ++ others) (kept ++ more)) :
    Fit asked free others more :=
  ⟨fun ty listed => fit.replaced ty (List.mem_append_right _ listed),
    fun ty listed => fit.kept ty (List.mem_append_right _ listed)⟩

/-- What an object of a class holds is as fit as the object. -/
theorem content {ty : Ty} (fit : Fit asked free (ty :: types) kept) : Fit asked free types kept :=
  ⟨fun other listed => fit.replaced other (List.mem_cons_of_mem _ listed), fit.kept⟩

/-- An object of no class is kept with what it holds. -/
theorem object {ty : Ty} {content : Content} (apart : ty.asClass? = none)
    (fit : Fit asked free (Value.object ty content).allTypes (Value.object ty content).keptTypes)
    (own : free ty) : ∀ other ∈ (Value.object ty content).allTypes, free other := by
  intro other listed
  match content with
  | .plain | .constant _ => exact List.mem_singleton.mp listed ▸ own
  | .sequence ⟨_, _⟩ | .mapping ⟨_, _⟩ | .iterator _ =>
    refine fit.kept other ?_
    cases ty with
    | cls _ => cases apart
    | unknown | parameter _ | function _ | marker _ => simpa only [Value.keptTypes] using listed

end Fit

/-- A substitution gives types with a property for types of which something else is asked: for
classes and for types that are none. Classes that come in place of others and of parameters are such
that their new objects have no types without the property. All is judged by the last store. -/
structure Replaces (depth : Nat) (environment : Environment) (bindings : Bindings) (last : Store)
    (asked free : Ty → Prop) (made : ClassId → Prop) : Prop where
  ofClass : ∀ {id result : ClassId} {before after : Progress}
    (grounded : before.Grounded environment), Within grounded.references bindings →
      before.store.HasClass id → asked (.cls id) →
        (Engine.atDepth depth).substituteClass bindings id environment before =
          .ok result after → after.store.LastsTo last →
            free (.cls result) ∧ (result = id ∨ made result)
  ofOther : ∀ {ty : Ty}, ty.asClass? = none → asked ty →
    free ((Engine.replacement? bindings ty).getD ty)
  ofBound : ∀ {parameter : TypeParameter} {id : ClassId},
    bindings.resolve? parameter = some (.cls id) → made id
  ofObject : ∀ {store : Store} {id : ClassId}, store.KeepsShapes last → store.HasClass id →
    made id → ∀ ty ∈ (store.newObject id).allTypes, free ty

namespace Replaces

variable {environment : Environment} {bindings : Bindings} {last : Store} {depth : Nat}
  {asked free : Ty → Prop} {made : ClassId → Prop}

/-- What takes the place of a type has the property. -/
theorem ofType (replaces : Replaces depth environment bindings last asked free made) {ty result : Ty}
    {before after : Progress} (grounded : before.Grounded environment)
    (bound : Within grounded.references bindings) (given : Within grounded.references ty)
    (isAsked : asked ty)
    (returned : (Engine.atDepth depth).substituteType bindings ty environment before =
      .ok result after) (lasts : after.store.LastsTo last) : free result := by
  cases ty with
  | cls id =>
    obtain ⟨specialized, middle, substituted, ending⟩ := bind_eq_ok.mp returned
    cases ending
    exact (replaces.ofClass grounded bound given isAsked substituted lasts).1
  | parameter _ | unknown | function _ | marker _ =>
    cases returned
    exact replaces.ofOther rfl isAsked

mutual

/-- All types in a value that is substituted in have the property. -/
theorem substitute (replaces : Replaces depth environment bindings last asked free made) :
    ∀ (value : Value) {result : Value} {before after : Progress}
      (grounded : before.Grounded environment), Within grounded.references bindings →
        Within grounded.references value →
          Fit asked free value.allTypes value.keptTypes →
            (Engine.atDepth depth).substitute bindings value environment before =
              .ok result after → after.store.LastsTo last →
                ∀ ty ∈ result.allTypes, free ty
  | .unknown, _, _, _, _, _, _, _, returned, _ => by
    simp only [Engine.substitute] at returned
    cases returned
    exact fun ty listed => nomatch listed
  | .type ty, _, _, _, grounded, bound, given, fit, returned, lasts => by
    simp only [Engine.substitute] at returned
    obtain ⟨replaced, middle, substituted, ending⟩ := bind_eq_ok.mp returned
    cases ending
    intro other listed
    rw [Value.eq_of_mem_allTypes_ofType listed]
    exact replaces.ofType grounded bound (Ty.Stands.mentions given)
      (fit.replaced ty (List.mem_singleton_self ty)) substituted lasts
  | .union alternatives, _, _, _, grounded, bound, given, fit, returned, lasts => by
    simp only [Engine.substitute] at returned
    obtain ⟨replaced, middle, substituted, ending⟩ := bind_eq_ok.mp returned
    cases ending
    intro ty listed
    obtain ⟨value, among, own⟩ := mem_allTypes_union listed
    exact replaces.substituteAll alternatives grounded bound ((within_union _).mp given).2
      fit substituted lasts ty (Value.mem_typesOfItems.mpr ⟨value, among, own⟩)
  | .object (.parameter other) content, _, _, _, grounded, bound, given, fit, returned,
      lasts => by
    simp only [Engine.substitute] at returned
    have own := replaces.ofOther rfl (fit.replaced _ (Value.mem_allTypes_object _ content))
    change free ((bindings.resolve? other).getD (.parameter other)) at own
    cases resolved : bindings.resolve? other with
    | none =>
      rw [resolved] at returned own
      cases returned
      exact fit.object rfl own
    | some ty =>
      rw [resolved] at returned own
      have listed := Bindings.mem_types_of_resolve? resolved
      cases ty with
      | cls id =>
        cases returned
        exact replaces.ofObject lasts.keeps (bound _ listed) (replaces.ofBound resolved)
      | unknown | parameter _ | function _ | marker _ =>
        cases returned
        intro other among
        rw [Value.eq_of_mem_allTypes_ofTy among]
        exact own
  | .object (.cls id) content, _, _, _, grounded, bound, given, fit, returned, lasts => by
    simp only [Engine.substitute] at returned
    obtain ⟨specialized, middle, substituted, ending⟩ := bind_eq_ok.mp returned
    have object := given.objectType
    obtain ⟨passed, groundedMiddle, present⟩ :=
      Engine.substituteClass_lasts grounded bound object substituted
    have boundMiddle := passed.within grounded groundedMiddle bound
    have own (onward : middle.store.LastsTo last) :
        free (.cls specialized) ∧ (specialized = id ∨ made specialized) :=
      replaces.ofClass grounded bound object
        (fit.replaced _ (Value.mem_allTypes_object _ content)) substituted onward
    match content with
    | .plain =>
      by_cases unchanged : specialized = id
      · rw [if_pos unchanged] at ending
        cases ending
        intro ty listed
        rw [List.mem_singleton.mp listed, ← unchanged]
        exact (own lasts).1
      · rw [if_neg unchanged] at ending
        cases ending
        exact replaces.ofObject lasts.keeps present ((own lasts).2.resolve_left unchanged)
    | .constant _ =>
      cases ending
      exact fit.kept
    | .sequence ⟨items, _⟩ =>
      have inside := passed.within grounded groundedMiddle ((within_sequence _ _ _).mp given).2
      obtain ⟨replaced, _, listed, ending⟩ := bind_eq_ok.mp ending
      cases ending
      have further := Engine.substituteAll_lasts groundedMiddle boundMiddle inside listed
      exact List.forall_mem_cons.mpr ⟨(own (further.trans lasts)).1, replaces.substituteAll items
        groundedMiddle boundMiddle inside fit.content listed lasts⟩
    | .mapping ⟨entries, _⟩ =>
      have inside := passed.within grounded groundedMiddle ((within_mapping _ _ _).mp given).2
      obtain ⟨replaced, _, listed, ending⟩ := bind_eq_ok.mp ending
      cases ending
      have further := Engine.substituteEntries_lasts groundedMiddle boundMiddle inside listed
      exact List.forall_mem_cons.mpr ⟨(own (further.trans lasts)).1, replaces.substituteEntries
        entries groundedMiddle boundMiddle inside fit.content listed lasts⟩
    | .iterator element =>
      have inside := passed.within grounded groundedMiddle ((within_iterator _ _).mp given).2
      obtain ⟨replaced, _, listed, ending⟩ := bind_eq_ok.mp ending
      cases ending
      have further := (Engine.substitute_lasts groundedMiddle boundMiddle inside listed).1
      exact List.forall_mem_cons.mpr ⟨(own (further.trans lasts)).1, replaces.substitute element
        groundedMiddle boundMiddle inside fit.content listed lasts⟩
  | .object .unknown _, _, _, _, _, _, _, fit, returned, _ => by
    simp only [Engine.substitute] at returned
    cases returned
    exact fit.object rfl (replaces.ofOther rfl (fit.replaced _ (Value.mem_allTypes_object _ _)))
  | .object (.function _) _, _, _, _, _, _, _, fit, returned, _ => by
    simp only [Engine.substitute] at returned
    cases returned
    exact fit.object rfl (replaces.ofOther rfl (fit.replaced _ (Value.mem_allTypes_object _ _)))
  | .object (.marker _) _, _, _, _, _, _, _, fit, returned, _ => by
    simp only [Engine.substitute] at returned
    cases returned
    exact fit.object rfl (replaces.ofOther rfl (fit.replaced _ (Value.mem_allTypes_object _ _)))

theorem substituteAll (replaces : Replaces depth environment bindings last asked free made) :
    ∀ (values : List Value) {result : List Value} {before after : Progress}
      (grounded : before.Grounded environment), Within grounded.references bindings →
        Within grounded.references values →
          Fit asked free (Value.typesOfItems values) (Value.keptOfItems values) →
            (Engine.atDepth depth).substituteAll bindings values environment before =
              .ok result after → after.store.LastsTo last →
                ∀ ty ∈ Value.typesOfItems result, free ty
  | [], _, _, _, _, _, _, _, returned, _ => by
    simp only [Engine.substituteAll] at returned
    cases returned
    exact fun ty listed => nomatch listed
  | value :: rest, _, _, _, grounded, bound, given, fit, returned, lasts => by
    rw [within_cons] at given
    simp only [Engine.substituteAll] at returned
    obtain ⟨first, middle, substituted, continued⟩ := bind_eq_ok.mp returned
    obtain ⟨others, _, listed, ending⟩ := bind_eq_ok.mp continued
    cases ending
    obtain ⟨passed, groundedMiddle⟩ := Engine.substitute_lasts grounded bound given.1 substituted
    have boundMiddle := passed.within grounded groundedMiddle bound
    have givenMiddle := passed.within grounded groundedMiddle given.2
    have further := Engine.substituteAll_lasts groundedMiddle boundMiddle givenMiddle listed
    intro ty among
    rcases List.mem_append.mp among with own | later
    · exact replaces.substitute value grounded bound given.1 fit.left substituted
        (further.trans lasts) ty own
    · exact replaces.substituteAll rest groundedMiddle boundMiddle givenMiddle fit.right
        listed lasts ty later

theorem substituteEntries (replaces : Replaces depth environment bindings last asked free made) :
    ∀ (entries : List (Value × Value)) {result : List (Value × Value)} {before after : Progress}
      (grounded : before.Grounded environment), Within grounded.references bindings →
        Within grounded.references entries →
          Fit asked free (Value.typesOfEntries entries) (Value.keptOfEntries entries) →
            (Engine.atDepth depth).substituteEntries bindings entries environment before =
              .ok result after → after.store.LastsTo last →
                ∀ ty ∈ Value.typesOfEntries result, free ty
  | [], _, _, _, _, _, _, _, returned, _ => by
    simp only [Engine.substituteEntries] at returned
    cases returned
    exact fun ty listed => nomatch listed
  | (key, value) :: rest, _, _, _, grounded, bound, given, fit, returned, lasts => by
    rw [within_cons, within_pair] at given
    simp only [Engine.substituteEntries] at returned
    obtain ⟨newKey, second, keyed, continued⟩ := bind_eq_ok.mp returned
    obtain ⟨newValue, third, valued, continued⟩ := bind_eq_ok.mp continued
    obtain ⟨others, _, listed, ending⟩ := bind_eq_ok.mp continued
    cases ending
    obtain ⟨passed, groundedSecond⟩ := Engine.substitute_lasts grounded bound given.1.1 keyed
    have boundSecond := passed.within grounded groundedSecond bound
    have givenSecond := passed.within grounded groundedSecond given.1.2
    obtain ⟨again, groundedThird⟩ :=
      Engine.substitute_lasts groundedSecond boundSecond givenSecond valued
    have boundThird := again.within groundedSecond groundedThird boundSecond
    have givenThird := (passed.trans again).within grounded groundedThird given.2
    have further := (Engine.substituteEntries_lasts groundedThird boundThird givenThird listed).trans lasts
    intro ty among
    rcases List.mem_append.mp among with own | later
    · rcases List.mem_append.mp own with inKey | inValue
      · exact replaces.substitute key grounded bound given.1.1 fit.left.left keyed
          (again.trans further) ty inKey
      · exact replaces.substitute value groundedSecond boundSecond givenSecond
          fit.left.right valued further ty inValue
    · exact replaces.substituteEntries rest groundedThird boundThird givenThird fit.right
        listed lasts ty later

end

end Replaces

end TypeInference
