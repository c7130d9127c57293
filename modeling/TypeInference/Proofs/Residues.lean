import TypeInference.Proofs.Receivers
import TypeInference.Proofs.Replacing

/-!
# What substitution leaves of a parameter

A parameter that is bound to a closed class is replaced where it is a type, where it is the type of
an object at any depth of content, and where it is itself an argument of a class. It is not looked
for in the arguments of the arguments: a class with a class as its only argument counts as having
nothing open, and is left as it is. Nor is it looked for in the types that other parameters are
bound to. Where it occurs in neither of these ways, substitution leaves nothing of it.
-/

namespace TypeInference

open Analysis Store TypeParameter

namespace Store

/-- A type in which a parameter is looked for wherever it occurs: it is no part of an argument of a
class, and of no marker. Arguments of the class are known. -/
def Replaceable (store : Store) (parameter : TypeParameter) : Ty → Prop
  | .cls id => store.Aligned id ∧ ∀ ty ∈ store.arguments id,
      ty.isUnknown = false ∧ (ty.asParameter? = none → ¬store.OccursIn parameter ty)
  | ty => ty.asParameter? = none → ¬store.OccursIn parameter ty

end Store

/-- Bindings that leave nothing of a parameter: it is bound to a class, it occurs in no type that
is bound to any parameter, all of these are known, and identities are not shared by accident. -/
structure Clears (store : Store) (bindings : Bindings) (parameter : TypeParameter) : Prop where
  bound : ∃ id, bindings.find? parameter = some (.cls id)
  known : ∀ ty ∈ bindings.types, ty.isUnknown = false
  free : ∀ ty ∈ bindings.types, ¬store.OccursIn parameter ty
  faithful : store.Faithful bindings.types

namespace Clears

variable {store : Store} {bindings : Bindings} {parameter : TypeParameter}

/-- The parameter is resolved, under whatever object it comes. -/
theorem resolved (clears : Clears store bindings parameter) {other : TypeParameter}
    (same : other.hash = parameter.hash) : bindings.resolve? other ≠ none := by
  obtain ⟨id, found⟩ := clears.bound
  rw [Bindings.resolve?_congr same, Bindings.resolve?_of_class found]
  exact Option.some_ne_none _

/-- A type in which the parameter is looked for is replaced by one in which it does not occur: a
bound type, or the type itself. -/
theorem replaced (clears : Clears store bindings parameter) {ty : Ty}
    (isKnown : ty.isUnknown = false)
    (direct : ty.asParameter? = none → ¬store.OccursIn parameter ty) :
    ((Engine.replacement? bindings ty).getD ty).isUnknown = false ∧
      ¬store.OccursIn parameter ((Engine.replacement? bindings ty).getD ty) ∧
        ((Engine.replacement? bindings ty).getD ty ∈ bindings.types ∨
          (Engine.replacement? bindings ty).getD ty = ty) := by
  cases replaced : Engine.replacement? bindings ty with
  | some new =>
    obtain ⟨_, -, resolved⟩ := Option.bind_eq_some_iff.mp replaced
    have listed := Bindings.mem_types_of_resolve? resolved
    exact ⟨clears.known new listed, clears.free new listed, .inl listed⟩
  | none =>
    refine ⟨isKnown, fun occurs => ?_, .inr rfl⟩
    cases ty with
    | parameter other =>
      cases occurs with
      | itself same => exact clears.resolved same replaced
    | unknown | cls _ | function _ | marker _ => exact direct rfl occurs

end Clears

namespace Engine

variable {environment : Environment} {before after : Progress} {bindings : Bindings}
  {parameter : TypeParameter} {last : Store} {depth : Nat}

/-- Nothing is left of a parameter in a class that is substituted in. -/
theorem substituteClass_clears (clears : Clears last bindings parameter) {id result : ClassId}
    (grounded : before.Grounded environment) (bound : Within grounded.references bindings)
    (present : before.store.HasClass id) (replaceable : last.Replaceable parameter (.cls id))
    (returned : (Engine.atDepth depth).substituteClass bindings id environment before =
      .ok result after) (lasts : after.store.LastsTo last) :
    ¬last.OccursIn parameter (.cls result) := by
  obtain ⟨aligned, direct⟩ := replaceable
  have replaced {ty : Ty} (among : ty ∈ last.arguments id) :=
    clears.replaced (direct ty among).1 (direct ty among).2
  rcases substituteClass_identities clears.faithful.known grounded bound present aligned
    (fun ty among => (replaced among).1) returned lasts with ⟨rfl, kept⟩ | ⟨-, identities⟩
  · rintro (_ | _ | @⟨_, ty, among, inside⟩)
    have free := (replaced among).2.1
    rw [kept ty among] at free
    exact free inside
  · rintro (_ | _ | @⟨_, ty, among, inside⟩)
    obtain ⟨other, listed, same⟩ := identities ty among
    obtain ⟨-, free, source⟩ := replaced listed
    refine free (clears.faithful.occursIn inside (mem_typesWith_of_argument among) ?_ same.symm)
    rcases source with given | itself
    · exact mem_typesWith_of_given given
    · rw [itself]
      exact mem_typesWith_of_argument listed

end Engine

/-- A parameter is looked for in all types of what is substituted in, and does not occur in what
is kept. -/
structure Ready (store : Store) (parameter : TypeParameter) (types kept : List Ty) : Prop where
  replaceable : ∀ ty ∈ types, store.Replaceable parameter ty
  free : ∀ ty ∈ kept, ¬store.OccursIn parameter ty

/-- A new object of a class in which a parameter does not occur has no type in which it does. -/
theorem Store.KeepsShapes.free_newObject {store last : Store} (keeps : store.KeepsShapes last)
    {parameter : TypeParameter} {id : ClassId} (present : store.HasClass id)
    (free : ¬last.OccursIn parameter (.cls id)) :
    ∀ ty ∈ (store.newObject id).allTypes, ¬last.OccursIn parameter ty := by
  intro ty listed
  rcases mem_allTypes_newObject listed with rfl | argument
  · exact free
  · rw [← keeps.arguments present] at argument
    exact fun inside => free (.argument argument inside)

/-- What takes the place of types in which a parameter is looked for has nothing left of it. -/
theorem Clears.replaces {last : Store} {bindings : Bindings} {parameter : TypeParameter}
    (clears : Clears last bindings parameter) (depth : Nat) (environment : Environment) :
    Replaces depth environment bindings last (last.Replaceable parameter)
      (fun ty => ¬last.OccursIn parameter ty) (fun id => ¬last.OccursIn parameter (.cls id)) where
  ofClass grounded bound present replaceable returned lasts :=
    have free := Engine.substituteClass_clears clears grounded bound present replaceable returned lasts
    ⟨free, .inr free⟩
  ofOther {ty} apart replaceable := by
    cases ty with
    | cls _ => cases apart
    | unknown => exact nofun
    | parameter _ | function _ | marker _ => exact (clears.replaced rfl replaceable).2.1
  ofBound resolved := clears.free _ (Bindings.mem_types_of_resolve? resolved)
  ofObject keeps present free := keeps.free_newObject present free

/-- Nothing is left of a parameter in a value that is substituted in. -/
theorem Engine.substitute_clears {environment : Environment} {before after : Progress}
    {bindings : Bindings} {parameter : TypeParameter} {last : Store} {depth : Nat}
    (clears : Clears last bindings parameter) (value : Value) {result : Value}
    (grounded : before.Grounded environment) (bound : Within grounded.references bindings)
    (given : Within grounded.references value)
    (ready : Ready last parameter value.allTypes value.keptTypes)
    (returned : (Engine.atDepth depth).substitute bindings value environment before =
      .ok result after) (lasts : after.store.LastsTo last) :
    ∀ ty ∈ result.allTypes, ¬last.OccursIn parameter ty :=
  (clears.replaces depth environment).substitute value grounded bound given
    ⟨ready.replaceable, ready.free⟩ returned lasts

namespace Store.KeepsShapes

variable {environment : Environment} {progress : Progress} {next : Store}
  {parameter : TypeParameter}

/-- A parameter occurs in no type that was there if it did not. -/
theorem free (keeps : progress.store.KeepsShapes next) (grounded : progress.Grounded environment)
    {ty : Ty} (known : Within grounded.references ty)
    (free : ¬progress.store.OccursIn parameter ty) : ¬next.OccursIn parameter ty :=
  fun occurs => free (keeps.occursIn_before grounded.hasArguments occurs
    (hasType_of_within (fun _ has => has) known))

/-- Types in which a parameter is looked for stay so. -/
theorem replaceable (keeps : progress.store.KeepsShapes next)
    (grounded : progress.Grounded environment) {ty : Ty} (known : Within grounded.references ty)
    (replaceable : progress.store.Replaceable parameter ty) : next.Replaceable parameter ty := by
  cases ty with
  | cls id =>
    have present : progress.store.HasClass id := known
    obtain ⟨aligned, direct⟩ := replaceable
    refine ⟨keeps.aligned grounded present aligned, fun ty listed => ?_⟩
    rw [keeps.arguments present] at listed
    exact (direct ty listed).imp_right fun free isNone occurs => free isNone
      (keeps.occursIn_before grounded.hasArguments occurs (grounded.hasArguments id ty listed))
  | unknown | parameter _ | function _ | marker _ =>
    exact fun isNone => keeps.free grounded known (replaceable isNone)

end Store.KeepsShapes

namespace Engine

/-- Substitution leaves nothing of a parameter that is bound to a class, at any depth of engines
and in any value: not as a type or the type of an object, not in content or alternatives, and not
in the arguments of a class, at any depth.

This is so where the parameter is looked for in all types of the value (`Store.Replaceable`), and
where it does not come back from what other parameters are bound to: these types are known, and
the parameter occurs in none of them. The identities of types are taken for the types.

Proof: the induction is on the value and follows substitution. Types that were there have their
shapes in the store that is left (`Engine.atDepth_shaping`), so that what is asked of them there
holds if it did before, and what is found on the way can be judged by that one store. -/
theorem substitute_leaves_nothing {environment : Environment} {before after : Progress}
    {bindings : Bindings} {parameter : TypeParameter} {value result : Value} (depth : Nat)
    (grounded : before.Grounded environment) (given : Within grounded.references value)
    (bound : Within grounded.references bindings)
    (ready : Ready before.store parameter value.allTypes value.keptTypes)
    (toClass : ∃ id, bindings.find? parameter = some (.cls id))
    (known : ∀ ty ∈ bindings.types, ty.isUnknown = false)
    (free : ∀ ty ∈ bindings.types, ¬before.store.OccursIn parameter ty)
    (returned : (Engine.atDepth depth).substitute bindings value environment before =
      .ok result after)
    (faithful : after.store.Faithful bindings.types) :
    ∀ ty ∈ result.allTypes, ¬after.store.OccursIn parameter ty := by
  have keeps := (substitute_lasts grounded bound given returned).1.keeps
  have clears : Clears after.store bindings parameter :=
    ⟨toClass, known, fun ty listed => keeps.free grounded (bound ty listed) (free ty listed),
      faithful⟩
  obtain ⟨all, kept⟩ := within_types given
  have readyAfter : Ready after.store parameter value.allTypes value.keptTypes :=
    ⟨fun ty listed => keeps.replaceable grounded (all ty listed) (ready.replaceable ty listed),
      fun ty listed => keeps.free grounded (kept ty listed) (ready.free ty listed)⟩
  exact substitute_clears clears value grounded bound given readyAfter returned (.refl _)

end Engine

namespace Analyzer

/-- A module with a class of boxes, and dictionaries of lists of the same type parameter. -/
def nestingModule : Module :=
  ⟨[.typeVariable "T",
    .defineClass 1 "Box" [.indexed "Generic" "T"] [.pass .unknown],
    .define "nested" (.index (.ofName "Dict") (.display .tuple [.ofName "str",
      .indexed "List" "T"] .unknown) .unknown)]⟩

/-- The progress of a fresh analyzer after that module. -/
def nested : Progress :=
  (Analysis.ofModule nestingModule).after Registry.environment Registry.start

/-- The class of boxes. -/
def boxesClass : ClassId :=
  Registry.standard.store.nextClass

/-- The class of lists of the parameter. -/
def listsClass : ClassId :=
  ⟨boxesClass.index + 1⟩

/-- The class of dictionaries of these lists. -/
def nestedListsClass : ClassId :=
  ⟨boxesClass.index + 2⟩

/-- The parameter is bound to integers. -/
def integers : Bindings :=
  ⟨[(.named "T", builtinType .int)]⟩

/-- A value with integers for the parameter. -/
def withIntegers (value : Value) : Analysis Value :=
  (Engine.atDepth Engine.depthLimit).substitute integers value

/-- The classes among the types of a value with integers for the parameter. -/
def classesWithIntegers (value : Value) : Analysis (List (Option ClassId)) := do
  return (← withIntegers value).allTypes.map Ty.asClass?

/-- A list of an object of the parameter and the class of boxes. -/
def mixedList : Value :=
  .object (.cls listsClass)
    (.sequence ⟨[.object (.parameter (.named "T")) .plain, .type (.cls boxesClass)], true⟩)

/-- Integers are put everywhere in a list of an object of the parameter and the class of boxes: it
becomes a list of an integer and the class of boxes of integers. -/
theorem substitute_leaves_nothing_mixed :
    ∃ result after, withIntegers mixedList Registry.environment nested = .ok result after ∧
      result.allTypes.map Ty.asClass? =
        [some ⟨boxesClass.index + 3⟩, some (builtinClass .int), some ⟨boxesClass.index + 4⟩] ∧
      ∀ ty ∈ result.allTypes, ¬after.store.OccursIn (.named "T") ty := by
  have grounded : nested.Grounded Registry.environment :=
    ((Progress.Grounded.initial {}).after_ofModuleWithin Engine.depthLimit nestingModule).2
  have computed : (classesWithIntegers mixedList).yields Registry.environment nested
      [some ⟨boxesClass.index + 3⟩, some (builtinClass .int), some ⟨boxesClass.index + 4⟩] =
        true := by
    decide +kernel
  obtain ⟨result, after, returned, ending⟩ := bind_eq_ok.mp (ok_of_yields computed)
  have left : (classesWithIntegers mixedList).after Registry.environment nested = after :=
    after_of_ok (bind_of_ok returned _)
  have faithful : ((classesWithIntegers mixedList).after Registry.environment nested).store.Faithful
      integers.types := by
    decide +kernel
  have present : ∀ id ∈ [listsClass, boxesClass], nested.store.HasClass id := by decide +kernel
  have aligned : ∀ id ∈ [listsClass, boxesClass], nested.store.Aligned id := by
    refine fun id among => ⟨?_, ?_, ?_⟩ <;> revert id <;> decide +kernel
  have arguments : ∀ id ∈ [listsClass, boxesClass], ∀ ty ∈ nested.store.arguments id,
      ty.asParameter?.isSome = true := by
    decide +kernel
  have replaceable (id : ClassId) (among : id ∈ [listsClass, boxesClass]) :
      nested.store.Replaceable (.named "T") (.cls id) := by
    refine ⟨aligned id among, fun ty argument => ?_⟩
    have isParameter := arguments id among ty argument
    cases ty with
    | parameter _ => exact ⟨rfl, nofun⟩
    | unknown | cls _ | function _ | marker _ => cases isParameter
  have given : Within grounded.references mixedList :=
    (within_sequence _ _ _).mpr ⟨present _ List.mem_cons_self, (within_cons _ _).mpr ⟨trivial,
      (within_cons _ _).mpr ⟨present _ (List.mem_cons_of_mem _ List.mem_cons_self), within_nil⟩⟩⟩
  have bound : Within grounded.references integers :=
    (within_cons _ _).mpr ⟨grounded.builtin .int, within_nil⟩
  have ready : Ready nested.store (.named "T") mixedList.allTypes mixedList.keptTypes := by
    refine ⟨?_, nofun⟩
    rintro ty (_ | ⟨_, _ | ⟨_, _ | ⟨_, ⟨⟩⟩⟩⟩)
    · exact replaceable _ List.mem_cons_self
    · exact nofun
    · exact replaceable _ (List.mem_cons_of_mem _ List.mem_cons_self)
  have free : ∀ ty ∈ integers.types, ¬nested.store.OccursIn (.named "T") ty := by
    have none : nested.store.arguments (builtinClass .int) = [] :=
      List.isEmpty_iff.mp (by decide +kernel)
    rintro ty (_ | ⟨_, ⟨⟩⟩) (_ | _ | ⟨among, _⟩)
    rw [none] at among
    cases among
  injection ending with classes _
  exact ⟨result, after, returned, classes, Engine.substitute_leaves_nothing Engine.depthLimit
    grounded given bound ready ⟨_, rfl⟩ (by decide) free returned (left ▸ faithful)⟩

/-- Something can be left of a parameter: dictionaries of lists of the parameter are kept as they
are when it is bound to integers, and in these lists it still occurs. -/
theorem nested_argument_left :
    ∃ result after, withIntegers (.object (.cls nestedListsClass) .plain) Registry.environment
        nested = .ok result after ∧
      (integers.find? (.named "T")).bind Ty.asClass? = some (builtinClass .int) ∧
      (nested.store.arguments (builtinClass .int)).isEmpty = true ∧
      ∃ ty ∈ result.allTypes, after.store.OccursIn (.named "T") ty := by
  have computed : (classesWithIntegers (.object (.cls nestedListsClass) .plain)).yields
      Registry.environment nested [some nestedListsClass] = true := by
    decide +kernel
  obtain ⟨result, after, returned, ending⟩ := bind_eq_ok.mp (ok_of_yields computed)
  have left : (classesWithIntegers (.object (.cls nestedListsClass) .plain)).after
      Registry.environment nested = after :=
    after_of_ok (bind_of_ok returned _)
  injection ending with classes _
  have among : some nestedListsClass ∈ result.allTypes.map Ty.asClass? :=
    classes ▸ List.mem_singleton_self _
  obtain ⟨ty, its, isClass⟩ := List.mem_map.mp among
  have found : ((classesWithIntegers (.object (.cls nestedListsClass) .plain)).after
      Registry.environment nested).store.occursWithin (.named "T") 2
        (.cls nestedListsClass) = true := by
    decide +kernel
  refine ⟨result, after, returned, by decide +kernel, by decide +kernel, ty, its, ?_⟩
  cases ty with
  | cls id =>
    cases isClass
    exact occursIn_of_occursWithin (left ▸ found)
  | unknown | parameter _ | function _ | marker _ => cases isClass

end Analyzer

end TypeInference
