import TypeInference.Proofs.Normality
import TypeInference.Proofs.Residues

/-!
# Values that substitution gives back

Substitution looks at the types of a value: at those that are values themselves, and at those of
objects and of what objects of classes hold. The class of a constant is looked at as well, but the
constant keeps it. A value is given back, and nothing is changed, where each type that is looked at
is given back, and the classes of constants are specialized to what is there.

If bindings leave open whatever they bind, then this is so for all values, and only then.
-/

namespace TypeInference

open Analysis Store

namespace Bindings

/-- To be unresolved is to be resolved to nothing. -/
theorem resolve?_eq_none_iff {bindings : Bindings} {parameter : TypeParameter} :
    bindings.resolve? parameter = none ↔ bindings.isUnresolved parameter = true := by
  unfold resolve? isUnresolved
  cases bindings.find? parameter with
  | none => simp
  | some ty =>
    cases ty with
    | parameter target => simp
    | unknown | cls _ | function _ | marker _ => simp

/-- A parameter is resolved to something else than itself. -/
theorem resolve?_ne_itself (bindings : Bindings) (parameter : TypeParameter) :
    bindings.resolve? parameter ≠ some (.parameter parameter) := by
  intro resolved
  unfold resolve? at resolved
  split at resolved
  · split at resolved
    · cases resolved
    · next apart =>
      cases resolved
      exact apart rfl
  · next unlike found =>
    cases resolved
    exact unlike _ rfl
  · cases resolved

end Bindings

namespace Value

mutual

/-- What substitution looks at in a value has a property: types, and the classes of constants. -/
def Meets (asked : Ty → Prop) (constant : ClassId → Prop) : Value → Prop
  | .unknown => True
  | .type ty => asked ty
  | .object (.cls id) .plain => asked (.cls id)
  | .object (.cls id) (.constant _) => constant id
  | .object (.cls id) (.sequence ⟨items, _⟩) => asked (.cls id) ∧ AllMeet asked constant items
  | .object (.cls id) (.mapping ⟨entries, _⟩) =>
    asked (.cls id) ∧ EntriesMeet asked constant entries
  | .object (.cls id) (.iterator element) => asked (.cls id) ∧ Meets asked constant element
  | .object ty _ => asked ty
  | .union alternatives => AllMeet asked constant alternatives

/-- The same for several values. -/
def AllMeet (asked : Ty → Prop) (constant : ClassId → Prop) : List Value → Prop
  | [] => True
  | value :: rest => Meets asked constant value ∧ AllMeet asked constant rest

/-- The same for the keys and values of a mapping. -/
def EntriesMeet (asked : Ty → Prop) (constant : ClassId → Prop) : List (Value × Value) → Prop
  | [] => True
  | (key, value) :: rest =>
    (Meets asked constant key ∧ Meets asked constant value) ∧ EntriesMeet asked constant rest

end

variable {asked : Ty → Prop} {constant : ClassId → Prop}

theorem allMeet_iff {values : List Value} :
    AllMeet asked constant values ↔ ∀ value ∈ values, value.Meets asked constant := by
  induction values with
  | nil => simp [AllMeet]
  | cons value rest inductionHypothesis => simp [AllMeet, inductionHypothesis]

/-- What is looked at in an alternative is looked at in the whole. -/
theorem Meets.alternative {value alternative : Value} (meets : value.Meets asked constant)
    (listed : alternative ∈ value.alternatives) : alternative.Meets asked constant := by
  cases value with
  | unknown | type _ | object _ _ => exact List.mem_singleton.mp listed ▸ meets
  | union alternatives => exact allMeet_iff.mp meets alternative listed

/-- Nothing is looked at in a union but what is in the values that it is made of. -/
theorem meets_union (store : Store) {values : List Value}
    (meets : AllMeet asked constant values) : (store.union values).Meets asked constant := by
  have distinct : ∀ alternative ∈ store.distinctAlternatives values,
      alternative.Meets asked constant := by
    intro alternative listed
    obtain ⟨value, among, its⟩ := List.mem_flatMap.mp (mem_distinctAlternatives listed)
    exact (allMeet_iff.mp meets value among).alternative its
  unfold Store.union
  split
  · trivial
  · change (wrap (store.distinctAlternatives values)).Meets asked constant
    match found : store.distinctAlternatives values with
    | [] => trivial
    | [value] => exact distinct value (found ▸ List.mem_singleton_self value)
    | first :: second :: rest => exact allMeet_iff.mpr (found ▸ distinct)

/-- A type as a value is looked at as a type. -/
theorem meets_ofType {ty : Ty} (own : asked ty) : (ofType ty).Meets asked constant := by
  cases ty with
  | unknown => trivial
  | cls _ | parameter _ | function _ | marker _ => exact own

/-- Of a plain object its type is looked at. -/
theorem meets_ofTy {ty : Ty} (own : asked ty) : (ofTy ty).Meets asked constant := by
  cases ty with
  | unknown => trivial
  | cls _ | parameter _ | function _ | marker _ => exact own

mutual

/-- What is looked at in a value is among its types. -/
theorem meets_of_allTypes (constants : ∀ id, asked (.cls id) → constant id) :
    ∀ {value : Value}, (∀ ty ∈ value.allTypes, asked ty) → value.Meets asked constant
  | .unknown, _ => trivial
  | .type _, every | .object (.cls _) .plain, every => every _ List.mem_cons_self
  | .object (.cls id) (.constant _), every => constants id (every _ List.mem_cons_self)
  | .object (.cls _) (.sequence ⟨_, _⟩), every =>
    ⟨every _ List.mem_cons_self,
      allMeet_of_allTypes constants fun ty among => every ty (List.mem_cons_of_mem _ among)⟩
  | .object (.cls _) (.mapping ⟨_, _⟩), every =>
    ⟨every _ List.mem_cons_self,
      entriesMeet_of_allTypes constants fun ty among => every ty (List.mem_cons_of_mem _ among)⟩
  | .object (.cls _) (.iterator _), every =>
    ⟨every _ List.mem_cons_self,
      meets_of_allTypes constants fun ty among => every ty (List.mem_cons_of_mem _ among)⟩
  | .object .unknown _, every | .object (.parameter _) _, every | .object (.function _) _, every
  | .object (.marker _) _, every => every _ (mem_allTypes_object _ _)
  | .union _, every => allMeet_of_allTypes constants every

theorem allMeet_of_allTypes (constants : ∀ id, asked (.cls id) → constant id) :
    ∀ {values : List Value}, (∀ ty ∈ typesOfItems values, asked ty) →
      AllMeet asked constant values
  | [], _ => trivial
  | _ :: _, every => by
    rw [typesOfItems, List.forall_mem_append] at every
    exact ⟨meets_of_allTypes constants every.1, allMeet_of_allTypes constants every.2⟩

theorem entriesMeet_of_allTypes (constants : ∀ id, asked (.cls id) → constant id) :
    ∀ {entries : List (Value × Value)}, (∀ ty ∈ typesOfEntries entries, asked ty) →
      EntriesMeet asked constant entries
  | [], _ => trivial
  | (_, _) :: _, every => by
    rw [typesOfEntries, List.forall_mem_append, List.forall_mem_append] at every
    exact ⟨⟨meets_of_allTypes constants every.1.1, meets_of_allTypes constants every.1.2⟩,
      entriesMeet_of_allTypes constants every.2⟩

end

end Value

namespace Store

/-- A type in whose place nothing else is put: it stands for no type but itself, or nothing is
resolved. -/
def Unreplaced (store : Store) (bindings : Bindings) (ty : Ty) : Prop :=
  store.isGenericType ty = false ∨ ∀ parameter, bindings.resolve? parameter = none

/-- A class is given back if nothing is put in its place. -/
theorem Unreplaced.kept {store : Store} {bindings : Bindings} {id : ClassId}
    (unreplaced : store.Unreplaced bindings (.cls id)) : store.Kept bindings id := by
  refine unreplaced.imp_right fun nothing ty _ => ?_
  cases ty with
  | parameter parameter => exact nothing parameter
  | unknown | cls _ | function _ | marker _ => rfl

end Store

namespace Engine

variable {engine : Engine} {environment : Environment} {bindings : Bindings} {progress : Progress}

/-- A type that a substitution gives back, with nothing changed. -/
def GivesBack (engine : Engine) (bindings : Bindings) (environment : Environment)
    (progress : Progress) (ty : Ty) : Prop :=
  engine.substituteType bindings ty environment progress = .ok ty progress

/-- A class that a substitution gives something for that is there, with nothing changed. -/
def Finds (engine : Engine) (bindings : Bindings) (environment : Environment)
    (progress : Progress) (id : ClassId) : Prop :=
  ∃ specialized, engine.substituteClass bindings id environment progress = .ok specialized progress

/-- A value whose types are given back by a substitution, with nothing changed. -/
def Saturated (engine : Engine) (bindings : Bindings) (environment : Environment)
    (progress : Progress) : Value → Prop :=
  Value.Meets (engine.GivesBack bindings environment progress)
    (engine.Finds bindings environment progress)

theorem givesBack_class_iff {id : ClassId} :
    engine.GivesBack bindings environment progress (.cls id) ↔
      engine.substituteClass bindings id environment progress = .ok id progress := by
  refine ⟨fun kept => ?_, fun kept => bind_of_ok kept _⟩
  obtain ⟨specialized, _, substituted, ending⟩ := bind_eq_ok.mp kept
  cases ending
  exact substituted

/-- A parameter is given back if it is not resolved. -/
theorem givesBack_parameter_iff {parameter : TypeParameter} :
    engine.GivesBack bindings environment progress (.parameter parameter) ↔
      bindings.resolve? parameter = none := by
  have gives : engine.substituteType bindings (.parameter parameter) environment progress =
    .ok ((bindings.resolve? parameter).getD (.parameter parameter)) progress := rfl
  rw [GivesBack, gives]
  cases resolved : bindings.resolve? parameter with
  | none => exact iff_of_true rfl rfl
  | some ty =>
    refine iff_of_false (fun kept => ?_) (Option.some_ne_none ty)
    injection kept with same _
    exact bindings.resolve?_ne_itself parameter (resolved.trans (congrArg some same))

mutual

/-- A saturated value is given back, and nothing is changed. -/
theorem substitute_saturated : ∀ {value : Value},
    engine.Saturated bindings environment progress value → progress.store.IsNormal value →
      engine.substitute bindings value environment progress = .ok value progress
  | .unknown, _, _ => by
    rw [substitute]
    rfl
  | .type ty, kept, normal => by
    have known : ty ≠ .unknown := normal
    rw [substitute, bind_of_ok kept]
    cases ty with
    | unknown => exact absurd rfl known
    | cls _ | parameter _ | function _ | marker _ => rfl
  | .union alternatives, saturated, normal => by
    rw [substitute, bind_of_ok (substituteAll_saturated saturated normal.2), bind_apply,
      store_apply]
    dsimp only
    rw [union_of_separate normal.1]
    rfl
  | .object (.parameter parameter) content, kept, _ => by
    rw [substitute, givesBack_parameter_iff.mp kept]
    rfl
  | .object (.cls id) .plain, kept, _ => by
    rw [substitute, bind_of_ok (givesBack_class_iff.mp kept)]
    dsimp only
    rw [if_pos rfl]
    rfl
  | .object (.cls id) (.constant _), kept, _ => by
    obtain ⟨specialized, substituted⟩ := kept
    rw [substitute, bind_of_ok substituted]
    rfl
  | .object (.cls id) (.sequence ⟨items, _⟩), saturated, normal => by
    rw [substitute, bind_of_ok (givesBack_class_iff.mp saturated.1)]
    exact bind_of_ok (substituteAll_saturated saturated.2 normal.2) _
  | .object (.cls id) (.mapping ⟨entries, _⟩), saturated, normal => by
    rw [substitute, bind_of_ok (givesBack_class_iff.mp saturated.1)]
    exact bind_of_ok (substituteEntries_saturated saturated.2 normal.2) _
  | .object (.cls id) (.iterator element), saturated, normal => by
    rw [substitute, bind_of_ok (givesBack_class_iff.mp saturated.1)]
    exact bind_of_ok (substitute_saturated saturated.2 normal.2) _
  | .object .unknown _, _, _ | .object (.function _) _, _, _ | .object (.marker _) _, _, _ => by
    rw [substitute]
    · rfl
    all_goals nofun

theorem substituteAll_saturated : ∀ {values : List Value},
    Value.AllMeet (engine.GivesBack bindings environment progress)
        (engine.Finds bindings environment progress) values → progress.store.AreNormal values →
      engine.substituteAll bindings values environment progress = .ok values progress
  | [], _, _ => by
    rw [substituteAll]
    rfl
  | value :: others, saturated, normal => by
    rw [substituteAll, bind_of_ok (substitute_saturated saturated.1 normal.1),
      bind_of_ok (substituteAll_saturated saturated.2 normal.2)]
    rfl

theorem substituteEntries_saturated : ∀ {entries : List (Value × Value)},
    Value.EntriesMeet (engine.GivesBack bindings environment progress)
        (engine.Finds bindings environment progress) entries →
      progress.store.AreNormalEntries entries →
      engine.substituteEntries bindings entries environment progress = .ok entries progress
  | [], _, _ => by
    rw [substituteEntries]
    rfl
  | (key, value) :: others, saturated, normal => by
    rw [substituteEntries, bind_of_ok (substitute_saturated saturated.1.1 normal.1.1),
      bind_of_ok (substitute_saturated saturated.1.2 normal.1.2),
      bind_of_ok (substituteEntries_saturated saturated.2 normal.2)]
    rfl

end

/-- A type is given back if nothing is put in its place. -/
theorem givesBack_unreplaced {ty : Ty} (kept : progress.store.Unreplaced bindings ty) :
    engine.GivesBack bindings environment progress ty := by
  cases ty with
  | cls id => exact givesBack_class_iff.mpr (substituteClass_kept kept.kept)
  | parameter parameter => exact givesBack_parameter_iff.mpr (kept.resolve_left nofun parameter)
  | unknown | function _ | marker _ => rfl

/-- A value stays what it is if nothing is put in the place of any of its types. -/
theorem substitute_unreplaced {value : Value} (normal : progress.store.IsNormal value)
    (kept : ∀ ty ∈ value.allTypes, progress.store.Unreplaced bindings ty) :
    engine.substitute bindings value environment progress = .ok value progress :=
  substitute_saturated (Value.meets_of_allTypes
    (fun id same => ⟨id, givesBack_class_iff.mp same⟩)
    fun ty among => givesBack_unreplaced (kept ty among)) normal

/-- Bindings send every parameter that they have to itself, if and only if substitution gives all
values in normal form back as they are, unions, content and partially bound classes included, and
leaves all progress as it is: classes, caches, scopes and diagnostics. This is so for every engine
and all progress.

Proof: where nothing is resolved, nothing is put in the place of any type, and in normal form
unions are united from what they are. A parameter that is resolved is not given back as a type. -/
theorem substitute_identity_iff (engine : Engine) (environment : Environment)
    (progress : Progress) (bindings : Bindings) :
    (∀ parameter ∈ bindings.keys, bindings.isUnresolved parameter = true) ↔
      ∀ value, progress.store.IsNormal value →
        engine.substitute bindings value environment progress = .ok value progress := by
  constructor
  · intro open_ value normal
    have unresolved (parameter : TypeParameter) : bindings.resolve? parameter = none := by
      refine Bindings.resolve?_eq_none_iff.mpr ?_
      by_contra resolved
      obtain ⟨own, among, same⟩ :=
        Bindings.exists_key_of_resolved (Bool.eq_false_iff.mpr resolved)
      exact resolved (Bindings.isUnresolved_congr same ▸ open_ own among)
    exact substitute_unreplaced normal fun ty _ => .inr unresolved
  · intro identity parameter _
    have normal : progress.store.IsNormal (.type (.parameter parameter)) := by
      intro same
      cases same
    have given := identity _ normal
    rw [substitute] at given
    obtain ⟨ty, _, replaced, ending⟩ := bind_eq_ok.mp given
    have kept : engine.GivesBack bindings environment progress (.parameter parameter) := by
      cases replaced
      injection ending with same _
      cases resolved : bindings.resolve? parameter with
      | none => exact givesBack_parameter_iff.mpr resolved
      | some ty =>
        rw [resolved] at same
        cases ty with
        | unknown => cases same
        | cls _ | parameter _ | function _ | marker _ =>
          injection same with same
          exact absurd (resolved.trans (congrArg some same))
            (bindings.resolve?_ne_itself parameter)
    exact Bindings.resolve?_eq_none_iff.mp (givesBack_parameter_iff.mp kept)

end Engine

namespace Analyzer

/-- A union of a list with content, a mapping from strings to lists, and the parameter. -/
def openValue : Value :=
  .union [mixedList,
    .object (.cls nestedListsClass) (.mapping ⟨[(Store.constantObject (.str "key"),
      .object (.cls listsClass) (.sequence ⟨[.object (.parameter (.named "T")) .plain], false⟩))],
      false⟩),
    .type (.parameter (.named "T")), .type (.cls boxesClass)]

/-- The parameter is sent to itself. -/
theorem substitute_identity_iff_nested :
    (Engine.atDepth Engine.depthLimit).substitute (.identity [.named "T"]) openValue
      Registry.environment nested = .ok openValue nested :=
  (Engine.substitute_identity_iff _ Registry.environment nested (.identity [.named "T"])).mp
    (by decide +kernel) openValue (by decide +kernel)

end Analyzer

end TypeInference
