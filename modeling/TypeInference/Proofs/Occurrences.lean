import TypeInference.Proofs.Positions

/-!
# Types in which a type parameter occurs

A type parameter occurs in a type if the type is the parameter, or a marker that lists it, or a
class with a parameter that is bound to a type in which it occurs. It occurs in a value if it does
so in one of the types that the value and its content have.

Types are told apart by their identities alone, and a specialization may be taken for another one
of the same identity. The parameters that occur in a type are known by its identity where no two
types share one by accident: types of one identity then have the same form, and classes among them
bind their parameters to types of the same identities. What occurs in a type stays the same as
long as the shapes of classes do.
-/

namespace TypeInference

namespace Value

mutual

/-- The types in a value: its own and those of its content, at any depth. -/
def allTypes : Value → List Ty
  | .unknown => []
  | .type ty => [ty]
  | .object ty .plain => [ty]
  | .object ty (.constant _) => [ty]
  | .object ty (.sequence ⟨items, _⟩) => ty :: typesOfItems items
  | .object ty (.mapping ⟨entries, _⟩) => ty :: typesOfEntries entries
  | .object ty (.iterator element) => ty :: allTypes element
  | .union alternatives => typesOfItems alternatives

/-- The types in some values. -/
def typesOfItems : List Value → List Ty
  | [] => []
  | value :: rest => allTypes value ++ typesOfItems rest

/-- The types in the entries of a mapping. -/
def typesOfEntries : List (Value × Value) → List Ty
  | [] => []
  | (key, value) :: rest => allTypes key ++ allTypes value ++ typesOfEntries rest

end

/-- The types in some values are those in each of them. -/
theorem mem_typesOfItems {values : List Value} {ty : Ty} :
    ty ∈ typesOfItems values ↔ ∃ value ∈ values, ty ∈ value.allTypes := by
  induction values with
  | nil => simp [typesOfItems]
  | cons value rest inductionHypothesis =>
    simp [typesOfItems, inductionHypothesis]

/-- The type of an object is among its types. -/
theorem mem_allTypes_object (ty : Ty) (content : Content) : ty ∈ (object ty content).allTypes := by
  cases content with
  | plain | constant _ => exact List.mem_singleton_self ty
  | sequence listed | mapping listed =>
    cases listed
    exact List.mem_cons_self
  | iterator _ => exact List.mem_cons_self

/-- A plain object has no other type than its own. -/
theorem eq_of_mem_allTypes_ofTy {ty other : Ty} (listed : other ∈ (ofTy ty).allTypes) :
    other = ty := by
  cases ty with
  | unknown => cases listed
  | cls _ | parameter _ | function _ | marker _ => exact List.mem_singleton.mp listed

/-- A type as a value has no other type than this one. -/
theorem eq_of_mem_allTypes_ofType {ty other : Ty} (listed : other ∈ (ofType ty).allTypes) :
    other = ty := by
  cases ty with
  | unknown => cases listed
  | cls _ | parameter _ | function _ | marker _ => exact List.mem_singleton.mp listed

/-- The alternatives of a value have no types but those of the value. -/
theorem mem_allTypes_of_alternative {value alternative : Value}
    (listed : alternative ∈ value.alternatives) {ty : Ty} (among : ty ∈ alternative.allTypes) :
    ty ∈ value.allTypes := by
  cases value with
  | unknown | type _ | object _ _ => exact List.mem_singleton.mp listed ▸ among
  | union alternatives => exact mem_typesOfItems.mpr ⟨alternative, listed, among⟩

end Value

namespace Store

/-- A union has no types but those of the values that it is made of. -/
theorem mem_allTypes_union {store : Store} {values : List Value} {ty : Ty}
    (listed : ty ∈ (store.union values).allTypes) : ∃ value ∈ values, ty ∈ value.allTypes := by
  have added (rest : List Value) : ∀ known : List Value,
      ∀ alternative ∈ rest.foldl store.addAlternative known,
        alternative ∈ known ∨ alternative ∈ rest := by
    induction rest with
    | nil => exact fun _ _ among => .inl among
    | cons value rest inductionHypothesis =>
      intro known alternative among
      rcases inductionHypothesis _ alternative among with earlier | later
      · unfold addAlternative at earlier
        split at earlier
        · exact .inl earlier
        · rcases List.mem_append.mp earlier with before | last
          · exact .inl before
          · exact .inr (List.mem_singleton.mp last ▸ List.mem_cons_self)
      · exact .inr (List.mem_cons_of_mem _ later)
  have wrapped {alternatives : List Value} (among : ty ∈ (wrap alternatives).allTypes) :
      ∃ alternative ∈ alternatives, ty ∈ alternative.allTypes := by
    match alternatives with
    | [] => cases among
    | [value] => exact ⟨value, List.mem_singleton_self value, among⟩
    | first :: second :: rest => exact Value.mem_typesOfItems.mp among
  unfold union at listed
  split at listed
  · cases listed
  · obtain ⟨alternative, among, own⟩ := wrapped listed
    obtain ⟨value, given, its⟩ := List.mem_flatMap.mp
      ((added _ [] alternative among).resolve_left List.not_mem_nil)
    exact ⟨value, given, Value.mem_allTypes_of_alternative its own⟩

/-- The types that the parameters of a class are bound to. -/
def arguments (store : Store) (id : ClassId) : List Ty :=
  (store.classAt id).parameters.types

/-- An object of a class has the class as its type, and else types that its parameters are bound
to. -/
theorem mem_allTypes_newObject {store : Store} {id : ClassId} {ty : Ty}
    (listed : ty ∈ (store.newObject id).allTypes) : ty = .cls id ∨ ty ∈ store.arguments id := by
  let sample (place : Nat) : Value := ((store.arguments id)[place]?.map Value.ofTy).getD .unknown
  have sampled (place : Nat) (among : ty ∈ (sample place).allTypes) : ty ∈ store.arguments id := by
    dsimp only [sample] at among
    cases found : (store.arguments id)[place]? with
    | none =>
      rw [found] at among
      cases among
    | some argument =>
      rw [found] at among
      rw [Value.eq_of_mem_allTypes_ofTy among]
      exact List.mem_of_getElem? found
  unfold newObject at listed
  dsimp only at listed
  split at listed
  · cases found : (store.classAt id).parameters.types.head? with
    | none =>
      rw [found] at listed
      cases listed
    | some argument =>
      rw [found] at listed
      rw [Value.eq_of_mem_allTypes_ofType listed]
      exact .inr (List.mem_of_head? found)
  · have first (inside : ty ∈ Value.typesOfItems [sample 0]) : ty ∈ store.arguments id :=
      sampled 0 ((List.append_nil _).subst inside)
    split at listed
    -- Lists, sets and tuples have one sample, mappings two, and iterators yield one.
    case h_2 | h_3 | h_4 => exact (List.mem_cons.mp listed).imp_right first
    case h_5 =>
      refine (List.mem_cons.mp listed).imp_right fun inside => ?_
      rw [Value.typesOfEntries, Value.typesOfEntries, List.append_nil] at inside
      exact (List.mem_append.mp inside).elim (sampled 0) (sampled 1)
    case h_6 | h_7 => exact (List.mem_cons.mp listed).imp_right (sampled 0)
    case h_1 | h_8 => exact .inl (List.mem_singleton.mp listed)

/-- A type parameter occurs in a type. -/
inductive OccursIn (store : Store) (parameter : TypeParameter) : Ty → Prop
  | itself {other : TypeParameter} (same : other.hash = parameter.hash) :
      OccursIn store parameter (.parameter other)
  | listed {parameters : List TypeParameter} {other : TypeParameter} (among : other ∈ parameters)
      (same : other.hash = parameter.hash) : OccursIn store parameter (.marker parameters)
  | argument {id : ClassId} {ty : Ty} (among : ty ∈ store.arguments id)
      (inside : OccursIn store parameter ty) : OccursIn store parameter (.cls id)

/-- Whether a parameter is found in a type that is followed to a given depth. -/
def occursWithin (store : Store) (parameter : TypeParameter) : Nat → Ty → Bool
  | _, .parameter other => other.hash = parameter.hash
  | _, .marker parameters => parameters.any fun other => other.hash = parameter.hash
  | depth + 1, .cls id => (store.arguments id).any (store.occursWithin parameter depth)
  | _, _ => false

/-- What is found occurs. -/
theorem occursIn_of_occursWithin {store : Store} {parameter : TypeParameter} {depth : Nat} :
    ∀ {ty : Ty}, store.occursWithin parameter depth ty = true → store.OccursIn parameter ty := by
  induction depth with
  | zero =>
    intro ty found
    cases ty with
    | parameter other => exact .itself (of_decide_eq_true found)
    | marker parameters =>
      obtain ⟨other, among, same⟩ := List.any_eq_true.mp found
      exact .listed among (of_decide_eq_true same)
    | unknown | function _ | cls _ => cases found
  | succ depth inductionHypothesis =>
    intro ty found
    cases ty with
    | parameter other => exact .itself (of_decide_eq_true found)
    | marker parameters =>
      obtain ⟨other, among, same⟩ := List.any_eq_true.mp found
      exact .listed among (of_decide_eq_true same)
    | cls id =>
      obtain ⟨ty, among, inside⟩ := List.any_eq_true.mp found
      exact .argument among (inductionHypothesis inside)
    | unknown | function _ => cases found

/-- Types of one form: the same kind of type, for classes bound to types of the same identities. -/
def SameForm (store : Store) : Ty → Ty → Prop
  | .cls first, .cls second =>
    (store.arguments first).map store.typeHash = (store.arguments second).map store.typeHash
  | .marker first, .marker second =>
    first.map TypeParameter.hash = second.map TypeParameter.hash
  | .parameter _, .parameter _ | .function _, .function _ | .unknown, .unknown => True
  | _, _ => False

instance (store : Store) (first second : Ty) : Decidable (store.SameForm first second) := by
  unfold SameForm
  split <;> infer_instance

/-- Some types and all those that the parameters of classes are bound to. -/
def typesWith (store : Store) (given : List Ty) : List Ty :=
  given ++ store.classes.toList.flatMap (·.parameters.types)

/-- Identities are not shared by accident: no class has that of the unknown type, and types of one
identity have one form. This concerns some given types and those that classes are bound to. -/
structure Faithful (store : Store) (given : List Ty) : Prop where
  known : ∀ record ∈ store.classes.toList, record.hash ≠ .unknown
  alike : ∀ first ∈ store.typesWith given, ∀ second ∈ store.typesWith given,
    store.typeHash first = store.typeHash second → store.SameForm first second

instance (store : Store) (given : List Ty) : Decidable (store.Faithful given) :=
  decidable_of_iff ((∀ record ∈ store.classes.toList, record.hash ≠ .unknown) ∧
      ∀ first ∈ store.typesWith given, ∀ second ∈ store.typesWith given,
        store.typeHash first = store.typeHash second → store.SameForm first second)
    ⟨fun ⟨known, alike⟩ => ⟨known, alike⟩, fun faithful => ⟨faithful.known, faithful.alike⟩⟩

variable {store : Store} {given : List Ty}

theorem mem_typesWith_of_given {ty : Ty} (listed : ty ∈ given) : ty ∈ store.typesWith given :=
  List.mem_append_left _ listed

theorem mem_typesWith_of_argument {id : ClassId} {ty : Ty} (listed : ty ∈ store.arguments id) :
    ty ∈ store.typesWith given := by
  by_cases present : store.HasClass id
  · exact List.mem_append_right _ (List.mem_flatMap.mpr ⟨_, classAt_mem present, listed⟩)
  · rw [arguments, classAt_of_not_hasClass store id present] at listed
    cases listed

/-- Lists with the same identities have for each type one of its identity. -/
theorem exists_same_identity {first second : List Ty}
    (same : first.map store.typeHash = second.map store.typeHash) {ty : Ty} (listed : ty ∈ first) :
    ∃ other ∈ second, store.typeHash other = store.typeHash ty := by
  have among : store.typeHash ty ∈ second.map store.typeHash :=
    same ▸ List.mem_map_of_mem listed
  exact List.mem_map.mp among

/-- A parameter occurs in all types of one identity or in none. -/
theorem Faithful.occursIn (faithful : store.Faithful given) {parameter : TypeParameter} {first : Ty}
    (occurs : store.OccursIn parameter first) : ∀ {second : Ty},
      first ∈ store.typesWith given → second ∈ store.typesWith given →
        store.typeHash first = store.typeHash second → store.OccursIn parameter second := by
  induction occurs with
  | @itself other named =>
    intro second one two same
    have alike := faithful.alike _ one _ two same
    cases second with
    | parameter last => exact .itself (same.symm.trans named)
    | unknown | cls _ | function _ | marker _ => exact alike.elim
  | @listed parameters other among named =>
    intro second one two same
    have alike := faithful.alike _ one _ two same
    cases second with
    | marker others =>
      have found : other.hash ∈ others.map TypeParameter.hash :=
        alike ▸ List.mem_map_of_mem among
      obtain ⟨last, its, equal⟩ := List.mem_map.mp found
      exact .listed its (equal.trans named)
    | unknown | cls _ | function _ | parameter _ => exact alike.elim
  | @argument id ty among inside inductionHypothesis =>
    intro second one two same
    have alike := faithful.alike _ one _ two same
    cases second with
    | cls other =>
      obtain ⟨last, its, equal⟩ := exists_same_identity alike among
      exact .argument its (inductionHypothesis (mem_typesWith_of_argument among)
        (mem_typesWith_of_argument its) equal.symm)
    | unknown | marker _ | function _ | parameter _ => exact alike.elim

/-- The types that classes are bound to are in the store. -/
def HasArguments (store : Store) : Prop :=
  ∀ id, ∀ ty ∈ store.arguments id, store.HasType ty

namespace KeepsShapes

variable {before after : Store}

theorem arguments (keeps : before.KeepsShapes after) {id : ClassId} (present : before.HasClass id) :
    after.arguments id = before.arguments id := by
  rw [Store.arguments, ClassRecord.parameters_of_shape (keeps.shapes id present)]
  rfl

/-- A parameter that occurs in a type that was there did so before. -/
theorem occursIn_before (keeps : before.KeepsShapes after) (closed : before.HasArguments)
    {parameter : TypeParameter} {ty : Ty} (occurs : after.OccursIn parameter ty)
    (present : before.HasType ty) : before.OccursIn parameter ty := by
  induction occurs with
  | itself same => exact .itself same
  | listed among same => exact .listed among same
  | argument among _ inductionHypothesis =>
    rw [keeps.arguments present] at among
    exact .argument among (inductionHypothesis (closed _ _ among))

end KeepsShapes

end Store

/-- Grounded progress has the types that its classes are bound to. -/
theorem Progress.Grounded.hasArguments {environment : Environment} {progress : Progress}
    (grounded : progress.Grounded environment) : progress.store.HasArguments :=
  fun id ty listed => Store.hasType_of_within (fun _ has => has)
    ((grounded.stored.1 id).parameters ty listed)

end TypeInference
