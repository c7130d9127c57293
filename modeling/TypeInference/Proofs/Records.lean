import TypeInference.Generics.Specialization

/-!
# Records under changes of the store

What every change of the store does to the record of every class and function.
A change of a place outside of the store does nothing, so the laws need no
assumption on the place.
-/

namespace TypeInference

namespace ClassId

/-- Places with one index are one place. -/
theorem eq_of_index {first second : ClassId} (same : first.index = second.index) :
    first = second := by
  cases first
  cases second
  exact congrArg ClassId.mk same

end ClassId

namespace FunctionId

/-- Places with one index are one place. -/
theorem eq_of_index {first second : FunctionId} (same : first.index = second.index) :
    first = second := by
  cases first
  cases second
  exact congrArg FunctionId.mk same

end FunctionId

namespace MemberTable

/-- An added member keeps the order of the names; an unknown name comes last. -/
theorem keys_insert (table : MemberTable) (name : String) (value : Value) (overwrite : Bool) :
    (table.insert name value overwrite).2.keys =
      if name ∈ table.keys then table.keys else table.keys ++ [name] := by
  have known := table.contains_iff_mem_keys name
  unfold insert
  split
  · next kept =>
    have listed : name ∈ table.keys := known.mp (by
      rw [Bool.and_eq_true] at kept
      exact kept.1)
    simp [listed]
  · exact table.keys_put name value

/-- Different names stay different. -/
theorem nodup_keys_insert (table : MemberTable) (name : String) (value : Value)
    (overwrite : Bool) (distinct : table.keys.Nodup) :
    (table.insert name value overwrite).2.keys.Nodup := by
  unfold insert
  split
  · exact distinct
  · exact table.nodup_keys_put name value distinct

/-- A member that is not to be replaced and is there leaves the table as it is. -/
theorem insert_of_not_changed (table : MemberTable) (name : String) (value : Value)
    (overwrite : Bool) (unchanged : (table.insert name value overwrite).1 = false) :
    (table.insert name value overwrite).2 = table := by
  unfold insert at unchanged ⊢
  split at unchanged
  · next kept => simp [kept]
  · simp at unchanged

end MemberTable

namespace Bindings

/-- Collecting parameters loses none of them. -/
theorem foldl_addDistinct_ne_nil {known : List TypeParameter} (some_known : known ≠ [])
    (added : List TypeParameter) : added.foldl addDistinct known ≠ [] := by
  induction added generalizing known with
  | nil => exact some_known
  | cons parameter rest inductionHypothesis =>
    refine inductionHypothesis ?_
    unfold addDistinct
    split
    · exact some_known
    · exact List.append_ne_nil_of_left_ne_nil some_known _

/-- Where no parameter is open, no type is a parameter. -/
theorem asParameter?_of_openParameters {bindings : Bindings} (closed : bindings.openParameters = [])
    {ty : Ty} (listed : ty ∈ bindings.types) : ty.asParameter? = none := by
  have none_open : bindings.types.filterMap Ty.asParameter? = [] := by
    cases found : bindings.types.filterMap Ty.asParameter? with
    | nil => rfl
    | cons parameter rest =>
      rw [openParameters, found] at closed
      exact absurd closed (foldl_addDistinct_ne_nil (List.cons_ne_nil parameter []) rest)
  exact List.filterMap_eq_nil_iff.mp none_open ty listed

end Bindings

namespace Store

/-- A class that is not generic is bound to no parameter. -/
theorem asParameter?_of_not_isGeneric {store : Store} {id : ClassId}
    (closed : store.isGeneric id = false) {ty : Ty}
    (listed : ty ∈ (store.classAt id).parameters.types) : ty.asParameter? = none := by
  have none_open : (store.classAt id).openParameters = [] := by
    unfold isGeneric isGenericWithin at closed
    rw [if_neg (by simp)] at closed
    exact List.isEmpty_iff.mp (by simpa using (Bool.or_eq_false_iff.mp closed).1)
  exact Bindings.asParameter?_of_openParameters none_open listed

instance (store : Store) (id : ClassId) : Decidable (store.HasClass id) :=
  inferInstanceAs (Decidable (id.index < store.classes.size))

instance (store : Store) (id : FunctionId) : Decidable (store.HasFunction id) :=
  inferInstanceAs (Decidable (id.index < store.functions.size))

/-- A place outside of the store reads as the empty record. -/
theorem classAt_of_not_hasClass (store : Store) (id : ClassId) (outside : ¬store.HasClass id) :
    store.classAt id = default := by
  have beyond : store.classes.size ≤ id.index := Nat.not_lt.mp outside
  simp [classAt, Array.getElem?_eq_none beyond]

/-- A place outside of the store reads as the empty record. -/
theorem functionAt_of_not_hasFunction (store : Store) (id : FunctionId)
    (outside : ¬store.HasFunction id) : store.functionAt id = default := by
  have beyond : store.functions.size ≤ id.index := Nat.not_lt.mp outside
  simp [functionAt, Array.getElem?_eq_none beyond]

/-- The place of the class that is created next. -/
def nextClass (store : Store) : ClassId :=
  ⟨store.classes.size⟩

/-- The place of the function that is created next. -/
def nextFunction (store : Store) : FunctionId :=
  ⟨store.functions.size⟩

@[simp] theorem addClass_fst (store : Store) (record : ClassRecord) :
    (store.addClass record).1 = store.nextClass := rfl

@[simp] theorem addFunction_fst (store : Store) (record : FunctionRecord) :
    (store.addFunction record).1 = store.nextFunction := rfl

/-- The next class is not in the store yet. -/
theorem not_hasClass_nextClass (store : Store) : ¬store.HasClass store.nextClass :=
  Nat.lt_irrefl _

/-- A class of the store is not the next one. -/
theorem ne_nextClass {store : Store} {id : ClassId} (present : store.HasClass id) :
    id ≠ store.nextClass := by
  rintro rfl
  exact store.not_hasClass_nextClass present

/-- The classes after one is created are those from before and the new one. -/
theorem hasClass_addClass (store : Store) (record : ClassRecord) (id : ClassId) :
    (store.addClass record).2.HasClass id ↔
      store.HasClass id ∨ id = store.nextClass := by
  unfold HasClass addClass
  simp only [Array.size_push]
  constructor
  · intro inside
    rcases Nat.lt_succ_iff_lt_or_eq.mp inside with before | last
    · exact .inl before
    · exact .inr (ClassId.eq_of_index last)
  · rintro (before | rfl)
    · exact Nat.lt_succ_of_lt before
    · exact Nat.lt_succ_self _

/-- The record of every class after one is created. -/
theorem classAt_addClass_eq (store : Store) (record : ClassRecord) (id : ClassId) :
    (store.addClass record).2.classAt id =
      if id = store.nextClass then record else store.classAt id := by
  split
  · next created => rw [created, ← addClass_fst store record, classAt_addClass]
  · next apart =>
    have indices : id.index ≠ store.classes.size := fun same =>
      apart (ClassId.eq_of_index same)
    simp [addClass, classAt, Array.getElem?_push, indices]

@[simp] theorem functionAt_addClass (store : Store) (record : ClassRecord) (id : FunctionId) :
    (store.addClass record).2.functionAt id = store.functionAt id := rfl

@[simp] theorem hasFunction_addClass (store : Store) (record : ClassRecord) (id : FunctionId) :
    (store.addClass record).2.HasFunction id ↔ store.HasFunction id := Iff.rfl

@[simp] theorem hasClass_modifyClass (store : Store) (changed id : ClassId)
    (change : ClassRecord → ClassRecord) :
    (store.modifyClass changed change).HasClass id ↔ store.HasClass id := by
  simp [HasClass]

/-- The record of every class after one of them is changed. -/
theorem classAt_modifyClass_eq (store : Store) (changed id : ClassId)
    (change : ClassRecord → ClassRecord) :
    (store.modifyClass changed change).classAt id =
      if id = changed ∧ store.HasClass changed then change (store.classAt id)
      else store.classAt id := by
  split
  · next reached =>
    obtain ⟨rfl, present⟩ := reached
    exact store.classAt_modifyClass id change present
  · next missed =>
    by_cases same : id = changed
    · subst same
      have outside : ¬store.HasClass id := fun present => missed ⟨rfl, present⟩
      rw [classAt_of_not_hasClass store id outside,
        classAt_of_not_hasClass _ id (by simpa using outside)]
    · exact store.classAt_modifyClass_of_ne changed id change same

@[simp] theorem functionAt_modifyClass (store : Store) (changed : ClassId)
    (change : ClassRecord → ClassRecord) (id : FunctionId) :
    (store.modifyClass changed change).functionAt id = store.functionAt id := rfl

@[simp] theorem hasFunction_modifyClass (store : Store) (changed : ClassId)
    (change : ClassRecord → ClassRecord) (id : FunctionId) :
    (store.modifyClass changed change).HasFunction id ↔ store.HasFunction id := Iff.rfl

@[simp] theorem classAt_addFunction (store : Store) (record : FunctionRecord) (id : ClassId) :
    (store.addFunction record).2.classAt id = store.classAt id := rfl

@[simp] theorem hasClass_addFunction (store : Store) (record : FunctionRecord) (id : ClassId) :
    (store.addFunction record).2.HasClass id ↔ store.HasClass id := Iff.rfl

/-- The functions after one is created are those from before and the new one. -/
theorem hasFunction_addFunction (store : Store) (record : FunctionRecord) (id : FunctionId) :
    (store.addFunction record).2.HasFunction id ↔
      store.HasFunction id ∨ id = store.nextFunction := by
  unfold HasFunction addFunction
  simp only [Array.size_push]
  constructor
  · intro inside
    rcases Nat.lt_succ_iff_lt_or_eq.mp inside with before | last
    · exact .inl before
    · exact .inr (FunctionId.eq_of_index last)
  · rintro (before | rfl)
    · exact Nat.lt_succ_of_lt before
    · exact Nat.lt_succ_self _

/-- The record of every function after one is created. -/
theorem functionAt_addFunction_eq (store : Store) (record : FunctionRecord) (id : FunctionId) :
    (store.addFunction record).2.functionAt id =
      if id = store.nextFunction then record else store.functionAt id := by
  split
  · next created => rw [created, ← addFunction_fst store record, functionAt_addFunction]
  · next apart =>
    have indices : id.index ≠ store.functions.size := fun same =>
      apart (FunctionId.eq_of_index same)
    simp [addFunction, functionAt, Array.getElem?_push, indices]

@[simp] theorem hasFunction_modifyFunction (store : Store) (changed id : FunctionId)
    (change : FunctionRecord → FunctionRecord) :
    (store.modifyFunction changed change).HasFunction id ↔ store.HasFunction id := by
  simp [HasFunction, modifyFunction]

/-- The record of every function after one of them is changed. -/
theorem functionAt_modifyFunction_eq (store : Store) (changed id : FunctionId)
    (change : FunctionRecord → FunctionRecord) :
    (store.modifyFunction changed change).functionAt id =
      if id = changed ∧ store.HasFunction changed then change (store.functionAt id)
      else store.functionAt id := by
  split
  · next reached =>
    obtain ⟨rfl, present⟩ := reached
    exact store.functionAt_modifyFunction id change present
  · next missed =>
    by_cases same : id = changed
    · subst same
      have outside : ¬store.HasFunction id := fun present => missed ⟨rfl, present⟩
      rw [functionAt_of_not_hasFunction store id outside,
        functionAt_of_not_hasFunction _ id (by simpa using outside)]
    · exact store.functionAt_modifyFunction_of_ne changed id change same

@[simp] theorem classAt_modifyFunction (store : Store) (changed : FunctionId)
    (change : FunctionRecord → FunctionRecord) (id : ClassId) :
    (store.modifyFunction changed change).classAt id = store.classAt id := rfl

@[simp] theorem hasClass_modifyFunction (store : Store) (changed : FunctionId)
    (change : FunctionRecord → FunctionRecord) (id : ClassId) :
    (store.modifyFunction changed change).HasClass id ↔ store.HasClass id := Iff.rfl

/-- A class that is changed to what it was is not changed. -/
theorem modifyClass_of_same (store : Store) (id : ClassId) (change : ClassRecord → ClassRecord)
    (same : change (store.classAt id) = store.classAt id) :
    store.modifyClass id change = store := by
  cases store with
  | mk classes functions =>
    simp only [modifyClass, mk.injEq, and_true]
    apply Array.ext (by simp)
    intro index inside present
    rw [Array.getElem_modify]
    split
    · next reached =>
      have found : (Store.mk classes functions).classAt id = classes[index] := by
        simp [classAt, reached, present]
      rw [found] at same
      exact same
    · rfl

/-- Adding a member changes the members of the class, if at all. -/
theorem addMember_eq (store : Store) (id : ClassId) (name : String) (value : Value)
    (overwrite : Bool) :
    (store.addMember id name value overwrite).2 =
      store.modifyClass id fun record =>
        { record with members := ((store.classAt id).members.insert name value overwrite).2 } := by
  unfold addMember
  cases changed : ((store.classAt id).members.insert name value overwrite).1 with
  | true => simp [changed]
  | false =>
    have kept := MemberTable.insert_of_not_changed _ name value overwrite changed
    simp only [changed, Bool.false_eq_true, if_false]
    rw [kept]
    exact (store.modifyClass_of_same id _ rfl).symm

end Store

end TypeInference
