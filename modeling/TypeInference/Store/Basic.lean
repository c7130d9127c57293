import TypeInference.Types.Class
import TypeInference.Types.Function

/-!
# The store of classes and functions

Classes and functions are objects with an identity of their own; the store keeps
their records under the places at which they were created. Nothing is ever
removed. A place outside of the store reads as an empty record, which makes
reading total; no operation of this library makes such a place.
-/

namespace TypeInference

/-- All classes and functions in order of creation. -/
structure Store where
  classes : Array ClassRecord := #[]
  functions : Array FunctionRecord := #[]
deriving Inhabited

namespace Store

/-- The store without objects. -/
def empty : Store := {}

/-- The record of a class. -/
def classAt (store : Store) (id : ClassId) : ClassRecord :=
  store.classes[id.index]?.getD default

/-- The record of a function. -/
def functionAt (store : Store) (id : FunctionId) : FunctionRecord :=
  store.functions[id.index]?.getD default

/-- Creates a class. -/
def addClass (store : Store) (record : ClassRecord) : ClassId × Store :=
  (⟨store.classes.size⟩, { store with classes := store.classes.push record })

/-- Creates a function. -/
def addFunction (store : Store) (record : FunctionRecord) : FunctionId × Store :=
  (⟨store.functions.size⟩, { store with functions := store.functions.push record })

/-- Changes the record of a class. -/
def modifyClass (store : Store) (id : ClassId) (change : ClassRecord → ClassRecord) : Store :=
  { store with classes := store.classes.modify id.index change }

/-- Changes the record of a function. -/
def modifyFunction (store : Store) (id : FunctionId) (change : FunctionRecord → FunctionRecord) :
    Store :=
  { store with functions := store.functions.modify id.index change }

/-- Whether a class of the store stands at a place. -/
def HasClass (store : Store) (id : ClassId) : Prop :=
  id.index < store.classes.size

/-- Whether a function of the store stands at a place. -/
def HasFunction (store : Store) (id : FunctionId) : Prop :=
  id.index < store.functions.size

/-- A new class has the record it was created with. -/
@[simp] theorem classAt_addClass (store : Store) (record : ClassRecord) :
    (store.addClass record).2.classAt (store.addClass record).1 = record := by
  simp [addClass, classAt]

/-- Creating a class leaves the classes of the store as they are. -/
theorem classAt_addClass_of_hasClass (store : Store) (record : ClassRecord) (id : ClassId)
    (present : store.HasClass id) :
    (store.addClass record).2.classAt id = store.classAt id := by
  have apart : id.index ≠ store.classes.size := Nat.ne_of_lt present
  simp [addClass, classAt, Array.getElem?_push, apart]

/-- A change reaches the class it is made to. -/
theorem classAt_modifyClass (store : Store) (id : ClassId) (change : ClassRecord → ClassRecord)
    (present : store.HasClass id) :
    (store.modifyClass id change).classAt id = change (store.classAt id) := by
  have inside : id.index < store.classes.size := present
  simp [modifyClass, classAt, inside, Array.getElem_modify]

/-- A change to one class leaves every other class as it is. -/
theorem classAt_modifyClass_of_ne (store : Store) (id other : ClassId)
    (change : ClassRecord → ClassRecord) (apart : other ≠ id) :
    (store.modifyClass id change).classAt other = store.classAt other := by
  have indices : id.index ≠ other.index := fun equal =>
    apart (by cases id; cases other; exact congrArg ClassId.mk equal.symm)
  simp [modifyClass, classAt, Array.getElem?_modify, indices]

/-- A change to a class adds and removes no class. -/
@[simp] theorem size_classes_modifyClass (store : Store) (id : ClassId)
    (change : ClassRecord → ClassRecord) :
    (store.modifyClass id change).classes.size = store.classes.size := by
  simp [modifyClass]

/-- A new function has the record it was created with. -/
@[simp] theorem functionAt_addFunction (store : Store) (record : FunctionRecord) :
    (store.addFunction record).2.functionAt (store.addFunction record).1 = record := by
  simp [addFunction, functionAt]

/-- A change reaches the function it is made to. -/
theorem functionAt_modifyFunction (store : Store) (id : FunctionId)
    (change : FunctionRecord → FunctionRecord) (present : store.HasFunction id) :
    (store.modifyFunction id change).functionAt id = change (store.functionAt id) := by
  have inside : id.index < store.functions.size := present
  simp [modifyFunction, functionAt, inside, Array.getElem_modify]

/-- A change to one function leaves every other function as it is. -/
theorem functionAt_modifyFunction_of_ne (store : Store) (id other : FunctionId)
    (change : FunctionRecord → FunctionRecord) (apart : other ≠ id) :
    (store.modifyFunction id change).functionAt other = store.functionAt other := by
  have indices : id.index ≠ other.index := fun equal =>
    apart (by cases id; cases other; exact congrArg FunctionId.mk equal.symm)
  simp [modifyFunction, functionAt, Array.getElem?_modify, indices]

/-- The class of a builtin type. A registry creates these classes first and in
order of declaration, so that their places are known. -/
def builtinClass (builtin : Builtin) : ClassId :=
  ⟨builtin.ordinal⟩

/-- A builtin type. -/
def builtinType (builtin : Builtin) : Ty :=
  .cls (builtinClass builtin)

end Store

end TypeInference
