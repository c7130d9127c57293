import TypeInference.Store.Basic

/-!
# Identities and names of types

Types are compared by identity: types of one identity are equal, whatever
objects they are. The name of a specialized class shows the types that its
parameters are bound to. Since a class may be reached again from its own
parameters, names are followed to a depth of the number of classes; names in
which no class contains itself are never cut.
-/

namespace TypeInference.Store

/-- The identity of a type. -/
def typeHash (store : Store) : Ty → TypeHash
  | .unknown => .unknown
  | .cls id => (store.classAt id).hash
  | .parameter parameter => parameter.hash
  | .function id => (store.functionAt id).hash
  | .marker parameters =>
    .ofSpecialization (.ofClass "typing.Generic") (parameters.map TypeParameter.hash)

/-- Whether two types have one identity. -/
def sameType (store : Store) (first second : Ty) : Bool :=
  store.typeHash first = store.typeHash second

/-- The builtin nature of a type. -/
def builtin? (store : Store) : Ty → Option Builtin
  | .cls id => (store.classAt id).builtin
  | .function _ => some .function
  | _ => none

/-- The identities of the types that parameters are bound to. -/
def signature (store : Store) (bindings : Bindings) : ResolvedSignature :=
  ⟨bindings.types.map store.typeHash⟩

/-- A name with its arguments in brackets. -/
def applied (name : String) (arguments : List String) : String :=
  name ++ "[" ++ String.intercalate ", " arguments ++ "]"

/-- The name of a type, followed to a given depth. -/
def typeNameWithin (store : Store) : Nat → Ty → String
  | _, .unknown => "Unknown"
  | _, .parameter parameter => parameter.name
  | _, .function id => (store.functionAt id).name
  | _, .marker parameters => applied "Generic" (parameters.map (·.name))
  | 0, .cls id => (store.classAt id).name
  | depth + 1, .cls id =>
    let record := store.classAt id
    if record.hasArguments then
      applied record.name (record.parameters.types.map (store.typeNameWithin depth))
    else record.name

/-- The name of a type as it is shown. -/
def typeName (store : Store) (ty : Ty) : String :=
  store.typeNameWithin store.classes.size ty

/-- The name of a class as it is shown. -/
def className (store : Store) (id : ClassId) : String :=
  store.typeName (.cls id)

end TypeInference.Store
