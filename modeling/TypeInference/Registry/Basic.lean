import TypeInference.Diagnostics.Fault
import TypeInference.Store.Objects

/-!
# Registered names

The registry knows the names that are visible without any import and what each
of them is. Names are only ever added, and a name is never given away twice.
-/

namespace TypeInference

/-- Names with the values they denote. -/
structure Registry where
  names : OrderedTable String Value := {}
deriving Inhabited

namespace Registry

/-- What a name denotes. -/
def find? (registry : Registry) (name : String) : Option Value :=
  registry.names.find? name

/-- Whether a name is registered. -/
def contains (registry : Registry) (name : String) : Bool :=
  registry.names.contains name

/-- How many names are registered. -/
def size (registry : Registry) : Nat :=
  registry.names.size

/-- Registers a name unless it is taken. -/
def register (registry : Registry) (name : String) (value : Value) :
    Except NameTaken Registry :=
  if registry.contains name then .error ⟨name⟩ else .ok ⟨registry.names.put name value⟩

/-- The identity of the class whose index lists type parameters. -/
def genericMarkerHash : TypeHash :=
  .ofClass "typing.Generic"

/-- The identity of the function that declares type parameters. -/
def typeVariableHash : TypeHash :=
  .ofFunction "typing.TypeVar"

/-- Whether a class is the one whose index lists type parameters. -/
def isGenericMarker (store : Store) (id : ClassId) : Bool :=
  (store.classAt id).hash = genericMarkerHash

/-- Whether a function declares type parameters. -/
def isTypeVariable (store : Store) (id : FunctionId) : Bool :=
  (store.functionAt id).hash = typeVariableHash

/-- The registry by its size. -/
def debugText (registry : Registry) : String :=
  "TypeRegistry \x7b builtins: " ++ toString Builtin.all.length ++ ", names: "
    ++ toString registry.size ++ " \x7d"

end Registry

end TypeInference
