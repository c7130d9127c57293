import TypeInference.Identity.TypeHash
import TypeInference.Types.Builtin

/-!
# Types

A type is unknown, a class, a type parameter, a function, or the marker that
lists type parameters. Classes and functions are objects of a store and are
referred to by their place in it: two classes of one qualified name are two
objects. Type parameters are plain values and are told apart by name alone.
-/

namespace TypeInference

/-- The place of a class in a store. -/
structure ClassId where
  index : Nat
deriving DecidableEq, Inhabited

/-- The place of a function in a store. -/
structure FunctionId where
  index : Nat
deriving DecidableEq, Inhabited

mutual

/-- A type parameter. Constraints and bound are kept to be shown and are not
checked when the parameter is bound. -/
structure TypeParameter where
  name : String
  constraints : List Ty
  bound : Option Ty

/-- A type. -/
inductive Ty where
  /-- Nothing is known; whatever depends on it is unknown too. -/
  | unknown
  | cls (id : ClassId)
  | parameter (parameter : TypeParameter)
  | function (id : FunctionId)
  /-- The list of parameters that a generic class declares. -/
  | marker (parameters : List TypeParameter)

end

instance : Inhabited Ty := ⟨.unknown⟩

namespace TypeParameter

/-- A parameter without constraints and bound. -/
def named (name : String) : TypeParameter := ⟨name, [], none⟩

instance : Inhabited TypeParameter := ⟨named ""⟩

/-- The identity, which only the name decides. -/
def hash (parameter : TypeParameter) : TypeHash :=
  .ofParameter parameter.name

end TypeParameter

namespace Ty

/-- Whether nothing is known. -/
def isUnknown : Ty → Bool
  | unknown => true
  | _ => false

/-- The class, if the type is one. -/
def asClass? : Ty → Option ClassId
  | cls id => some id
  | _ => none

/-- The function, if the type is one. -/
def asFunction? : Ty → Option FunctionId
  | function id => some id
  | _ => none

/-- The type parameter, if the type is one. -/
def asParameter? : Ty → Option TypeParameter
  | parameter declared => some declared
  | _ => none

/-- The parameters, if the type is a marker. -/
def asMarker? : Ty → Option (List TypeParameter)
  | marker listed => some listed
  | _ => none

end Ty

end TypeInference
