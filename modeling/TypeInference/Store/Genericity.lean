import TypeInference.Store.Naming

/-!
# Generic classes

A class is generic while a type parameter is open in it or in a class it derives
from. The search along the bases leaves a class alone that it is already
looking into, so bases that lead back to a class do no harm.
-/

namespace TypeInference.Store

/-- Whether a class has open parameters, directly or through a base, looking no
further than a given depth and leaving out the classes being looked into. -/
def isGenericWithin (store : Store) : Nat → List ClassId → ClassId → Bool
  | 0, _, _ => false
  | depth + 1, entered, id =>
    if entered.contains id then false
    else
      let record := store.classAt id
      !record.openParameters.isEmpty
        || record.baseClasses.any (store.isGenericWithin depth (id :: entered))

/-- Whether a class has open parameters, directly or through a base. No path
without repetition is longer than the number of classes. -/
def isGeneric (store : Store) (id : ClassId) : Bool :=
  store.isGenericWithin (store.classes.size + 1) [] id

/-- Whether a type stands for more types than one. -/
def isGenericType (store : Store) : Ty → Bool
  | .cls id => store.isGeneric id
  | .parameter _ => true
  | _ => false

/-- The parameters of a template in order. A marker among the bases fixes them;
without one they are the open parameters of the bases and then the class's own. -/
def typeParameters (store : Store) (id : ClassId) : List TypeParameter :=
  let record := store.classAt id
  match record.explicitParameters? with
  | some listed => listed
  | none =>
    (record.baseClasses.flatMap (fun base => (store.classAt base).openParameters)
      ++ record.openParameters).foldl Bindings.addDistinct []

/-- The template a class was made from, or the class itself. -/
def templateOf (store : Store) (id : ClassId) : ClassId :=
  (store.classAt id).template.getD id

end TypeInference.Store
