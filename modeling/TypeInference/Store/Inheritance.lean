import TypeInference.Store.Naming

/-!
# Inheritance

The bases of a class are put in one order, along which members are looked up.
The order respects the order of every base and the order of the bases. Where no
order does, the bases are taken depth first. Classes are told apart by identity,
and a class is never in its own order.
-/

namespace TypeInference.Store

/-- The identity of a class. -/
def classHash (store : Store) (id : ClassId) : TypeHash :=
  (store.classAt id).hash

/-- Whether a class stands behind the first of one of the sequences. -/
def inSomeTail (store : Store) (sequences : List (List ClassId)) (candidate : ClassId) : Bool :=
  sequences.any fun sequence =>
    sequence.tail.any fun other => store.classHash other = store.classHash candidate

/-- The first class that starts a sequence and stands behind the start of none. -/
def nextInOrder? (store : Store) (sequences : List (List ClassId)) : Option ClassId :=
  (sequences.filterMap List.head?).find? fun candidate =>
    !store.inSomeTail sequences candidate

/-- A sequence without its first class, if that is the given one. -/
def dropHead (store : Store) (head : ClassId) : List ClassId → List ClassId
  | [] => []
  | first :: rest =>
    if store.classHash first = store.classHash head then rest else first :: rest

/-- Merges sequences into one order, leaving out one identity. The bound is the
number of classes that may still be taken; there is no result if no class can be
taken while some are left. -/
def mergeOrders (store : Store) (own : TypeHash) :
    Nat → List (List ClassId) → Option (List ClassId)
  | bound, sequences =>
    let remaining := sequences.filter fun sequence => !sequence.isEmpty
    if remaining.isEmpty then some []
    else
      match bound, store.nextInOrder? remaining with
      | bound + 1, some head =>
        (store.mergeOrders own bound (remaining.map (store.dropHead head))).map fun rest =>
          if store.classHash head = own then rest else head :: rest
      | _, _ => none

/-- A class followed by its order. -/
def lineage (store : Store) (id : ClassId) : List ClassId :=
  id :: (store.classAt id).resolutionOrder

/-- An order with one more class, unless it has the excluded identity or is there. -/
def addDistinctClass (store : Store) (own : TypeHash) (order : List ClassId) (id : ClassId) :
    List ClassId :=
  if store.classHash id = own || order.any (fun known => store.classHash known = store.classHash id)
  then order else order ++ [id]

/-- The bases and their orders one after the other, each class once. -/
def depthFirst (store : Store) (own : TypeHash) (bases : List ClassId) : List ClassId :=
  (bases.flatMap store.lineage).foldl (store.addDistinctClass own) []

/-- The order of the classes behind some bases. -/
def linearize (store : Store) (own : TypeHash) (bases : List ClassId) : List ClassId :=
  let sequences := bases.map store.lineage ++ [bases]
  (store.mergeOrders own sequences.flatten.length sequences).getD (store.depthFirst own bases)

/-- Gives a class its bases and puts them in order. -/
def setBases (store : Store) (id : ClassId) (bases : List Ty) : Store :=
  let order := store.linearize (store.classHash id) (bases.filterMap Ty.asClass?)
  store.modifyClass id fun record => { record with bases, resolutionOrder := order }

/-- Whether a class, or one it derives from, is a metaclass. -/
def isMetaclass (store : Store) (id : ClassId) : Bool :=
  (store.lineage id).any fun ancestor => (store.classAt ancestor).flags.metaclass

/-- A member of the class itself. -/
def ownMember? (store : Store) (id : ClassId) (name : String) : Option Value :=
  (store.classAt id).members.find? name

/-- A member of the class or of the first class in its order that has one. -/
def member? (store : Store) (id : ClassId) (name : String) : Option Value :=
  (store.lineage id).findSome? fun ancestor => store.ownMember? ancestor name

/-- Adds a member to a class; tells whether the class changed. -/
def addMember (store : Store) (id : ClassId) (name : String) (value : Value) (overwrite : Bool) :
    Bool × Store :=
  let (changed, members) := (store.classAt id).members.insert name value overwrite
  (changed, if changed then store.modifyClass id fun record => { record with members } else store)

/-- The method of a given name that a class or one it derives from has. -/
def method? (store : Store) (id : ClassId) (name : String) : Option FunctionId :=
  (store.member? id name).bind Value.asFunction?

end TypeInference.Store
