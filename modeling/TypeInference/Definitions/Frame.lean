import TypeInference.Analysis.Monad
import TypeInference.Store.Inheritance

/-!
# Bodies and what they belong to

A body is walked for a module, a class or an overload. The frame says where
returned values go and which name is the receiver whose attributes are members
of the class.
-/

namespace TypeInference

/-- An overload of a function by its place. -/
structure OverloadId where
  function : FunctionId
  index : Nat
deriving DecidableEq

/-- The overload itself. -/
def Store.overloadAt (store : Store) (id : OverloadId) : Overload :=
  (store.functionAt id.function).overloads[id.index]?.getD default

/-- Changes one overload. -/
def Store.modifyOverload (store : Store) (id : OverloadId) (change : Overload → Overload) :
    Store :=
  store.modifyFunction id.function fun record => record.modifyOverload id.index change

/-- What a body belongs to. -/
structure Frame where
  /-- The overload that collects returned values. -/
  overload : Option OverloadId := none
  /-- The class whose members are set through the receiver. -/
  owner : Option ClassId := none
  /-- The name of the receiver. -/
  receiver : Option String := none
  /-- Whether the body is that of a constructor. -/
  isConstructor : Bool := false

namespace Frame

/-- The frame of a module. -/
def module : Frame := {}

/-- The frame of the body of a class. -/
def ofClass (owner : ClassId) : Frame :=
  { owner := some owner }

/-- The name of the receiver of a method: its first parameter, if that takes one
argument and the method is not static. -/
def receiverName? (record : FunctionRecord) (definition : FunctionDefinition) : Option String :=
  match record.declaringClass, definition.parameters.head? with
  | some _, some first =>
    if !record.flags.static && first.kind = .normal then some first.name.name else none
  | _, _ => none

/-- The frame of an overload. -/
def ofOverload (store : Store) (id : OverloadId) (definition : FunctionDefinition) : Frame :=
  let record := store.functionAt id.function
  { overload := some id, owner := record.declaringClass,
    receiver := receiverName? record definition,
    isConstructor := record.isMethod && definition.name.name = "__init__" }

end Frame

namespace Analysis

/-- Sets an attribute of the receiver: the member is added to the class, or takes
the place of a member that is unknown. -/
def setAttribute (owner : ClassId) (name : String) (value : Value) : Analysis Unit :=
  modifyStore fun store =>
    match store.ownMember? owner name with
    | some existing =>
      if existing.isUnknown then (store.addMember owner name value true).2 else store
    | none => (store.addMember owner name value true).2

/-- Records a returned value. -/
def addReturn (id : OverloadId) (value : Value) : Analysis Unit :=
  modifyStore fun store => store.modifyOverload id fun overload =>
    { overload with inferredReturns := overload.inferredReturns ++ [value] }

end Analysis

end TypeInference
