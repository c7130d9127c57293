import TypeInference.Source.Node
import TypeInference.Syntax.Tree
import TypeInference.Types.Value

/-!
# Functions

The record of a function: its names and identity, the class that declares it,
and its overloads. An overload is one signature together with what its
evaluation has found. A declared return decides; without one, the values of all
return statements together are the return.
-/

namespace TypeInference

/-- What a function is besides its overloads; decorators decide most of it. -/
structure FunctionFlags where
  static : Bool := false
  classMethod : Bool := false
  isAbstract : Bool := false
  overload : Bool := false
  property : Bool := false
  /-- The body yields. -/
  generator : Bool := false
  /-- Given by the registry and not declared in source. -/
  builtin : Bool := false
  /-- A decorator could not be resolved. -/
  invalidDecorators : Bool := false
deriving DecidableEq, Inhabited

namespace FunctionFlags

/-- The flags of either. -/
def union (first second : FunctionFlags) : FunctionFlags :=
  ⟨first.static || second.static, first.classMethod || second.classMethod,
    first.isAbstract || second.isAbstract, first.overload || second.overload,
    first.property || second.property, first.generator || second.generator,
    first.builtin || second.builtin, first.invalidDecorators || second.invalidDecorators⟩

/-- The flags that a decorator of a given name sets, if it is recognized. -/
def ofDecorator? : String → Option FunctionFlags
  | "staticmethod" => some { static := true }
  | "classmethod" => some { classMethod := true }
  | "abstractmethod" => some { isAbstract := true }
  | "abstractstaticmethod" => some { isAbstract := true, static := true }
  | "abstractclassmethod" => some { isAbstract := true, classMethod := true }
  | "abstractproperty" => some { isAbstract := true, property := true }
  | "property" => some { property := true }
  | "overload" => some { overload := true }
  | _ => none

end FunctionFlags

/-- A parameter as calls see it. -/
structure FormalParameter where
  name : String
  /-- The annotated type, unknown without type hint. -/
  declaredType : Ty := .unknown
  /-- The value of the default, if there is one. -/
  default : Option Value := none
  kind : ParameterKind := .normal
deriving Inhabited

/-- How far the evaluation of an overload has come. -/
inductive OverloadState where
  | pending
  | evaluating
  | evaluated
deriving DecidableEq, Inhabited

/-- One signature of a function. -/
structure Overload where
  name : String
  node : Option NodeId := none
  parameters : List FormalParameter := []
  declaredReturn : Option Value := none
  /-- The value of each return statement, in order. -/
  inferredReturns : List Value := []
  state : OverloadState := .pending
deriving Inhabited

namespace Overload

/-- An overload that is known without evaluation. -/
def withSignature (overload : Overload) (parameters : List FormalParameter) (returns : Value) :
    Overload :=
  { overload with parameters, declaredReturn := some returns, state := .evaluated }

end Overload

/-- A function, method or property. -/
structure FunctionRecord where
  name : String
  qualifiedName : String
  hash : TypeHash
  node : Option NodeId := none
  declaringClass : Option ClassId := none
  flags : FunctionFlags := {}
  overloads : List Overload := []
deriving Inhabited

namespace FunctionRecord

/-- The methods that are class methods without any decorator. -/
def implicitClassMethods : List String :=
  ["__new__", "__init_subclass__", "__class_getitem__"]

/-- A function whose identity is that of its qualified name. -/
def named (name qualifiedName : String) : FunctionRecord :=
  { name, qualifiedName, hash := .ofFunction qualifiedName }

/-- The function with more flags. -/
def insertFlags (record : FunctionRecord) (flags : FunctionFlags) : FunctionRecord :=
  { record with flags := record.flags.union flags }

/-- The function as a method of a class. Some names make it a class method. -/
def inClass (record : FunctionRecord) (declaring : ClassId) : FunctionRecord :=
  let attached := { record with declaringClass := some declaring }
  if implicitClassMethods.contains record.name then
    attached.insertFlags { classMethod := true }
  else attached

/-- Whether a class declares the function. -/
def isMethod (record : FunctionRecord) : Bool :=
  record.declaringClass.isSome

/-- Whether every decorator was resolved. -/
def hasValidDecorators (record : FunctionRecord) : Bool :=
  !record.flags.invalidDecorators

/-- The function under a decorator of a given name, and whether it is recognized. -/
def decorate (record : FunctionRecord) (decorator : String) : Bool × FunctionRecord :=
  match FunctionFlags.ofDecorator? decorator with
  | some flags => (true, record.insertFlags flags)
  | none => (false, record)

/-- The function with one more overload. -/
def addOverload (record : FunctionRecord) (overload : Overload) : FunctionRecord :=
  { record with overloads := record.overloads ++ [overload] }

/-- The function with one overload changed. -/
def modifyOverload (record : FunctionRecord) (index : Nat) (change : Overload → Overload) :
    FunctionRecord :=
  { record with overloads := record.overloads.modify index change }

end FunctionRecord

end TypeInference
