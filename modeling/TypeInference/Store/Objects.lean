import TypeInference.Store.Genericity
import TypeInference.Store.Union

/-!
# Objects of classes

The object that a call of a class or a type hint gives. Specialized
collections hold one sample for each parameter, so that iteration and indexing
find a value of the element type. The class of types gives the type that its
parameter is bound to.
-/

namespace TypeInference.Store

/-- An object of a class. -/
def newObject (store : Store) (id : ClassId) : Value :=
  let record := store.classAt id
  let types := record.parameters.types
  let sample (place : Nat) : Value := (types[place]?.map Value.ofTy).getD .unknown
  if record.flags.typeOfType then (types.head?.map Value.ofType).getD .unknown
  else
    let content : Content :=
      match record.builtin, record.hasArguments with
      | some .noneType, _ => .constant .none
      | some .list, true | some .set, true | some .tuple, true => .sequence ⟨[sample 0], false⟩
      | some .dict, true => .mapping ⟨[(sample 0, sample 1)], false⟩
      | some .iterator, true | some .generator, true => .iterator (sample 0)
      | _, _ => .plain
    .object (.cls id) content

/-- An object of a builtin type. -/
def builtinObject (store : Store) (builtin : Builtin) : Value :=
  store.newObject (builtinClass builtin)

/-- The object that a constant is. -/
def constantObject (constant : Constant) : Value :=
  .object (builtinType constant.builtin) (.constant constant)

/-- The none object. -/
def noneObject : Value :=
  constantObject .none

/-- The value that a type hint describes: an object of the annotated type. -/
def described (store : Store) : Ty → Value
  | .cls id => store.newObject id
  | .parameter parameter => .ofTy (.parameter parameter)
  | _ => .unknown

/-- The bindings of some parameters, without those that are bound to themselves
and those that are there already. -/
def mergeResolved (bindings additional : Bindings) : Bindings :=
  additional.entries.foldl (fun merged entry =>
    let itself := match entry.2 with
      | .parameter target => target.hash = entry.1.hash
      | _ => false
    if itself || merged.contains entry.1 then merged else merged.bind entry.1 entry.2) bindings

/-- One sample for each parameter that the content of an object shows. -/
def contentSamples : Value → List Value
  | .object _ (.sequence sequence) => sequence.first?.toList
  | .object _ (.mapping mapping) =>
    match mapping.entries.head? with
    | some (key, value) => [key, value]
    | none => []
  | .object _ (.iterator element) => [element]
  | _ => []

/-- What a receiver tells about type parameters: the resolved parameters of its
class and of the classes behind it, the nearest first, and then the samples in
its content for parameters that its class leaves open. -/
def receiverBindings (store : Store) (receiver : Value) : Bindings :=
  let found := match receiver with
    | .object (.cls id) _ => some id
    | .type (.cls id) => some id
    | _ => none
  match found with
  | none => .empty
  | some id =>
    let record := store.classAt id
    let resolved := (record.parameters :: record.resolutionOrder.map fun ancestor =>
      (store.classAt ancestor).parameters).foldl mergeResolved .empty
    (record.openParameters.zip (contentSamples receiver)).foldl (fun bindings sample =>
      if !sample.2.isUnknown && bindings.isUnresolved sample.1 then
        bindings.bind sample.1 (store.typeOf sample.2)
      else bindings) resolved

mutual

/-- The value with nothing left that stands for an open parameter. -/
def eraseParameters (store : Store) : Value → Value
  | .type (.parameter _) => .unknown
  | .object (.parameter _) _ => .unknown
  | .union alternatives => store.union (store.eraseAll alternatives)
  | value => value

/-- Several values with nothing left that stands for an open parameter. -/
def eraseAll (store : Store) : List Value → List Value
  | [] => []
  | value :: rest => store.eraseParameters value :: store.eraseAll rest

end

/-- The return value of an overload: what is declared, else the union of what
the return statements give. -/
def returnValue (store : Store) (overload : Overload) : Value :=
  match overload.declaredReturn with
  | some declared => declared
  | none => store.union overload.inferredReturns

end TypeInference.Store
