import TypeInference.Generics.Substitution

/-!
# Calls

A called function is evaluated first; the call gives its return value, in which
type parameters are replaced by what the receiver and the arguments show, and in
which no open parameter is left. A function that is still being evaluated gives
what it has returned so far. A called class gives an object; a generic class is
specialized to the arguments of its constructor before.
-/

namespace TypeInference.Engine

/-- What an argument shows about the type parameter it is declared with. -/
def bindDeclared (store : Store) (bindings : Bindings) (argument : Argument) : Bindings :=
  match argument.declaredType with
  | .parameter parameter =>
    let ty := store.typeOf argument.value
    if !ty.isUnknown && bindings.isUnresolved parameter then bindings.bind parameter ty
    else bindings
  | _ => bindings

/-- What a receiver and the arguments of a call show about type parameters. -/
def callBindings (store : Store) (overload : Overload) (receiver : Option Value)
    (positional : List Value) (keywords : List (String × Value)) (span : Span) : Bindings :=
  let received := match receiver with
    | some value => store.receiverBindings value
    | none => .empty
  (Arguments.forCall overload.parameters receiver positional keywords span).list.foldl
    (bindDeclared store) received

/-- The value of a call of a function. The first overload decides. -/
def callFunction (engine : Engine) (function : FunctionId) (receiver : Option Value)
    (positional : List Value) (keywords : List (String × Value)) (span : Span) :
    Analysis Value := do
  engine.evaluateFunction function
  let store ← Analysis.store
  match (store.functionAt function).overloads.head? with
  | none => return .unknown
  | some overload =>
    let bindings := callBindings store overload receiver positional keywords span
    let returned := store.returnValue overload
    let value ← if bindings.isEmpty then pure returned else engine.substitute bindings returned
    return (← Analysis.store).eraseParameters value

/-- The value of a call of a function that may be missing. -/
def callMethod (engine : Engine) (method : Option FunctionId) (receiver : Value)
    (positional : List Value) (keywords : List (String × Value)) (span : Span) :
    Analysis Value :=
  match method with
  | some function => engine.callFunction function (some receiver) positional keywords span
  | none => return .unknown

/-- What a method that was found on a target gets as its receiver. -/
def receiverFor (store : Store) (function : FunctionId) (target : Value) : Option Value :=
  let record := store.functionAt function
  if record.flags.static || !record.isMethod then none
  else
    match target, record.flags.classMethod with
    | .object ty _, true => some (.ofType ty)
    | .object ty content, false => some (.object ty content)
    | .type ty, true => some (.type ty)
    | _, _ => none

/-- The object that a registered class gives: the class of types gives the type
of its argument, a collection keeps a sample of what it is made from. -/
def builtinInstance (store : Store) (id : ClassId) (positional : List Value) : Value :=
  let collected (nature : Builtin) (iterable : Value) : Value :=
    match iterable.firstElement? with
    | some sample =>
      if sample.isUnknown then store.newObject id
      else .object (Store.builtinType nature) (.sequence ⟨[sample], false⟩)
    | none => store.newObject id
  match (store.classAt id).builtin, positional with
  | some .type, [value] => .ofType (store.typeOf value)
  | some .list, [iterable] => collected .list iterable
  | some .tuple, [iterable] => collected .tuple iterable
  | some .set, [iterable] => collected .set iterable
  | _, _ => store.newObject id

/-- The object that a class gives when it is called. -/
def instantiate (engine : Engine) (id : ClassId) (positional : List Value)
    (keywords : List (String × Value)) (span : Span) : Analysis Value := do
  let store ← Analysis.store
  if (store.classAt id).flags.builtin then return builtinInstance store id positional
  engine.ensureConstructed id
  let store ← Analysis.store
  if !store.isGeneric id then return store.newObject id
  let overload := (store.method? id "__init__").bind fun constructor =>
    (store.functionAt constructor).overloads.head?
  -- the receiver does not exist yet and only takes its parameter
  let arguments := match overload with
    | some overload =>
      Arguments.forCall overload.parameters (some .unknown) positional keywords span
    | none => .ofValues positional span
  let specialized ← engine.specialize id arguments
  return (← Analysis.store).newObject specialized

/-- The type parameter that a declaration gives: its name comes first, types
after it are constraints, and a keyword gives the bound. -/
def declaredParameter (positional : List Value) (keywords : List (String × Value)) : Value :=
  match positional with
  | [] => .unknown
  | first :: rest =>
    match first.asConstant?.bind Constant.asText with
    | none => .unknown
    | some name =>
      let bound := (keywords.find? fun entry => entry.1 = "bound").bind fun entry =>
        entry.2.asType?
      .type (.parameter ⟨name, rest.filterMap Value.asType?, bound⟩)

mutual

/-- The value of a call. The target is what the callee was found on; whether it
becomes the receiver depends on the callee. Unions distribute. -/
def callValue (engine : Engine) (target : Option Value) (positional : List Value)
    (keywords : List (String × Value)) (span : Span) : Value → Analysis Value
  | .unknown => return .unknown
  | .union alternatives => do
    let values ← engine.callAll target positional keywords span alternatives
    return (← Analysis.store).union values
  | .type (.cls id) => engine.instantiate id positional keywords span
  | .type (.function function) => do
    let store ← Analysis.store
    if Registry.isTypeVariable store function then
      return declaredParameter positional keywords
    engine.callFunction function (target.bind (receiverFor store function)) positional keywords
      span
  | .type _ => return .unknown
  | .object (.cls id) content => do
    let method ← engine.constructedMethod? id "__call__"
    engine.callMethod method (.object (.cls id) content) positional keywords span
  | .object _ _ => return .unknown

/-- The values of calls of several callees. -/
def callAll (engine : Engine) (target : Option Value) (positional : List Value)
    (keywords : List (String × Value)) (span : Span) : List Value → Analysis (List Value)
  | [] => return []
  | callee :: rest => do
    let first ← engine.callValue target positional keywords span callee
    let others ← engine.callAll target positional keywords span rest
    return first :: others

end

mutual

/-- An attribute of a value. Classes and objects have the members of the class;
an object also has its class, and a property gives what it returns. Unions
distribute. -/
def attributeOf (engine : Engine) (name : String) : Value → Analysis Value
  | .unknown => return .unknown
  | .union alternatives => do
    let values ← engine.attributeOfAll name alternatives
    return (← Analysis.store).union values
  | .type (.cls id) => do
    engine.ensureConstructed id
    return ((← Analysis.store).member? id name).getD .unknown
  | .type _ => return .unknown
  | .object (.cls id) content => do
    if name = classCell then return .type (.cls id)
    engine.ensureConstructed id
    let store ← Analysis.store
    let found := (store.member? id name).getD .unknown
    match found.asFunction? with
    | some function =>
      if (store.functionAt function).flags.property then
        engine.callFunction function (some (.object (.cls id) content)) [] [] .unknown
      else return found
    | none => return found
  | .object _ _ => return .unknown

/-- An attribute of several values. -/
def attributeOfAll (engine : Engine) (name : String) : List Value → Analysis (List Value)
  | [] => return []
  | value :: rest => do
    let first ← engine.attributeOf name value
    let others ← engine.attributeOfAll name rest
    return first :: others

end

end TypeInference.Engine
