import TypeInference.Definitions.Walk
import TypeInference.Generics.Specialization

/-!
# Evaluation of functions

An overload is evaluated once: its parameters are declared in the scope of the
function, its return is declared by type hint or by a top-level yield, and the
body is walked where more is to be learned from it. An overload that is being
evaluated further out is left alone, so that a recursive call sees what has been
returned so far. Afterwards the receiver of a method is checked for its
conventional name.
-/

namespace TypeInference.Engine

/-- The yield that a statement consists of, with its expression if it has one. -/
def yielded? : Statement → Option (Option Expression)
  | .expression (.yield value _) _ => some value
  | .assign _ (.yield value _) _ => some value
  | .annotated _ _ (some (.yield value _)) _ => some value
  | _ => none

/-- The first yield among the statements of a body, not looking into them. -/
def topLevelYield? (body : List Statement) : Option (Option Expression) :=
  body.findSome? yielded?

/-- The receiver parameter of a method: the first one, if it takes one argument
and the method is not static. -/
def takesReceiver (record : FunctionRecord) (place : Nat) (parameter : Parameter) :
    Option ClassId :=
  if place = 0 ∧ !record.flags.static ∧ parameter.kind = .normal then record.declaringClass
  else none

/-- The declared type of a parameter and the value it has in the body. A receiver
without type hint is an object of its class, or the class for a class method;
a type hint describes the value, and without one the default is the value. -/
def parameterMeaning (store : Store) (record : FunctionRecord) (receiver : Option ClassId)
    (declared : Ty) (default : Option Value) : Ty × Value :=
  if declared.isUnknown then
    match receiver with
    | some id =>
      (.cls id, if record.flags.classMethod then .type (.cls id) else store.newObject id)
    | none => (declared, default.getD .unknown)
  else (declared, store.described declared)

/-- The value of a parameter that may take several arguments: a tuple or a
mapping with one sample, if there is one. -/
def gathered (store : Store) (kind : ParameterKind) (value : Value) : Value :=
  match kind with
  | .varPositional =>
    .object (Store.builtinType .tuple)
      (.sequence ⟨if value.isUnknown then [] else [value], false⟩)
  | .varKeyword =>
    .object (Store.builtinType .dict)
      (.mapping ⟨if value.isUnknown then [] else [(store.builtinObject .str, value)], false⟩)
  | _ => value

/-- The type of a type hint that may be missing. -/
def optionalTypeHint (engine : Engine) : Option Expression → Analysis Ty
  | none => return .unknown
  | some hint => engine.evaluateTypeHint hint

/-- The value of an expression that may be missing. -/
def optionalValue (engine : Engine) : Option Expression → Analysis (Option Value)
  | none => return none
  | some expression => return some (← engine.evaluate .everything expression)

/-- Declares a parameter in the scope of its function and describes it. -/
def declareParameter (engine : Engine) (function : FunctionId) (node : NodeId) (place : Nat)
    (parameter : Parameter) : Analysis FormalParameter := do
  let annotated ← engine.optionalTypeHint parameter.typeHint
  let default ← engine.optionalValue parameter.default
  let store ← Analysis.store
  let record := store.functionAt function
  let (declaredType, value) := parameterMeaning store record
    (takesReceiver record place parameter) annotated default
  Analysis.declare parameter.name.name (gathered store parameter.kind value) .parameter
    (some node) parameter.name.span
  return { name := parameter.name.name, declaredType, default, kind := parameter.kind }

/-- Declares the parameters from a place on. -/
def declareParameters (engine : Engine) (function : FunctionId) (node : NodeId) (place : Nat) :
    List Parameter → Analysis (List FormalParameter)
  | [] => return []
  | parameter :: rest => do
    let first ← engine.declareParameter function node place parameter
    let others ← engine.declareParameters function node (place + 1) rest
    return first :: others

/-- Changes an overload. -/
def changeOverload (id : OverloadId) (change : Overload → Overload) : Analysis Unit :=
  Analysis.modifyStore fun store => store.modifyOverload id change

/-- Sets the declared return of an overload. -/
def setDeclaredReturn (id : OverloadId) (value : Value) : Analysis Unit :=
  changeOverload id fun overload => { overload with declaredReturn := some value }

/-- Declares the return of an overload: what its type hint describes, or else an
iterator over what the first top-level yield gives. -/
def declareReturn (engine : Engine) (id : OverloadId) (definition : FunctionDefinition) :
    Analysis Unit := do
  match definition.returns with
  | some hint =>
    let ty ← engine.evaluateTypeHint hint
    setDeclaredReturn id ((← Analysis.store).described ty)
  | none =>
    match topLevelYield? definition.body with
    | some value =>
      insertFunctionFlags id.function { generator := true }
      let element := (← engine.optionalValue value).getD Store.noneObject
      setDeclaredReturn id (.object (Store.builtinType .iterator) (.iterator element))
    | none => return

/-- Whether a method makes or prepares an object. -/
def isConstructor (record : FunctionRecord) (definition : FunctionDefinition) : Bool :=
  record.isMethod && ["__init__", "__new__"].contains definition.name.name

/-- What is wrong with the first parameter of a method, and where. Static methods,
methods with unresolved decorators, methods of metaclasses and properties of
classes are free, and so is a first parameter that takes all arguments. -/
def receiverProblem? (store : Store) (owner : ClassId) (record : FunctionRecord)
    (definition : FunctionDefinition) : Option (Lint × Span) :=
  let flags := record.flags
  if flags.static || !record.hasValidDecorators || store.isMetaclass owner
      || (flags.property && flags.classMethod) then none
  else
    match definition.parameters.head? with
    | none => some (.noMethodArgument record.name, definition.name.span)
    | some first =>
      if first.kind = .varPositional then none
      else if flags.classMethod then
        if first.name.name = "cls" then none
        else some (.noClsArgument record.name, first.name.span)
      else if first.name.name = "self" then none
      else some (.noSelfArgument record.name, first.name.span)

/-- Reports a method whose receiver has not its conventional name. -/
def checkReceiver (function : FunctionId) (definition : FunctionDefinition) : Analysis Unit := do
  let store ← Analysis.store
  let record := store.functionAt function
  match record.declaringClass with
  | none => return
  | some owner =>
    match receiverProblem? store owner record definition with
    | some (lint, span) => Analysis.report lint span
    | none => return

/-- Walks the body of an overload where that is needed: in modules of the user,
for constructors, and where no return is declared. A body without any returned
value returns none. -/
def walkBody (engine : Engine) (id : OverloadId) (definition : FunctionDefinition) :
    Analysis Unit := do
  let store ← Analysis.store
  let declared := (store.overloadAt id).declaredReturn.isSome
  if isConstructor (store.functionAt id.function) definition || !declared
      || (← Analysis.options).isUser then
    engine.walkBlock (.ofOverload store id definition) definition.body
  let overload := (← Analysis.store).overloadAt id
  if overload.declaredReturn.isNone && overload.inferredReturns.isEmpty then
    Analysis.addReturn id Store.noneObject

/-- Evaluates an overload in the scope of its function. -/
def evaluateInside (engine : Engine) (id : OverloadId) (definition : FunctionDefinition)
    (scope : ScopeId) : Analysis Unit := do
  let parameters ← engine.declareParameters id.function definition.id 0 definition.parameters
  changeOverload id fun overload => { overload with parameters }
  engine.declareReturn id definition
  engine.walkBody id definition
  checkReceiver id.function definition
  if (← Analysis.options).discardsLocals then
    modify fun progress => { progress with scopes := progress.scopes.clearVariables scope }
  changeOverload id fun overload => { overload with state := .evaluated }

/-- Evaluates an overload. The scope around its definition is around its body,
wherever the evaluation was asked for. -/
def evaluateOverload (engine : Engine) (id : OverloadId) (entry : FunctionEntry) :
    Analysis Unit := do
  changeOverload id fun overload => { overload with state := .evaluating }
  Analysis.inScope entry.definition.id .functionBody (some entry.scope) fun scope =>
    engine.evaluateInside id entry.definition scope

/-- Evaluates the overloads of a function that are pending, of those at some places. -/
def evaluatePending (engine : Engine) (function : FunctionId) (node : NodeId) :
    List Nat → Analysis Unit
  | [] => return
  | index :: rest => do
    let progress ← get
    if (progress.store.overloadAt ⟨function, index⟩).state = .pending then
      match progress.symbols.function? node with
      | some entry => engine.evaluateOverload ⟨function, index⟩ entry
      | none => throw (.fault (.unknownDefinition node))
    engine.evaluatePending function node rest

/-- Evaluates a function. One that no definition declares is complete. -/
def evaluateDefinition (engine : Engine) (function : FunctionId) : Analysis Unit := do
  let record := (← Analysis.store).functionAt function
  match record.node with
  | none => return
  | some node => engine.evaluatePending function node (List.range record.overloads.length)

/-- The engine in which evaluations may be nested to a given depth. -/
def atDepth : Nat → Engine
  | 0 => .exhausted
  | depth + 1 =>
    { evaluateFunction := fun function => evaluateDefinition (atDepth depth) function
      specialize := fun id arguments => specializeClass (atDepth depth) id arguments }

/-- How deep evaluations may be nested. A chain of evaluations is no longer than
there are functions and specializations, so that programs stay far below. -/
def depthLimit : Nat := 1000000

/-- The engine for whole modules. -/
def standard : Engine := atDepth depthLimit

end TypeInference.Engine
