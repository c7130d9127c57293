import TypeInference.Definitions.Frame
import TypeInference.Evaluation.Expression

/-!
# Declaration of functions

A definition is declared once for its node: it creates a function with one
pending overload, applies the decorators, and remembers the scope around it. The
body is left for later.
-/

namespace TypeInference.Engine

/-- The attributes of a property that, as decorators, extend it. -/
def propertyAccessors : List String :=
  ["setter", "getter", "deleter"]

/-- Whether a decorator extends a property. -/
def isAccessor : Expression → Bool
  | .attribute _ name _ => propertyAccessors.contains name.name
  | _ => false

/-- Whether a definition extends a property. -/
def extendsProperty (definition : FunctionDefinition) : Bool :=
  definition.decorators.any isAccessor

/-- What is evaluated for a decorator: without its arguments if it is called. -/
def decoratorCallee : Expression → Expression
  | .call callee _ _ => callee
  | decorator => decorator

/-- Adds flags to a function. -/
def insertFunctionFlags (function : FunctionId) (flags : FunctionFlags) : Analysis Unit :=
  Analysis.modifyStore fun store => store.modifyFunction function fun record =>
    record.insertFlags flags

/-- Applies a decorator. A function decorates by its name, another type leaves
the function as it is, and what is no type makes the decorators invalid. -/
def applyDecorator (engine : Engine) (function : FunctionId) (decorator : Expression) :
    Analysis Unit := do
  if isAccessor decorator then insertFunctionFlags function { property := true }
  else
    let value ← engine.evaluate .everything (decoratorCallee decorator)
    match value with
    | .type (.function decorating) =>
      Analysis.modifyStore fun store => store.modifyFunction function fun record =>
        (record.decorate (store.functionAt decorating).name).2
    | .type _ => return
    | _ => insertFunctionFlags function { invalidDecorators := true }

/-- Applies decorators in the order they are written. -/
def applyDecorators (engine : Engine) (function : FunctionId) : List Expression → Analysis Unit
  | [] => return
  | decorator :: rest => do
    engine.applyDecorator function decorator
    engine.applyDecorators function rest

/-- The record of a function before its decorators are applied. -/
def declaredRecord (definition : FunctionDefinition) (owner : Option ClassId)
    (qualifiedName : String) : FunctionRecord :=
  let name := definition.name.name
  let record := { FunctionRecord.named name qualifiedName with node := some definition.id }
  let record := match owner with
    | some id => record.inClass id
    | none => record
  record.addOverload { name, node := some definition.id }

/-- The function that a definition in the current scope declares. -/
def declareFunction (engine : Engine) (definition : FunctionDefinition)
    (owner : Option ClassId) : Analysis FunctionId := do
  match (← get).symbols.function? definition.id with
  | some entry => return entry.function
  | none =>
    let qualifiedName ← Analysis.qualifiedName definition.name.name
    let function ← Analysis.onStore fun store =>
      store.addFunction (declaredRecord definition owner qualifiedName)
    engine.applyDecorators function definition.decorators
    let scope ← Analysis.orFault (← Analysis.scopes).current
    modify fun progress =>
      { progress with symbols := progress.symbols.insert { definition, scope, function } }
    return function

end TypeInference.Engine
