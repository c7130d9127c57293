import TypeInference.Analysis.Engine

/-!
# Substitution of type parameters

A parameter that is bound to another type is replaced by that type, an object of
the parameter by an object of the type, and a generic class by its
specialization. Parameters that stay open and classes in which nothing changes
are kept as they are. The content of objects is followed; a constant keeps its
object.
-/

namespace TypeInference.Engine

/-- A type with its parameter replaced, if it is a parameter bound to another type. -/
def replacement? (bindings : Bindings) (ty : Ty) : Option Ty :=
  ty.asParameter?.bind bindings.resolve?

/-- A generic class specialized with its open parameters replaced. -/
def substituteClass (engine : Engine) (bindings : Bindings) (id : ClassId) :
    Analysis ClassId := do
  let store ← Analysis.store
  if !store.isGeneric id then return id
  let template := store.templateOf id
  let own := (store.classAt id).parameters
  let present := (store.typeParameters template).map fun parameter =>
    (own.find? parameter).getD (.parameter parameter)
  if present.all fun ty => (replacement? bindings ty).isNone then return id
  engine.specialize template
    (.ofTypes (present.map fun ty => (replacement? bindings ty).getD ty) .unknown)

/-- A type with its parameters replaced. -/
def substituteType (engine : Engine) (bindings : Bindings) : Ty → Analysis Ty
  | .parameter parameter => return (bindings.resolve? parameter).getD (.parameter parameter)
  | .cls id => return .cls (← engine.substituteClass bindings id)
  | ty => return ty

mutual

/-- A value with its type parameters replaced. -/
def substitute (engine : Engine) (bindings : Bindings) : Value → Analysis Value
  | .unknown => return .unknown
  | .type ty => return .ofType (← engine.substituteType bindings ty)
  | .union alternatives => do
    let replaced ← engine.substituteAll bindings alternatives
    return (← Analysis.store).union replaced
  | .object (.parameter parameter) content => do
    match bindings.resolve? parameter with
    | some (.cls id) => return (← Analysis.store).newObject id
    | some ty => return .ofTy ty
    | none => return .object (.parameter parameter) content
  | .object (.cls id) content => do
    let specialized ← engine.substituteClass bindings id
    match content with
    | .plain =>
      if specialized = id then return .object (.cls id) .plain
      else return (← Analysis.store).newObject specialized
    | .constant constant => return .object (.cls id) (.constant constant)
    | .sequence ⟨items, exact⟩ =>
      return .object (.cls specialized) (.sequence ⟨← engine.substituteAll bindings items, exact⟩)
    | .mapping ⟨entries, exact⟩ =>
      return .object (.cls specialized)
        (.mapping ⟨← engine.substituteEntries bindings entries, exact⟩)
    | .iterator element =>
      return .object (.cls specialized) (.iterator (← engine.substitute bindings element))
  | .object ty content => return .object ty content

/-- Several values with their type parameters replaced. -/
def substituteAll (engine : Engine) (bindings : Bindings) : List Value → Analysis (List Value)
  | [] => return []
  | value :: rest => do
    let first ← engine.substitute bindings value
    let others ← engine.substituteAll bindings rest
    return first :: others

/-- The entries of a mapping with their type parameters replaced. -/
def substituteEntries (engine : Engine) (bindings : Bindings) :
    List (Value × Value) → Analysis (List (Value × Value))
  | [] => return []
  | (key, value) :: rest => do
    let newKey ← engine.substitute bindings key
    let newValue ← engine.substitute bindings value
    let others ← engine.substituteEntries bindings rest
    return (newKey, newValue) :: others

end

end TypeInference.Engine
