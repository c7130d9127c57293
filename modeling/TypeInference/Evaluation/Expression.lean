import TypeInference.Evaluation.Index
import TypeInference.Evaluation.Operation
import TypeInference.Evaluation.Target
import TypeInference.Text.Blank

/-!
# Evaluation of expressions

Every expression has a value. Evaluation declares the targets of comprehensions
in scopes of their own, evaluates functions and specializes classes on demand,
and reports indices that cannot work; it changes nothing else.

Displays are evaluated up to a number of items; one with more is not exact. A
comprehension gives one sample of its element, a generator its first iterable.
An index of the class that marks generic classes lists type parameters, and an
index of a generic class specializes it.
-/

namespace TypeInference.Engine

/-- The type that a type hint denotes, given its evaluation. A text is the name
of a type that may be declared later, and none is the type of the none object. -/
def readTypeHint (hint : Expression) (evaluated : Analysis Value) : Analysis Ty := do
  match hint with
  | .constant (.str text) _ =>
    match ← Analysis.lookupName? (Blank.trim text) .everything with
    | some (.type ty) => return ty
    | _ => return .unknown
  | .constant .none _ => return Store.builtinType .noneType
  | .constant _ _ => return .unknown
  | _ =>
    match ← evaluated with
    | .type ty => return ty
    | .object _ (.constant .none) => return Store.builtinType .noneType
    | _ => return .unknown

/-- The arguments of a call after evaluation. -/
structure CallValues where
  positional : List Value := []
  keywords : List (String × Value) := []

/-- Adds an evaluated argument in front. A sequence of further arguments counts
only if its items are exact; a mapping of further arguments does not count. -/
def CallValues.add (values : CallValues) (passing : Passing) (value : Value) : CallValues :=
  match passing with
  | .positional => { values with positional := value :: values.positional }
  | .keyword name => { values with keywords := (name.name, value) :: values.keywords }
  | .star =>
    match value.asSequence? with
    | some ⟨items, true⟩ => { values with positional := items ++ values.positional }
    | _ => values
  | .doubleStar => values

/-- Entries with one more. The value of a constant key that is there is replaced. -/
def addEntry : List (Value × Value) → Value × Value → List (Value × Value)
  | [], entry => [entry]
  | known :: rest, entry =>
    match known.1.asConstant?, entry.1.asConstant? with
    | some first, some second =>
      if first == second then (known.1, entry.2) :: rest else known :: addEntry rest entry
    | _, _ => known :: addEntry rest entry

/-- The parameters among some values. -/
def parametersAmong (values : List Value) : List TypeParameter :=
  values.filterMap fun value => value.asType?.bind Ty.asParameter?

/-- What an index of a type does. -/
inductive TypeIndex where
  /-- It lists type parameters. -/
  | parameters
  /-- It gives the arguments of a generic class. -/
  | arguments (generic : ClassId)
  /-- Nothing special. -/
  | other

/-- What an index of a value does, if the value is a class. -/
def typeIndex (store : Store) : Value → TypeIndex
  | .type (.cls id) =>
    if Registry.isGenericMarker store id then .parameters
    else if store.isGeneric id then .arguments id
    else .other
  | _ => .other

/-- Whether an index is a slice or a tuple, which selects no single item. -/
def selectsMany : Expression → Bool
  | .slice _ _ _ _ => true
  | .display .tuple _ _ => true
  | _ => false

/-- The content that one sample gives a comprehension. -/
def sampled (kind : ComprehensionKind) (element value : Value) : Value :=
  match kind with
  | .dict => .object (Store.builtinType .dict) (.mapping ⟨[(element, value)], false⟩)
  | .set => .object (Store.builtinType .set) (.sequence ⟨[element], false⟩)
  | _ => .object (Store.builtinType .list) (.sequence ⟨[element], false⟩)

mutual

/-- The value of an expression. -/
def evaluate (engine : Engine) (reach : Reach) : Expression → Analysis Value
  | .constant value _ => return Store.constantObject value
  | .name identifier => return (← Analysis.lookupName? identifier.name reach).getD .unknown
  | .attribute target name _ => do
    let value ← engine.evaluate reach target
    engine.attributeOf name.name value
  | .index target index span => do
    let container ← engine.evaluate reach target
    if container.isUnknown then return .unknown
    match typeIndex (← Analysis.store) container with
    | .parameters =>
      let values ← match index with
        | .display .tuple items _ => engine.evaluateItems reach items.length items
        | single => do
          let value ← engine.evaluate reach single
          pure [value]
      return .type (.marker (parametersAmong values))
    | .arguments generic =>
      let types ← match index with
        | .display .tuple items _ => engine.evaluateTypeHints items
        | single => do
          let ty ← readTypeHint single (engine.evaluate .everything single)
          pure [ty]
      return .type (.cls (← engine.specialize generic (.ofTypes types span)))
    | .other =>
      if selectsMany index then return container
      let position ← engine.evaluate reach index
      engine.itemAt container position index.span span
  | .slice _ _ _ _ => return .unknown
  | .call callee arguments span => do
    let (function, target) ← match callee with
      | .attribute object name _ => do
        let target ← engine.evaluate reach object
        let function ← engine.attributeOf name.name target
        pure (function, some target)
      | other => do
        let function ← engine.evaluate reach other
        pure (function, none)
    let values ← engine.evaluateArguments reach arguments
    engine.callValue target values.positional values.keywords span function
  | .display kind items _ => do
    let limit := (← Analysis.options).maxCollectionSize
    let contents ← engine.evaluateItems reach limit items
    return .object (Store.builtinType kind.builtin)
      (.sequence ⟨contents, decide (items.length ≤ limit)⟩)
  | .dict entries _ => do
    let limit := (← Analysis.options).maxCollectionSize
    let contents ← engine.evaluateEntries reach limit entries
    return .object (Store.builtinType .dict)
      (.mapping ⟨contents.foldl addEntry [], decide (entries.length ≤ limit)⟩)
  | .comprehension comprehension => engine.evaluateComprehension reach comprehension
  | .yield _ _ => return .unknown
  | .unary operator operand span => do
    let value ← engine.evaluate reach operand
    engine.applyUnary operator value span
  | .binary left operator right span => do
    let leftValue ← engine.evaluate reach left
    let rightValue ← engine.evaluate reach right
    engine.applyBinary operator leftValue rightValue span

/-- The value of a comprehension. The first iterable belongs to the scope around. -/
def evaluateComprehension (engine : Engine) (reach : Reach) : Comprehension → Analysis Value
  | ⟨id, kind, element, value, clauses, _⟩ => do
    let iterable ← engine.evaluateFirstIterable reach clauses
    if kind = .generator then return iterable
    Analysis.inScope id .comprehension none fun _ => do
      engine.evaluateClauses reach (some iterable) clauses
      let elementValue ← engine.evaluate reach element
      let entryValue ← if kind = .dict then engine.evaluateOptional reach value else pure .unknown
      return sampled kind elementValue entryValue

/-- The value of the iterable of the first iteration among clauses. -/
def evaluateFirstIterable (engine : Engine) (reach : Reach) : List Clause → Analysis Value
  | [] => return .unknown
  | .iteration _ iterable _ :: _ => engine.evaluate reach iterable
  | .condition _ _ :: rest => engine.evaluateFirstIterable reach rest

/-- Evaluates clauses in order and declares their targets. The iterable of the
first iteration may be known already. -/
def evaluateClauses (engine : Engine) (reach : Reach) (known : Option Value) :
    List Clause → Analysis Unit
  | [] => return
  | .iteration target iterable span :: rest => do
    let value ← match known with
      | some value => pure value
      | none => engine.evaluate reach iterable
    Analysis.bindIterationTarget target value span
    engine.evaluateClauses reach none rest
  | .condition test _ :: rest => do
    let _ ← engine.evaluate reach test
    engine.evaluateClauses reach known rest

/-- The value of an expression that may be missing. -/
def evaluateOptional (engine : Engine) (reach : Reach) : Option Expression → Analysis Value
  | none => return .unknown
  | some expression => engine.evaluate reach expression

/-- The values of the first expressions, at most a given number of them. -/
def evaluateItems (engine : Engine) (reach : Reach) : Nat → List Expression → Analysis (List Value)
  | _, [] => return []
  | 0, _ => return []
  | limit + 1, item :: rest => do
    let first ← engine.evaluate reach item
    let others ← engine.evaluateItems reach limit rest
    return first :: others

/-- The types that type hints denote. -/
def evaluateTypeHints (engine : Engine) : List Expression → Analysis (List Ty)
  | [] => return []
  | hint :: rest => do
    let first ← readTypeHint hint (engine.evaluate .everything hint)
    let others ← engine.evaluateTypeHints rest
    return first :: others

/-- The values of the first entries, at most a given number of them. -/
def evaluateEntries (engine : Engine) (reach : Reach) :
    Nat → List (Expression × Expression) → Analysis (List (Value × Value))
  | _, [] => return []
  | 0, _ => return []
  | limit + 1, (key, value) :: rest => do
    let keyValue ← engine.evaluate reach key
    let entryValue ← engine.evaluate reach value
    let others ← engine.evaluateEntries reach limit rest
    return (keyValue, entryValue) :: others

/-- The values of the arguments of a call. -/
def evaluateArguments (engine : Engine) (reach : Reach) : List CallArgument → Analysis CallValues
  | [] => return {}
  | ⟨passing, argument⟩ :: rest => do
    let value ← engine.evaluate reach argument
    let others ← engine.evaluateArguments reach rest
    return others.add passing value

end

/-- The type that a type hint denotes. -/
def evaluateTypeHint (engine : Engine) (hint : Expression) : Analysis Ty :=
  readTypeHint hint (engine.evaluate .everything hint)

end TypeInference.Engine
