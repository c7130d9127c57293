import TypeInference.Evaluation.Expression

/-!
# Checks of expressions

Before a statement uses an expression, names that mean nothing and operators
whose builtin operands never combine are reported, from left to right. Of a
comprehension only the first iterable is checked, since the targets are known
only inside of it.
-/

namespace TypeInference.Engine

/-- Reports a name that neither a scope nor the registry knows. -/
def checkName (identifier : Identifier) : Analysis Unit := do
  match ← Analysis.lookupName? identifier.name .everything with
  | some _ => return
  | none => Analysis.report (.undefinedVariable identifier.name) identifier.span

/-- Reports operands that never combine. -/
def checkOperands (operator : BinaryOperator) (left right : Value) (span : Span) :
    Analysis Unit := do
  let store ← Analysis.store
  if store.unsupportedOperands operator left right then
    Analysis.report
      (.unsupportedOperandType operator.symbol (store.typeName (store.typeOf left))
        (store.typeName (store.typeOf right))) span

mutual

/-- Reports what cannot work in an expression. -/
def check (engine : Engine) : Expression → Analysis Unit
  | .constant _ _ => return
  | .name identifier => checkName identifier
  | .attribute target _ _ => engine.check target
  | .index target index _ => do
    engine.check target
    engine.check index
  | .slice lower upper step _ => do
    engine.checkOptional lower
    engine.checkOptional upper
    engine.checkOptional step
  | .call callee arguments _ => do
    engine.check callee
    engine.checkArguments arguments
  | .display _ items _ => engine.checkAll items
  | .dict entries _ => engine.checkEntries entries
  | .comprehension comprehension => engine.checkComprehension comprehension
  | .yield value _ => engine.checkOptional value
  | .unary _ operand _ => engine.check operand
  | .binary left operator right span => do
    engine.check left
    engine.check right
    let leftValue ← engine.evaluate .everything left
    let rightValue ← engine.evaluate .everything right
    checkOperands operator leftValue rightValue span

/-- Reports what cannot work in the first iterable of a comprehension. -/
def checkComprehension (engine : Engine) : Comprehension → Analysis Unit
  | ⟨_, _, _, _, clauses, _⟩ => engine.checkFirstIterable clauses

/-- Reports what cannot work in the iterable of the first iteration. -/
def checkFirstIterable (engine : Engine) : List Clause → Analysis Unit
  | [] => return
  | .iteration _ iterable _ :: _ => engine.check iterable
  | .condition _ _ :: rest => engine.checkFirstIterable rest

/-- Reports what cannot work in an expression that may be missing. -/
def checkOptional (engine : Engine) : Option Expression → Analysis Unit
  | none => return
  | some expression => engine.check expression

/-- Reports what cannot work in several expressions. -/
def checkAll (engine : Engine) : List Expression → Analysis Unit
  | [] => return
  | expression :: rest => do
    engine.check expression
    engine.checkAll rest

/-- Reports what cannot work in keys and values. -/
def checkEntries (engine : Engine) : List (Expression × Expression) → Analysis Unit
  | [] => return
  | (key, value) :: rest => do
    engine.check key
    engine.check value
    engine.checkEntries rest

/-- Reports what cannot work in the arguments of a call. -/
def checkArguments (engine : Engine) : List CallArgument → Analysis Unit
  | [] => return
  | ⟨_, value⟩ :: rest => do
    engine.check value
    engine.checkArguments rest

end

/-- The value of an expression that a statement uses, after it was checked. -/
def checkedValue (engine : Engine) (expression : Expression) : Analysis Value := do
  engine.check expression
  engine.evaluate .everything expression

/-- The value of an expression that a statement may use. -/
def checkedOptional (engine : Engine) : Option Expression → Analysis (Option Value)
  | none => return none
  | some expression => return some (← engine.checkedValue expression)

/-- The value of an annotated assignment: what is assigned, or what the
type hint describes if that is missing or unknown. -/
def annotatedValue (engine : Engine) (hint : Expression) (value : Option Expression) :
    Analysis Value := do
  let declared ← engine.evaluateTypeHint hint
  let assigned := (← engine.checkedOptional value).getD .unknown
  if assigned.isUnknown then return (← Analysis.store).described declared else return assigned

end TypeInference.Engine
