import TypeInference.Evaluation.Call

/-!
# Operators on values

Builtin operands follow the order of numbers, from truth values to complex
numbers, and the rules for joining and repeating texts, lists and tuples. For
other operands the method of the left one is called, if it is an object. What
fits no rule is unknown; operand types that can never be combined are told
apart, so that they can be reported.
-/

namespace TypeInference

/-- What a binary operator gives for two builtin operand types. -/
inductive OperationResult where
  /-- Some object of a builtin type. -/
  | objectOf (builtin : Builtin)
  /-- The left operand with its content. -/
  | left
  /-- The right operand with its content. -/
  | right
  /-- The operand types never combine. -/
  | unsupported
  | unknown
deriving DecidableEq

namespace OperationResult

/-- The result for two numbers, by the higher of their ranks. Bits are only
combined below the rank of real numbers, and only combining truth values without
shifting them gives a truth value. -/
def ofNumbers (operator : BinaryOperator) (rank : Nat) : OperationResult :=
  if operator.isBitwise then
    if rank = 0 ∧ !operator.isShift then .objectOf .bool
    else if 1 < rank then .unsupported
    else .objectOf .int
  else if rank ≤ 1 then
    if operator = .divide then .objectOf .float else .objectOf .int
  else if rank = 2 then .objectOf .float
  else .objectOf .complex

/-- The result for operands that are not both numbers. -/
def ofOthers (left : Builtin) (operator : BinaryOperator) (right : Builtin) : OperationResult :=
  if operator = .add ∧ left = right ∧ left.isTextual then .objectOf left
  else if operator = .modulo ∧ left.isTextual then .objectOf left
  else if operator = .multiply ∧ left.isTextual ∧ right.isInteger then .objectOf left
  else if operator = .multiply ∧ left.isInteger ∧ right.isTextual then .objectOf right
  else if operator = .add ∧ left = right ∧ left.isSequence then .left
  else if operator = .multiply ∧ left.isSequence ∧ right.isInteger then .left
  else if operator = .multiply ∧ left.isInteger ∧ right.isSequence then .right
  else if (left.isTextual ∧ (right.isNumeric ∨ right.isTextual))
      ∨ (left.isNumeric ∧ right.isTextual) then .unsupported
  else .unknown

/-- The result for two builtin operand types. -/
def of (left : Builtin) (operator : BinaryOperator) (right : Builtin) : OperationResult :=
  match left.numericRank, right.numericRank with
  | some first, some second => ofNumbers operator (max first second)
  | _, _ => ofOthers left operator right

end OperationResult

/-- Whether an operator can never apply to two values. Only known operands of
builtin types are judged. -/
def Store.unsupportedOperands (store : Store) (operator : BinaryOperator) (left right : Value) :
    Bool :=
  if operator.isLogical || operator.isComparison || left.isUnknown || right.isUnknown then false
  else
    match store.builtin? (store.typeOf left), store.builtin? (store.typeOf right) with
    | some first, some second => OperationResult.of first operator second = .unsupported
    | _, _ => false

namespace Engine

/-- The value of a binary operator on two values. -/
def applyBinary (engine : Engine) (operator : BinaryOperator) (left right : Value) (span : Span) :
    Analysis Value := do
  let store ← Analysis.store
  if operator.isLogical then return store.union [left, right]
  if operator.isComparison then return store.builtinObject .bool
  if left.isUnknown || right.isUnknown then return .unknown
  let leftType := store.typeOf left
  match store.builtin? leftType, store.builtin? (store.typeOf right) with
  | some first, some second =>
    match OperationResult.of first operator second with
    | .objectOf builtin => return store.builtinObject builtin
    | .left => return left
    | .right => return right
    | .unsupported => return .unknown
    | .unknown => return .unknown
  | _, _ =>
    match operator.method?, leftType.asClass? with
    | some name, some id =>
      if left.isObject then
        let method ← engine.constructedMethod? id name
        engine.callMethod method left [right] [] span
      else return .unknown
    | _, _ => return .unknown

/-- The constant that a unary operator gives for a constant. The smallest integer
has no negation. -/
def foldUnary (operator : UnaryOperator) (constant : Constant) : Option Constant :=
  match operator, constant with
  | .negate, .int value => if value = Int64.minValue then none else some (.int (-value))
  | .negate, .float value => some (.float value.negate)
  | .plus, .int value => some (.int value)
  | .plus, .float value => some (.float value)
  | .invert, .int value => some (.int (~~~value))
  | _, _ => none

/-- The value of a unary operator on a value. -/
def applyUnary (engine : Engine) (operator : UnaryOperator) (operand : Value) (span : Span) :
    Analysis Value := do
  let store ← Analysis.store
  if operator = .not then return store.builtinObject .bool
  if operand.isUnknown then return .unknown
  match operand.asConstant?.bind (foldUnary operator) with
  | some folded => return Store.constantObject folded
  | none =>
    let ty := store.typeOf operand
    match store.builtin? ty with
    | some .bool => return store.builtinObject .int
    | some builtin =>
      if builtin.isNumeric then
        if operator = .invert ∧ builtin ≠ .int then return .unknown
        else return store.builtinObject builtin
      else engine.callMethod (unaryMethod? store ty operator) operand [] [] span
    | none => engine.callMethod (unaryMethod? store ty operator) operand [] [] span
where
  /-- The method of a type that a unary operator calls. -/
  unaryMethod? (store : Store) (ty : Ty) (operator : UnaryOperator) : Option FunctionId :=
    match ty.asClass?, operator.method? with
    | some id, some name => store.method? id name
    | _, _ => none

end Engine

end TypeInference
