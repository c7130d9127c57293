import TypeInference.Proofs.Contents
import TypeInference.Proofs.Exactness
import TypeInference.Proofs.Stillness

/-!
# What operators come to

Where no overload is pending, an arithmetic operator comes to a value or to the call of a method,
which can be told from the store (`Store.binaryApplication`, `Store.unaryApplication`): operands of
builtin types follow the rules for these, others are left to the method of the left operand. A
method that is called depends on its arguments only as far as they show something about type
parameters.
-/

namespace TypeInference

open Analysis

/-- What an operator comes to: a value, or the call of a method. -/
inductive Application where
  | gives (value : Value)
  | calls (method : FunctionId) (receiver : Value) (arguments : List Value)

namespace Application

/-- The call of a method that may be missing. -/
def ofMethod (method : Option FunctionId) (receiver : Value) (arguments : List Value) :
    Application :=
  match method with
  | some method => .calls method receiver arguments
  | none => .gives .unknown

/-- What is done for it. -/
def run (engine : Engine) (span : Span) : Application → Analysis Value
  | .gives value => return value
  | .calls method receiver arguments =>
    engine.callFunction method (some receiver) arguments [] span

theorem run_ofMethod (engine : Engine) (span : Span) (method : Option FunctionId)
    (receiver : Value) (arguments : List Value) :
    (ofMethod method receiver arguments).run engine span =
      engine.callMethod method receiver arguments [] span := by
  cases method <;> rfl

end Application

namespace Builtin

/-- A number with a sign: those of truth values are integers. -/
def signed : Builtin → Builtin
  | .bool => .int
  | builtin => builtin

theorem isNumeric_signed {number : Builtin} (proper : number.isNumeric = true) :
    number.signed.isNumeric = true := by
  cases number with
  | bool => rfl
  | _ => exact proper

end Builtin

namespace OperationResult

variable {first second builtin : Builtin} {operator : BinaryOperator}

/-- Rules make numbers and texts only. -/
theorem isNumeric_or_isTextual_of_objectOf (result : of first operator second = .objectOf builtin) :
    builtin.isNumeric = true ∨ builtin.isTextual = true := by
  unfold of at result
  split at result
  · unfold ofNumbers at result
    split_ifs at result <;> cases result <;> exact .inl rfl
  · unfold ofOthers at result
    split_ifs at result with added formatted repeated repeating
    · cases result
      exact .inr added.2.2
    · cases result
      exact .inr formatted.2
    · cases result
      exact .inr repeated.2.1
    · cases result
      exact .inr repeating.2.2

/-- Of the operands, rules keep lists and tuples only. -/
theorem isSequence_of_left (result : of first operator second = .left) :
    first.isSequence = true := by
  unfold of at result
  split at result
  · unfold ofNumbers at result
    split_ifs at result
  · unfold ofOthers at result
    split_ifs at result with _ _ _ _ joined repeated
    · exact joined.2.2
    · exact repeated.2.1

theorem isSequence_of_right (result : of first operator second = .right) :
    second.isSequence = true := by
  unfold of at result
  split at result
  · unfold ofNumbers at result
    split_ifs at result
  · unfold ofOthers at result
    split_ifs at result with _ _ _ _ _ _ repeating
    · exact repeating.2.2

/-- Texts can be formatted with whatever there is. -/
theorem of_formatted (textual : first.isTextual = true) (second : Builtin) :
    of first .modulo second = .objectOf first := by
  cases first with
  | str | bytes => cases second <;> rfl
  | _ => cases textual

/-- There is no rule for the none object on the left. -/
theorem of_none_left (operator : BinaryOperator) (second : Builtin) :
    of .noneType operator second = .unknown := by
  cases operator <;> cases second <;> rfl

/-- On the right texts are formatted with it only. -/
theorem of_none_right (other : ¬(operator = .modulo ∧ first.isTextual = true)) :
    of first operator .noneType = .unknown := by
  cases first with
  | str | bytes =>
    cases operator with
    | modulo => exact absurd ⟨rfl, rfl⟩ other
    | _ => rfl
  | _ => cases operator <;> rfl

end OperationResult

namespace Store

variable {store : Store}

/-- What the rules for two builtin operand types give. -/
def resultOf (store : Store) (left right : Value) : OperationResult → Value
  | .objectOf builtin => store.builtinObject builtin
  | .left => left
  | .right => right
  | .unsupported | .unknown => .unknown

/-- The call of the method of the left operand, if that is an object. -/
def methodApplication (store : Store) (operator : BinaryOperator) (left right : Value) :
    Application :=
  match operator.method?, (store.typeOf left).asClass? with
  | some name, some id =>
    if left.isObject then .ofMethod (store.method? id name) left [right] else .gives .unknown
  | _, _ => .gives .unknown

/-- What an arithmetic operator between two values comes to. -/
def binaryApplication (store : Store) (operator : BinaryOperator) (left right : Value) :
    Application :=
  if left.isUnknown || right.isUnknown then .gives .unknown
  else
    match store.builtin? (store.typeOf left), store.builtin? (store.typeOf right) with
    | some first, some second =>
      .gives (store.resultOf left right (OperationResult.of first operator second))
    | _, _ => store.methodApplication operator left right

/-- What an arithmetic operator before a class comes to. -/
def unaryApplication (store : Store) (operator : UnaryOperator) (id : ClassId) : Application :=
  match (store.builtin? (.cls id)).filter Builtin.isNumeric with
  | some .bool => .gives (store.builtinObject .int)
  | some builtin =>
    if operator = .invert ∧ builtin ≠ .int then .gives .unknown
    else .gives (store.builtinObject builtin)
  | none => .ofMethod (operator.method?.bind (store.method? id)) (.type (.cls id)) []

end Store

namespace Engine

variable {engine : Engine} {reach : Reach} {environment : Environment} {before : Progress}
  {depth : Nat}

/-- The method of a class where no overload is pending. -/
theorem constructedMethod?_of_deep (settled : before.store.NoOverloadIs .pending) (id : ClassId)
    (name : String) : (Engine.atDepth (depth + 1)).constructedMethod? id name environment before =
      .ok (before.store.method? id name) before := by
  rw [constructedMethod?, bind_of_ok (ensureConstructed_of_deep depth id environment settled)]
  rfl

theorem binaryByMethod_eq_run (settled : before.store.NoOverloadIs .pending)
    (operator : BinaryOperator) (left right : Value) (span : Span) :
    (Engine.atDepth (depth + 1)).binaryByMethod before.store operator left right span environment
        before =
      (before.store.methodApplication operator left right).run (Engine.atDepth (depth + 1)) span
        environment before := by
  unfold binaryByMethod Store.methodApplication
  cases operator.method? with
  | none => rfl
  | some name =>
    cases (before.store.typeOf left).asClass? with
    | none => rfl
    | some id =>
      dsimp only
      cases left.isObject with
      | false => rfl
      | true =>
        rw [if_pos rfl, if_pos rfl, bind_of_ok (constructedMethod?_of_deep settled id name),
          Application.run_ofMethod]

/-- An arithmetic operator between two values gives what it comes to. -/
theorem applyBinary_eq_run (settled : before.store.NoOverloadIs .pending)
    {operator : BinaryOperator} (logical : operator.isLogical = false)
    (comparison : operator.isComparison = false) (left right : Value) (span : Span) :
    (Engine.atDepth (depth + 1)).applyBinary operator left right span environment before =
      (before.store.binaryApplication operator left right).run (Engine.atDepth (depth + 1)) span
        environment before := by
  have byMethod := @binaryByMethod_eq_run environment before depth settled operator left right span
  simp only [applyBinary, bind_apply, store_apply, logical, comparison, Bool.false_eq_true,
    if_false, Store.binaryApplication]
  split
  · rfl
  · cases before.store.builtin? (before.store.typeOf left) with
    | none => exact byMethod
    | some first =>
      cases before.store.builtin? (before.store.typeOf right) with
      | none => exact byMethod
      | some second =>
        dsimp only
        cases OperationResult.of first operator second <;> rfl

/-- An arithmetic operator before a class gives what it comes to. -/
theorem applyUnary_eq_run {operator : UnaryOperator} (arithmetic : operator ≠ .not) (id : ClassId)
    (span : Span) :
    engine.applyUnary operator (.type (.cls id)) span environment before =
      (before.store.unaryApplication operator id).run engine span environment before := by
  have byMethod : engine.callMethod (applyUnary.unaryMethod? before.store (.cls id) operator)
      (.type (.cls id)) [] [] span = (Application.ofMethod
        (operator.method?.bind (before.store.method? id)) (.type (.cls id)) []).run engine
          span := by
    rw [Application.run_ofMethod]
    cases operator <;> rfl
  simp only [applyUnary, bind_apply, store_apply, if_neg arithmetic, Value.isUnknown,
    Bool.false_eq_true, if_false, Value.asConstant?, Option.bind_none, Store.typeOf,
    Store.unaryApplication]
  cases before.store.builtin? (.cls id) with
  | none => exact congrFun (congrFun byMethod environment) before
  | some nature =>
    cases nature with
    | bool => rfl
    | int | float | complex => cases operator <;> rfl
    | _ => exact congrFun (congrFun byMethod environment) before

end Engine

namespace Store

/-- The objects of the registered classes of numbers and texts are plain objects of these. -/
theorem builtinObject_eq {store : Store} (registered : Registry.standard.store.KeepsShapes store)
    {builtin : Builtin} (proper : builtin.isNumeric = true ∨ builtin.isTextual = true) :
    store.builtinObject builtin = .object (builtinType builtin) .plain := by
  have present : Registry.standard.store.HasClass (builtinClass builtin) := by
    cases builtin <;> decide +kernel
  have plain : (Registry.standard.store.classAt (builtinClass builtin)).flags.typeOfType =
      false := by
    cases builtin <;> decide +kernel
  have sameFlags {one other : ClassRecord} (same : one.shape = other.shape) :
      one.flags = other.flags := show one.shape.flags = other.shape.flags by rw [same]
  have flags : (store.classAt (builtinClass builtin)).flags.typeOfType = false := by
    rw [sameFlags (registered.shapes _ present), plain]
  have nature : (store.classAt (builtinClass builtin)).builtin = some builtin :=
    knowsBuiltins_standard.of_keepsShapes registered builtin
  simp only [builtinObject, newObject, flags, nature, Bool.false_eq_true, if_false]
  cases builtin with
  | bool | int | float | complex | str | bytes => rfl
  | _ => rcases proper with impossible | impossible <;> cases impossible

end Store

section Passing

variable {store : Store}

/-- Arguments that are not declared with type parameters show nothing about them. -/
theorem foldl_bindDeclared_of_untyped {arguments : List Argument}
    (untyped : ∀ argument ∈ arguments, argument.declaredType.asParameter? = none)
    (bindings : Bindings) :
    arguments.foldl (Engine.bindDeclared store) bindings = bindings := by
  induction arguments with
  | nil => rfl
  | cons argument rest inductionHypothesis =>
    obtain ⟨here, later⟩ := List.forall_mem_cons.mp untyped
    have still : Engine.bindDeclared store bindings argument = bindings := by
      unfold Engine.bindDeclared
      cases declared : argument.declaredType with
      | parameter _ =>
        rw [declared] at here
        cases here
      | _ => rfl
    rw [List.foldl_cons, still, inductionHypothesis later]

/-- What a parameter takes is bound to it. -/
theorem bound_of_bind {supply : Supply} {parameter : FormalParameter} {argument : Argument}
    (listed : argument ∈ (supply.bind parameter).1) :
    ∃ value, argument = .bound parameter value := by
  unfold Supply.bind at listed
  cases kind : parameter.kind with
  | normal | keywordOnly =>
    simp only [kind, Supply.boundOrDefault, Option.mem_toList,
      Option.map_eq_some_iff] at listed
    obtain ⟨value, -, same⟩ := listed
    exact ⟨value, same.symm⟩
  | varPositional =>
    simp only [kind, List.mem_map] at listed
    obtain ⟨value, -, same⟩ := listed
    exact ⟨value, same.symm⟩
  | varKeyword =>
    simp only [kind] at listed
    cases listed

/-- What parameters take is declared as they are. -/
theorem untyped_of_bindAll {parameters : List FormalParameter}
    (untyped : ∀ parameter ∈ parameters, parameter.declaredType.asParameter? = none) :
    ∀ {supply : Supply}, ∀ argument ∈ (supply.bindAll parameters).1,
      argument.declaredType.asParameter? = none := by
  induction parameters with
  | nil => exact nofun
  | cons parameter rest inductionHypothesis =>
    obtain ⟨here, later⟩ := List.forall_mem_cons.mp untyped
    intro supply argument listed
    rcases List.mem_append.mp listed with first | others
    · obtain ⟨value, rfl⟩ := bound_of_bind first
      exact here
    · exact inductionHypothesis later argument others

/-- Where no parameter after that of the receiver is declared with a type parameter, nothing depends
on the arguments. -/
theorem callBindings_of_untyped {overload : Overload}
    (untyped : ∀ parameter ∈ overload.parameters.tail, parameter.declaredType.asParameter? = none)
    (receiver : Value) (one other : List Value) (span : Span) :
    Engine.callBindings store overload (some receiver) one [] span =
      Engine.callBindings store overload (some receiver) other [] span := by
  have onlyReceived (supply : Supply) (bindings : Bindings) :
      ((supply.bindAll overload.parameters.tail).1 ++
        (supply.bindAll overload.parameters.tail).2.surplus).foldl (Engine.bindDeclared store)
          bindings = bindings := by
    refine foldl_bindDeclared_of_untyped (List.forall_mem_append.mpr
      ⟨untyped_of_bindAll untyped, fun argument listed => ?_⟩) bindings
    rcases List.mem_append.mp listed with placed | named
    · obtain ⟨value, -, rfl⟩ := List.mem_map.mp placed
      rfl
    · obtain ⟨entry, -, rfl⟩ := List.mem_map.mp named
      rfl
  unfold Engine.callBindings Arguments.forCall
  cases parameters : overload.parameters with
  | nil =>
    rw [parameters] at onlyReceived
    exact (onlyReceived ⟨one, []⟩ _).trans (onlyReceived ⟨other, []⟩ _).symm
  | cons first rest =>
    rw [parameters, List.tail_cons] at onlyReceived
    simp only [List.append_assoc, List.foldl_append, List.foldl_cons,
      List.foldl_nil] at onlyReceived ⊢
    rw [onlyReceived, onlyReceived]

end Passing

namespace Engine

variable {environment : Environment} {before : Progress} {depth : Nat}

/-- Where no overload is pending a call depends on its arguments only as far as they show something
about type parameters. -/
theorem callFunction_congr (settled : before.store.NoOverloadIs .pending) {method : FunctionId}
    {receiver : Value} {one other : List Value} {span : Span}
    (same : ∀ overload, (before.store.functionAt method).overloads.head? = some overload →
      callBindings before.store overload (some receiver) one [] span =
        callBindings before.store overload (some receiver) other [] span) :
    (atDepth (depth + 1)).callFunction method (some receiver) one [] span environment before =
      (atDepth (depth + 1)).callFunction method (some receiver) other [] span environment
        before := by
  have evaluated : (atDepth (depth + 1)).evaluateFunction method environment before =
      .ok () before := evaluateDefinition_of_settled method environment settled
  rw [callFunction, callFunction, bind_of_ok evaluated, bind_of_ok evaluated,
    bind_of_ok (store_apply environment before), bind_of_ok (store_apply environment before)]
  cases head : (before.store.functionAt method).overloads.head? with
  | none => rfl
  | some overload =>
    dsimp only
    rw [same overload head]

end Engine

namespace Store

variable {store : Store} {operator : BinaryOperator} {left right : Value} {id : ClassId}

theorem isUnknown_of_builtin? {value : Value} {nature : Builtin}
    (known : store.builtin? (store.typeOf value) = some nature) : value.isUnknown = false := by
  cases value with
  | unknown => cases known
  | type _ | object _ _ | union _ => rfl

/-- Two operands of builtin types follow the rules. -/
theorem binaryApplication_of_builtins {first second : Builtin}
    (one : store.builtin? (store.typeOf left) = some first)
    (other : store.builtin? (store.typeOf right) = some second) :
    store.binaryApplication operator left right =
      .gives (store.resultOf left right (OperationResult.of first operator second)) := by
  simp only [binaryApplication, isUnknown_of_builtin? one, isUnknown_of_builtin? other, one, other,
    Bool.or_self, Bool.false_eq_true, if_false]

/-- Other operands are left to the method of the left one. -/
theorem binaryApplication_of_other (one : left.isUnknown = false) (other : right.isUnknown = false)
    (mixed : store.builtin? (store.typeOf left) = none ∨
      store.builtin? (store.typeOf right) = none) :
    store.binaryApplication operator left right = store.methodApplication operator left right := by
  simp only [binaryApplication, one, other, Bool.or_self, Bool.false_eq_true, if_false]
  rcases mixed with missing | missing
  · rw [missing]
  · rw [missing]
    cases store.builtin? (store.typeOf left) <;> rfl

/-- An object may have a method, which is called with it as the receiver. -/
theorem methodApplication_cases (store : Store) (operator : BinaryOperator) (left : Value) :
    (left.isObject = true ∧ ∃ method, ∀ right,
      store.methodApplication operator left right = .calls method left [right]) ∨
    ∀ right, store.methodApplication operator left right = .gives .unknown := by
  unfold methodApplication
  cases operator.method? with
  | none => exact .inr fun _ => rfl
  | some name =>
    cases (store.typeOf left).asClass? with
    | none => exact .inr fun _ => rfl
    | some id =>
      dsimp only
      cases isObject : left.isObject with
      | false => exact .inr fun _ => rfl
      | true =>
        cases store.method? id name with
        | none => exact .inr fun _ => rfl
        | some method => exact .inl ⟨rfl, method, fun _ => rfl⟩

/-- A class of numbers gives one of these where the operator applies to them. -/
theorem unaryApplication_of_number {operator : UnaryOperator} {nature : Builtin}
    (known : store.builtin? (.cls id) = some nature) (numeric : nature.isNumeric = true) :
    store.unaryApplication operator id = .gives
      (if operator = .invert ∧ nature.isInteger = false then .unknown
      else store.builtinObject nature.signed) := by
  cases nature with
  | bool | int | float | complex =>
    rw [unaryApplication, known]
    cases operator <;> rfl
  | _ => cases numeric

/-- Any other class is asked for its method. -/
theorem unaryApplication_of_other {operator : UnaryOperator}
    (other : ∀ nature, store.builtin? (.cls id) = some nature → nature.isNumeric = false) :
    store.unaryApplication operator id =
      .ofMethod (operator.method?.bind (store.method? id)) (.type (.cls id)) [] := by
  have missing : (store.builtin? (.cls id)).filter Builtin.isNumeric = none :=
    Option.filter_eq_none_iff.mpr fun nature known => Bool.eq_false_iff.mp (other nature known)
  rw [unaryApplication, missing]

end Store

end TypeInference
