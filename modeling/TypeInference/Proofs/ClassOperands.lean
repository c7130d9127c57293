import TypeInference.Proofs.Applications

/-!
# Classes as operands

A class is no object of itself, but operators look at the types of their operands, and the type of a
class is the class. What they come to shows what is taken for an object of a class where the operand
is the class itself: what is obtained is a number, a text, a list or a tuple that another class
would not give, or a method of the class is called with the class as its receiver.
-/

namespace TypeInference

open Analysis

/-- Whether a value is a number, a text, a list or a tuple. -/
def Store.IsBuiltinObject (store : Store) (value : Value) : Prop :=
  ∃ ty content builtin, value = .object ty content ∧ store.builtin? ty = some builtin ∧
    (builtin.isNumeric = true ∨ builtin.isTextual = true ∨ builtin.isSequence = true)

/-- Whether a class is taken for an object of it: what is done gives a number, a text, a list or a
tuple that some other class, builtin if it is, would not give, or it calls a method with the class
as its receiver. -/
def TakesForObject (engine : Engine) (environment : Environment) (span : Span)
    (progress : Progress) (application : ClassId → Application) (id : ClassId) : Prop :=
  (∃ value after, (application id).run engine span environment progress = .ok value after ∧
    after.store.IsBuiltinObject value ∧
    ∃ other, (progress.store.builtin? (.cls other)).isSome =
        (progress.store.builtin? (.cls id)).isSome ∧
      ∀ last, (application other).run engine span environment progress ≠ .ok value last) ∨
  ∃ method arguments, application id = .calls method (.type (.cls id)) arguments

namespace Store

/-- Whether the rules for builtin operands make an object out of a class on the left. -/
def LeftRules (store : Store) (operator : BinaryOperator) (id : ClassId) (right : Value) : Prop :=
  ∃ first second, store.builtin? (.cls id) = some first ∧
    store.builtin? (store.typeOf right) = some second ∧
    ((∃ builtin, OperationResult.of first operator second = .objectOf builtin) ∨
      OperationResult.of first operator second = .right ∧ right.isObject = true)

/-- Whether they make one out of a class on the right, other than that a text is formatted with
it. -/
def RightRules (store : Store) (operator : BinaryOperator) (left : Value) (id : ClassId) : Prop :=
  ∃ first second, store.builtin? (store.typeOf left) = some first ∧
    store.builtin? (.cls id) = some second ∧
    ((∃ builtin, OperationResult.of first operator second = .objectOf builtin) ∧
        ¬(operator = .modulo ∧ first.isTextual = true) ∨
      OperationResult.of first operator second = .left ∧ left.isObject = true)

/-- Whether a method of the left operand is called with a class and declares a type parameter for an
argument. -/
def PassesRight (store : Store) (operator : BinaryOperator) (left : Value) (id : ClassId) : Prop :=
  ∃ method overload, store.binaryApplication operator left (.type (.cls id)) =
      .calls method left [.type (.cls id)] ∧
    (store.functionAt method).overloads.head? = some overload ∧
    ∃ parameter ∈ overload.parameters.tail, parameter.declaredType.asParameter?.isSome = true

/-- Whether a class is one of numbers to which a unary operator applies. -/
def IsNumberFor (store : Store) (operator : UnaryOperator) (id : ClassId) : Prop :=
  ∃ nature, store.builtin? (.cls id) = some nature ∧ nature.isNumeric = true ∧
    (operator = .invert → nature.isInteger = true)

/-- Whether a class is none of numbers and has a method for a unary operator. -/
def HasUnaryMethod (store : Store) (operator : UnaryOperator) (id : ClassId) : Prop :=
  (∀ nature, store.builtin? (.cls id) = some nature → nature.isNumeric = false) ∧
    ∃ name method, operator.method? = some name ∧ store.method? id name = some method

variable {store : Store} {operator : BinaryOperator} {left right : Value} {id : ClassId}

/-- A class on the left is never a receiver. -/
theorem binaryApplication_class_left (store : Store) (operator : BinaryOperator) (id : ClassId)
    (right : Value) :
    (∃ first second, store.builtin? (.cls id) = some first ∧
      store.builtin? (store.typeOf right) = some second ∧
      store.binaryApplication operator (.type (.cls id)) right =
        .gives (store.resultOf (.type (.cls id)) right
          (OperationResult.of first operator second))) ∨
    store.binaryApplication operator (.type (.cls id)) right = .gives .unknown := by
  have byMethod : store.methodApplication operator (.type (.cls id)) right = .gives .unknown := by
    rcases store.methodApplication_cases operator (.type (.cls id)) with ⟨isObject, -⟩ | gives
    · cases isObject
    · exact gives right
  cases unknown : right.isUnknown with
  | true => exact .inr (if_pos (by rw [unknown, Bool.or_true]))
  | false =>
    cases one : store.builtin? (.cls id) with
    | none => exact .inr ((binaryApplication_of_other rfl unknown (.inl one)).trans byMethod)
    | some first =>
      cases other : store.builtin? (store.typeOf right) with
      | none => exact .inr ((binaryApplication_of_other rfl unknown (.inr other)).trans byMethod)
      | some second => exact .inl ⟨first, second, rfl, rfl, binaryApplication_of_builtins one other⟩

section Results

variable (registered : Registry.standard.store.KeepsShapes store)

include registered

/-- The rules give a builtin object if they make one, or keep an operand that is one. -/
theorem isBuiltinObject_resultOf {first second : Builtin}
    (one : store.builtin? (store.typeOf left) = some first)
    (other : store.builtin? (store.typeOf right) = some second) :
    store.IsBuiltinObject (store.resultOf left right (OperationResult.of first operator second)) ↔
      (∃ builtin, OperationResult.of first operator second = .objectOf builtin) ∨
      (OperationResult.of first operator second = .left ∧ left.isObject = true) ∨
      (OperationResult.of first operator second = .right ∧ right.isObject = true) := by
  have isObject {value : Value} (builtin : store.IsBuiltinObject value) :
      value.isObject = true := by
    obtain ⟨ty, content, nature, rfl, -, -⟩ := builtin
    rfl
  have isBuiltin {value : Value} {nature : Builtin}
      (known : store.builtin? (store.typeOf value) = some nature)
      (sequential : nature.isSequence = true) (object : value.isObject = true) :
      store.IsBuiltinObject value := by
    cases value with
    | object ty content => exact ⟨ty, content, nature, rfl, known, .inr (.inr sequential)⟩
    | unknown | type _ | union _ => cases object
  cases result : OperationResult.of first operator second with
  | objectOf builtin =>
    refine iff_of_true ?_ (.inl ⟨builtin, rfl⟩)
    have proper := OperationResult.isNumeric_or_isTextual_of_objectOf result
    exact ⟨builtinType builtin, .plain, builtin, builtinObject_eq registered proper,
      knowsBuiltins_standard.of_keepsShapes registered builtin, proper.imp id .inl⟩
  | left =>
    refine ⟨fun builtin => .inr (.inl ⟨rfl, isObject builtin⟩), ?_⟩
    rintro (⟨_, impossible⟩ | ⟨-, object⟩ | ⟨impossible, -⟩)
    · cases impossible
    · exact isBuiltin one (OperationResult.isSequence_of_left result) object
    · cases impossible
  | right =>
    refine ⟨fun builtin => .inr (.inr ⟨rfl, isObject builtin⟩), ?_⟩
    rintro (⟨_, impossible⟩ | ⟨impossible, -⟩ | ⟨-, object⟩)
    · cases impossible
    · cases impossible
    · exact isBuiltin other (OperationResult.isSequence_of_right result) object
  | unsupported | unknown =>
    refine iff_of_false (fun builtin => Bool.false_ne_true (isObject builtin)) ?_
    rintro (⟨_, impossible⟩ | ⟨impossible, -⟩ | ⟨impossible, -⟩) <;> cases impossible

end Results

end Store

section Taking

variable {engine : Engine} {environment : Environment} {span : Span} {progress : Progress}
  {application : ClassId → Application} {id : ClassId}

/-- A builtin object that is given for a class, and not for some other one. -/
theorem TakesForObject.of_gives {value otherwise : Value} {other : ClassId}
    (given : application id = .gives value) (builtin : progress.store.IsBuiltinObject value)
    (alike : (progress.store.builtin? (.cls other)).isSome =
      (progress.store.builtin? (.cls id)).isSome)
    (instead : application other = .gives otherwise) (apart : otherwise ≠ value) :
    TakesForObject engine environment span progress application id := by
  refine .inl ⟨value, progress, by rw [given]; rfl, builtin, other, alike, fun last ran => ?_⟩
  rw [instead] at ran
  cases ran
  exact apart rfl

/-- If a value is given for a class that is taken for an object, it is a builtin object, and not
given for some other class. -/
theorem TakesForObject.gives {value : Value} (given : application id = .gives value)
    (takes : TakesForObject engine environment span progress application id) :
    progress.store.IsBuiltinObject value ∧ ∃ other,
      (progress.store.builtin? (.cls other)).isSome =
        (progress.store.builtin? (.cls id)).isSome ∧ application other ≠ .gives value := by
  rcases takes with ⟨found, after, ran, builtin, other, alike, differs⟩ |
      ⟨method, arguments, called⟩
  · rw [given] at ran
    cases ran
    refine ⟨builtin, other, alike, fun same => differs progress ?_⟩
    rw [same]
    rfl
  · rw [given] at called
    cases called

theorem Store.IsBuiltinObject.ne_unknown {store : Store} {value : Value}
    (builtin : store.IsBuiltinObject value) : .unknown ≠ value := by
  obtain ⟨_, _, _, rfl, -⟩ := builtin
  exact nofun

theorem not_takesForObject_of_unknown (given : application id = .gives .unknown) :
    ¬TakesForObject engine environment span progress application id :=
  fun takes => (takes.gives given).1.ne_unknown rfl

variable (registered : Registry.standard.store.KeepsShapes progress.store)

include registered

/-- A class on the left is taken for an object by the rules for builtin operands, and only by
these. -/
theorem takesForObject_left_iff {operator : BinaryOperator} {right : Value} :
    TakesForObject engine environment span progress
        (fun id => progress.store.binaryApplication operator (.type (.cls id)) right) id ↔
      progress.store.LeftRules operator id right := by
  have nothing := Store.knowsBuiltins_standard.of_keepsShapes registered .noneType
  have rules {first second : Builtin} (one : progress.store.builtin? (.cls id) = some first)
      (other : progress.store.builtin? (progress.store.typeOf right) = some second) :=
    @Store.isBuiltinObject_resultOf _ operator (.type (.cls id)) right registered first second one
      other
  constructor
  · intro takes
    rcases progress.store.binaryApplication_class_left operator id right with
      ⟨first, second, one, other, given⟩ | unknown
    · refine ⟨first, second, one, other, ?_⟩
      rcases (rules one other).mp (takes.gives given).1 with made | ⟨-, impossible⟩ | kept
      · exact .inl made
      · cases impossible
      · exact .inr kept
    · exact absurd takes (not_takesForObject_of_unknown unknown)
  · rintro ⟨first, second, one, other, result⟩
    have given := @Store.binaryApplication_of_builtins _ operator (.type (.cls id)) _ _ _ one other
    have instead := @Store.binaryApplication_of_builtins _ operator
      (.type (Store.builtinType .noneType)) _ _ _ nothing other
    rw [OperationResult.of_none_left] at instead
    have builtin := (rules one other).mpr (result.imp (fun made => made) .inr)
    refine .of_gives given builtin ?_ instead builtin.ne_unknown
    rw [one]
    exact Option.isSome_of_eq_some nothing

omit registered in
/-- If the method of the left operand is called, a class on the right makes a difference only for a
type parameter. -/
theorem passesRight_of_takesForObject (settled : progress.store.NoOverloadIs .pending) {depth : Nat}
    {operator : BinaryOperator} {left : Value} (known : left.isUnknown = false)
    (mixed : progress.store.builtin? (progress.store.typeOf left) = none ∨
      progress.store.builtin? (.cls id) = none)
    (takes : TakesForObject (Engine.atDepth (depth + 1)) environment span progress
      (fun id => progress.store.binaryApplication operator left (.type (.cls id))) id) :
    progress.store.PassesRight operator left id := by
  have byMethod (other : ClassId) (alike : (progress.store.builtin? (.cls other)).isSome =
      (progress.store.builtin? (.cls id)).isSome) :
      progress.store.binaryApplication operator left (.type (.cls other)) =
        progress.store.methodApplication operator left (.type (.cls other)) := by
    refine Store.binaryApplication_of_other known rfl (mixed.imp_right fun missing => ?_)
    rw [missing, Option.isSome_none, Option.isSome_eq_false_iff, Option.isNone_iff_eq_none] at alike
    exact alike
  rcases progress.store.methodApplication_cases operator left with
    ⟨isObject, method, called⟩ | nothing
  · have here := (byMethod id rfl).trans (called _)
    rcases takes with ⟨value, after, ran, -, other, alike, differs⟩ | ⟨_, _, byClass⟩
    · have there := (byMethod other alike).trans (called _)
      by_contra passes
      refine differs after (Eq.trans ?_ ran)
      simp only [here, there, Application.run]
      refine Engine.callFunction_congr settled fun overload head => ?_
      refine callBindings_of_untyped (fun parameter listed => ?_) left _ _ span
      by_contra typed
      exact passes ⟨method, overload, here, head, parameter, listed,
        Option.isSome_iff_ne_none.mpr typed⟩
    · cases here.symm.trans byClass
      cases isObject
  · exact absurd takes (not_takesForObject_of_unknown ((byMethod id rfl).trans (nothing _)))

/-- A class on the right is taken for an object by the rules, unless a text is formatted with it,
and otherwise only by a method that declares a type parameter for an argument. -/
theorem takesForObject_right (settled : progress.store.NoOverloadIs .pending) {depth : Nat}
    {operator : BinaryOperator} {left : Value} :
    (progress.store.RightRules operator left id →
      TakesForObject (Engine.atDepth (depth + 1)) environment span progress
        (fun id => progress.store.binaryApplication operator left (.type (.cls id))) id) ∧
    (TakesForObject (Engine.atDepth (depth + 1)) environment span progress
        (fun id => progress.store.binaryApplication operator left (.type (.cls id))) id →
      progress.store.RightRules operator left id ∨
        progress.store.PassesRight operator left id) := by
  have nothing := Store.knowsBuiltins_standard.of_keepsShapes registered .noneType
  have rules {first second : Builtin}
      (one : progress.store.builtin? (progress.store.typeOf left) = some first)
      (other : progress.store.builtin? (.cls id) = some second) :=
    @Store.isBuiltinObject_resultOf _ operator left (.type (.cls id)) registered first second one
      other
  constructor
  · rintro ⟨first, second, one, other, result⟩
    have given := @Store.binaryApplication_of_builtins _ operator _ (.type (.cls id)) _ _ one other
    have instead := @Store.binaryApplication_of_builtins _ operator _
      (.type (Store.builtinType .noneType)) _ _ one nothing
    have builtin := (rules one other).mpr (result.imp And.left .inl)
    have unformatted : ¬(operator = .modulo ∧ first.isTextual = true) := by
      rcases result with ⟨-, apart⟩ | ⟨kept, -⟩
      · exact apart
      · rintro ⟨rfl, textual⟩
        rw [OperationResult.of_formatted textual] at kept
        cases kept
    rw [OperationResult.of_none_right unformatted] at instead
    refine .of_gives given builtin ?_ instead builtin.ne_unknown
    rw [other]
    exact Option.isSome_of_eq_some nothing
  · intro takes
    cases unknown : left.isUnknown with
    | true =>
      have given : progress.store.binaryApplication operator left (.type (.cls id)) =
          .gives .unknown := if_pos (by rw [unknown, Bool.true_or])
      exact absurd takes (not_takesForObject_of_unknown given)
    | false =>
      by_cases mixed : progress.store.builtin? (progress.store.typeOf left) = none ∨
          progress.store.builtin? (.cls id) = none
      · exact .inr (passesRight_of_takesForObject settled unknown mixed takes)
      · rw [not_or] at mixed
        obtain ⟨first, one⟩ := Option.ne_none_iff_exists'.mp mixed.1
        obtain ⟨second, other⟩ := Option.ne_none_iff_exists'.mp mixed.2
        have given := @Store.binaryApplication_of_builtins _ operator _ (.type (.cls id)) _ _ one
          other
        obtain ⟨builtin, another, alike, differs⟩ := takes.gives given
        refine .inl ⟨first, second, one, other, ?_⟩
        rcases (rules one other).mp builtin with made | kept | ⟨-, impossible⟩
        · refine .inl ⟨made, ?_⟩
          rintro ⟨rfl, textual⟩
          -- Whatever the other class is, the text is formatted with it.
          rw [other, Option.isSome_some, Option.isSome_iff_exists] at alike
          obtain ⟨third, natureOf⟩ := alike
          refine differs ((@Store.binaryApplication_of_builtins _ .modulo _ (.type (.cls another)) _
            _ one natureOf).trans ?_)
          rw [OperationResult.of_formatted textual, OperationResult.of_formatted textual]
          rfl
        · exact .inr kept
        · cases impossible

/-- A class before which an operator stands is taken for an object if it is one of numbers to which
the operator applies, or none of numbers and has a method for it. -/
theorem takesForObject_unary_iff {operator : UnaryOperator} :
    TakesForObject engine environment span progress
        (fun id => progress.store.unaryApplication operator id) id ↔
      progress.store.IsNumberFor operator id ∨ progress.store.HasUnaryMethod operator id := by
  have knows := Store.knowsBuiltins_standard.of_keepsShapes registered
  constructor
  · intro takes
    by_cases number : ∃ nature, progress.store.builtin? (.cls id) = some nature ∧
        nature.isNumeric = true
    · obtain ⟨nature, known, numeric⟩ := number
      refine .inl ⟨nature, known, numeric, fun inverts => ?_⟩
      by_contra real
      have given := (Store.unaryApplication_of_number known numeric).trans
        (congrArg Application.gives (if_pos ⟨inverts, Bool.eq_false_iff.mpr real⟩))
      exact not_takesForObject_of_unknown given takes
    · have other (nature : Builtin) (known : progress.store.builtin? (.cls id) = some nature) :
          nature.isNumeric = false :=
        Bool.eq_false_iff.mpr fun numeric => number ⟨nature, known, numeric⟩
      refine .inr ⟨other, ?_⟩
      have asked := @Store.unaryApplication_of_other _ _ operator other
      cases found : operator.method?.bind (progress.store.method? id) with
      | none =>
        rw [found] at asked
        exact absurd takes (not_takesForObject_of_unknown asked)
      | some method =>
        obtain ⟨name, named, defined⟩ := Option.bind_eq_some_iff.mp found
        exact ⟨name, method, named, defined⟩
  · rintro (⟨nature, known, numeric, applies⟩ | ⟨other, name, method, named, defined⟩)
    · have plain {number : Builtin} (proper : number.isNumeric = true) :
          progress.store.builtinObject number.signed =
            .object (Store.builtinType number.signed) .plain :=
        Store.builtinObject_eq registered (.inl (Builtin.isNumeric_signed proper))
      have given := (Store.unaryApplication_of_number known numeric).trans
        (congrArg Application.gives (if_neg fun beyond => Bool.false_ne_true
          (beyond.2.symm.trans (applies beyond.1))))
      have builtin : progress.store.IsBuiltinObject
          (progress.store.builtinObject nature.signed) :=
        ⟨_, _, _, plain numeric, knows _, .inl (Builtin.isNumeric_signed numeric)⟩
      obtain ⟨another, proper, apart⟩ : ∃ another : Builtin, another.isNumeric = true ∧
          Store.builtinClass another.signed ≠ Store.builtinClass nature.signed := by
        cases nature with
        | bool | int => exact ⟨.float, rfl, by decide⟩
        | float | complex => exact ⟨.int, rfl, by decide⟩
        | _ => cases numeric
      refine .of_gives given builtin ?_
        (Store.unaryApplication_of_number (knows another) proper) ?_
      · rw [known]
        exact Option.isSome_of_eq_some (knows another)
      · split
        · exact builtin.ne_unknown
        · rw [plain proper, plain numeric]
          exact fun same => apart (Ty.cls.inj (Value.object.inj same).1)
    · refine .inr ⟨method, [], (Store.unaryApplication_of_other other).trans ?_⟩
      rw [named, Option.bind_some, defined]
      rfl

end Taking

namespace Engine

/-- What evaluation leaves is settled if the state before it was. -/
theorem settled_of_evaluate {depth : Nat} {reach : Reach} {expression : Expression}
    {environment : Environment} {before after : Progress} {value : Value}
    (settled : before.store.NoOverloadIs .pending)
    (evaluated : (atDepth depth).evaluate reach expression environment before = .ok value after) :
    after.store.NoOverloadIs .pending :=
  after_of_ok evaluated ▸ evaluate_staysSettled depth reach expression environment before settled

/-- Which classes operators take for objects. Where no overload is pending and the registered
classes have their shapes, an operator whose operands have values gives what it comes to between
these: a value, or the call of a method.

A class that is the left operand is taken for an object exactly if the rules for builtin operands
make a number or a text out of it and the right one, or keep the right one, a list or a tuple. A
class that is the right operand is so if they make a number or a text, and not only because a text
is formatted with it, or keep the left one, a list or a tuple; and besides only if a method of the
left operand declares a type parameter for an argument, which is then bound to the class. A class
that is the only operand is so exactly if it is one of numbers to which the operator applies, or
none of numbers and has the method of the operator.

Proof: the rules look at types only, and give nothing for the class of the none object, except that
texts are formatted with it. A method of the left operand gets that as its receiver, and depends on
what the right one is only by what this shows about type parameters; a method of the only operand
gets the class. -/
theorem operators_take_classes_iff (depth : Nat) (reach : Reach) (environment : Environment)
    {before : Progress} (registered : Registry.standard.store.KeepsShapes before.store)
    (settled : before.store.NoOverloadIs .pending) :
    let engine := atDepth (depth + 1)
    (∀ operator : BinaryOperator, operator.isLogical = false → operator.isComparison = false →
      ∀ {left right : Expression} {first second : Value} {between after : Progress},
        engine.evaluate reach left environment before = .ok first between →
        engine.evaluate reach right environment between = .ok second after → ∀ span,
          engine.evaluate reach (.binary left operator right span) environment before =
            (after.store.binaryApplication operator first second).run engine span environment
              after ∧
          (∀ id, first = .type (.cls id) →
            (TakesForObject engine environment span after
                (fun id => after.store.binaryApplication operator (.type (.cls id)) second) id ↔
              after.store.LeftRules operator id second)) ∧
          ∀ id, second = .type (.cls id) →
            (after.store.RightRules operator first id →
              TakesForObject engine environment span after
                (fun id => after.store.binaryApplication operator first (.type (.cls id))) id) ∧
            (TakesForObject engine environment span after
                (fun id => after.store.binaryApplication operator first (.type (.cls id))) id →
              after.store.RightRules operator first id ∨
                after.store.PassesRight operator first id)) ∧
    ∀ operator : UnaryOperator, operator ≠ .not →
      ∀ {operand : Expression} {id : ClassId} {after : Progress},
        engine.evaluate reach operand environment before = .ok (.type (.cls id)) after → ∀ span,
          engine.evaluate reach (.unary operator operand span) environment before =
            (after.store.unaryApplication operator id).run engine span environment after ∧
          (TakesForObject engine environment span after
              (fun id => after.store.unaryApplication operator id) id ↔
            after.store.IsNumberFor operator id ∨ after.store.HasUnaryMethod operator id) := by
  have follows := atDepth_shaping (depth + 1)
  have keeps {expression : Expression} {value : Value} {start last : Progress}
      (registered : Registry.standard.store.KeepsShapes start.store)
      (evaluated : (atDepth (depth + 1)).evaluate reach expression environment start =
        .ok value last) : Registry.standard.store.KeepsShapes last.store :=
    registered.trans ((evaluate_keeps follows reach expression).shaping.of_ok evaluated).keeps
  refine ⟨fun operator logical comparison => ?_, fun operator arithmetic => ?_⟩
  · intro left right first second between after one other span
    have settledAfter := settled_of_evaluate (settled_of_evaluate settled one) other
    have registeredAfter := keeps (keeps registered one) other
    refine ⟨?_, fun id _ => takesForObject_left_iff registeredAfter,
      fun id _ => takesForObject_right registeredAfter settledAfter⟩
    rw [evaluate, bind_of_ok one, bind_of_ok other]
    exact applyBinary_eq_run settledAfter logical comparison first second span
  · intro operand id after given span
    refine ⟨?_, takesForObject_unary_iff (keeps registered given)⟩
    rw [evaluate, bind_of_ok given]
    exact applyUnary_eq_run arithmetic id span

end Engine

namespace Analyzer

/-- The sum of a class and one. -/
def plusOne (name : String) : Expression :=
  .binary (.ofName name) .add (.constant (.int 1) .unknown) .unknown

/-- What the sum of a class and one comes to. -/
def plusOneOf (id : ClassId) : Application :=
  Registry.start.store.binaryApplication .add (.type (.cls id)) (Store.constantObject (.int 1))

theorem plusOneOf_builtin (nature : Builtin) : plusOneOf (Store.builtinClass nature) =
    .gives (Registry.start.store.resultOf (.type (Store.builtinType nature))
      (Store.constantObject (.int 1)) (OperationResult.of nature .add .int)) :=
  Store.binaryApplication_of_builtins (Store.knowsBuiltins_standard nature)
    (Store.knowsBuiltins_standard .int)

/-- The class of all objects is not taken for one of these. -/
theorem operators_take_classes_object :
    Registry.standard.store.KeepsShapes Registry.start.store ∧
      Registry.start.store.NoOverloadIs .pending ∧
      Engine.standard.evaluate .everything (.ofName "object") Registry.environment
        Registry.start = .ok (.type (Store.builtinType .object)) Registry.start ∧
      Engine.standard.evaluate .everything (plusOne "object") Registry.environment Registry.start =
        .ok .unknown Registry.start ∧
      ¬TakesForObject Engine.standard Registry.environment .unknown Registry.start plusOneOf
        (Store.builtinClass .object) := by
  have registered : Registry.standard.store.KeepsShapes Registry.start.store := .refl _
  have settled : Registry.start.store.NoOverloadIs .pending := by decide +kernel
  have named : Engine.standard.evaluate .everything (.ofName "object") Registry.environment
      Registry.start = .ok (.type (Store.builtinType .object)) Registry.start := rfl
  have counted : Engine.standard.evaluate .everything (.constant (.int 1) .unknown)
      Registry.environment Registry.start =
        .ok (Store.constantObject (.int 1)) Registry.start := rfl
  obtain ⟨returned, takes, -⟩ := (Engine.operators_take_classes_iff (Engine.depthLimit - 1)
    .everything Registry.environment registered settled).1 .add rfl rfl named counted .unknown
  refine ⟨registered, settled, named, returned.trans ?_, fun taken => ?_⟩
  · exact congrArg (fun application : Application =>
      application.run Engine.standard .unknown Registry.environment Registry.start)
      (plusOneOf_builtin .object)
  · obtain ⟨first, second, one, other, result⟩ := (takes _ rfl).mp taken
    cases (Store.knowsBuiltins_standard .object).symm.trans one
    cases (Store.knowsBuiltins_standard .int).symm.trans other
    rcases result with ⟨_, impossible⟩ | ⟨impossible, -⟩ <;> cases impossible

/-- The class of integers is taken for one of these where one is added to it, although the class is
no metaclass: another class does not give an integer. -/
theorem class_taken_for_object :
    Registry.start.store.NoOverloadIs .pending ∧
      Registry.start.store.isMetaclass (Store.builtinClass .int) = false ∧
      Engine.standard.evaluate .everything (.ofName "int") Registry.environment Registry.start =
        .ok (.type (Store.builtinType .int)) Registry.start ∧
      Engine.standard.evaluate .everything (plusOne "int") Registry.environment Registry.start =
        .ok (.object (Store.builtinType .int) .plain) Registry.start ∧
      TakesForObject Engine.standard Registry.environment .unknown Registry.start plusOneOf
        (Store.builtinClass .int) := by
  have settled : Registry.start.store.NoOverloadIs .pending := by decide +kernel
  have named : Engine.standard.evaluate .everything (.ofName "int") Registry.environment
      Registry.start = .ok (.type (Store.builtinType .int)) Registry.start := rfl
  have counted : Engine.standard.evaluate .everything (.constant (.int 1) .unknown)
      Registry.environment Registry.start =
        .ok (Store.constantObject (.int 1)) Registry.start := rfl
  have registered : Registry.standard.store.KeepsShapes Registry.start.store := .refl _
  have integers : Registry.start.store.builtin?
      (Registry.start.store.typeOf (Store.constantObject (.int 1))) = some .int :=
    Store.knowsBuiltins_standard .int
  have given : plusOneOf (Store.builtinClass .int) =
      .gives (.object (Store.builtinType .int) .plain) :=
    (plusOneOf_builtin .int).trans
      (congrArg Application.gives (Store.builtinObject_eq registered (.inl rfl)))
  refine ⟨settled, by decide +kernel, named, ?_, ?_⟩
  · rw [plusOne, Engine.evaluate, bind_of_ok named, bind_of_ok counted]
    refine (@Engine.applyBinary_eq_run Registry.environment Registry.start (Engine.depthLimit - 1)
      settled .add rfl rfl _ _ .unknown).trans ?_
    exact congrArg (fun application : Application =>
      application.run Engine.standard .unknown Registry.environment Registry.start) given
  · exact (takesForObject_left_iff registered).mpr ⟨.int, .int,
      Store.knowsBuiltins_standard .int, integers, .inl ⟨.int, rfl⟩⟩

end Analyzer

end TypeInference
