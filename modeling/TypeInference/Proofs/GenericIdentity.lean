import TypeInference.Proofs.Lockstep
import TypeInference.Proofs.Receivers

/-!
# Functions that are declared as identities

A function of one parameter whose type is a type parameter, and that returns an object of this type
parameter, is the identity as far as its declaration goes. When it is called, the type parameter is
bound to the type of the argument, and this is the same type for a class and for an object of the
class. What comes back is an object of that type. So an object comes back as an object of its class,
but a class comes back as an object of it. It is the other way round only for classes whose objects
are types themselves.
-/

namespace TypeInference

open Analysis

/-- An overload that is declared as the identity on a type parameter: it has one parameter, which is
of this type, and returns an object of it. -/
structure Overload.IsIdentity (overload : Overload) (formal : FormalParameter)
    (parameter : TypeParameter) : Prop where
  single : overload.parameters = [formal]
  normal : formal.kind = .normal
  declared : formal.declaredType = .parameter parameter
  returns : ∃ target content,
    overload.declaredReturn = some (.object (.parameter target) content) ∧
      target.hash = parameter.hash

/-- Whether an overload is declared as an identity. -/
def Overload.isIdentity (overload : Overload) : Bool :=
  match overload.parameters, overload.declaredReturn with
  | [formal], some (.object (.parameter target) _) =>
    match formal.declaredType with
    | .parameter parameter => formal.kind = .normal && target.hash = parameter.hash
    | _ => false
  | _, _ => false

theorem Overload.exists_of_isIdentity {overload : Overload}
    (identity : overload.isIdentity = true) :
    ∃ formal parameter, overload.IsIdentity formal parameter := by
  unfold isIdentity at identity
  split at identity
  · next formal target content single returns =>
    split at identity
    · next parameter declared =>
      obtain ⟨normal, same⟩ := Bool.and_eq_true_iff.mp identity
      exact ⟨formal, parameter, single, of_decide_eq_true normal, declared,
        target, content, returns, of_decide_eq_true same⟩
    · cases identity
  · cases identity

namespace Value

/-- The class itself, or an object of it. -/
def IsOfClass (value : Value) (id : ClassId) : Prop :=
  value = .type (.cls id) ∨ ∃ content, value = .object (.cls id) content

theorem IsOfClass.typeOf {value : Value} {id : ClassId} (ofClass : value.IsOfClass id)
    (store : Store) : store.typeOf value = .cls id := by
  rcases ofClass with rfl | ⟨content, rfl⟩ <;> rw [Store.typeOf]

end Value

namespace Store

/-- A value of the same kind as another one, with an equal type. -/
def IsAlike (store : Store) (first second : Value) : Prop :=
  first.kind = second.kind ∧ store.sameType (store.typeOf first) (store.typeOf second) = true

/-- A class whose objects are a type of the identity that the class has itself. -/
def DenotesItself (store : Store) (id : ClassId) : Prop :=
  (store.classAt id).flags.typeOfType = true ∧
    ∃ ty, (store.classAt id).parameters.types.head? = some ty ∧ ty.isUnknown = false ∧
      ty.asParameter? = none ∧ store.sameType ty (.cls id) = true

variable {store : Store} {id : ClassId} {value : Value}

/-- An object of a class that is no class of types is alike to the objects of this class. -/
theorem isAlike_newObject_iff (ofClass : value.IsOfClass id)
    (plain : (store.classAt id).flags.typeOfType = false) :
    store.IsAlike (store.eraseParameters (store.newObject id)) value ↔ value.isObject = true := by
  obtain ⟨content, made⟩ : ∃ content, store.newObject id = .object (.cls id) content := by
    unfold newObject
    dsimp only
    rw [plain]
    exact ⟨_, rfl⟩
  have erased : store.eraseParameters (.object (.cls id) content) = .object (.cls id) content := by
    simp [eraseParameters]
  have same : store.sameType (.cls id) (.cls id) = true := decide_eq_true rfl
  rw [made, erased, IsAlike, ofClass.typeOf, typeOf]
  rcases ofClass with rfl | ⟨own, rfl⟩
  · simp [Value.kind, Value.isObject]
  · simp [Value.kind, Value.isObject, same]

/-- An object of a class of types is alike to nothing but this class, if it is a type of the same
identity. -/
theorem isAlike_newObject_iff_of_types (ofClass : value.IsOfClass id)
    (ofTypes : (store.classAt id).flags.typeOfType = true) :
    store.IsAlike (store.eraseParameters (store.newObject id)) value ↔
      value.isType = true ∧ store.DenotesItself id := by
  have made : store.newObject id =
      ((store.classAt id).parameters.types.head?.map Value.ofType).getD .unknown := by
    unfold newObject
    dsimp only
    rw [ofTypes]
    rfl
  have unlike : ¬store.IsAlike .unknown value := by
    rintro ⟨kind, -⟩
    rcases ofClass with rfl | ⟨content, rfl⟩ <;> cases kind
  have isType : ValueKind.type = value.kind ↔ value.isType = true := by
    rcases ofClass with rfl | ⟨content, rfl⟩ <;> simp [Value.kind, Value.isType]
  rw [DenotesItself]
  cases types : (store.classAt id).parameters.types.head? with
  | none =>
    have erased : store.eraseParameters (store.newObject id) = .unknown := by
      simp [made, types, eraseParameters]
    rw [erased]
    refine iff_of_false unlike ?_
    rintro ⟨-, -, ty, found, -⟩
    cases found
  | some ty =>
    by_cases denotes : ty.isUnknown = false ∧ ty.asParameter? = none
    · have erased : store.eraseParameters (store.newObject id) = .type ty := by
        rw [made, types]
        cases ty with
        | unknown => cases denotes.1
        | parameter _ => cases denotes.2
        | cls _ | function _ | marker _ => simp [Value.ofType, eraseParameters]
      rw [erased, IsAlike, ofClass.typeOf, typeOf]
      constructor
      · rintro ⟨kind, same⟩
        exact ⟨isType.mp kind, ofTypes, ty, rfl, denotes.1, denotes.2, same⟩
      · rintro ⟨kind, -, _, found, -, -, same⟩
        cases found
        exact ⟨isType.mpr kind, same⟩
    · have erased : store.eraseParameters (store.newObject id) = .unknown := by
        rw [made, types]
        cases ty with
        | unknown | parameter _ => simp [Value.ofType, eraseParameters]
        | cls _ | function _ | marker _ => exact absurd ⟨rfl, rfl⟩ denotes
      rw [erased]
      refine iff_of_false unlike ?_
      rintro ⟨-, -, _, found, known, proper, -⟩
      cases found
      exact denotes ⟨known, proper⟩

end Store

namespace Engine

variable {engine : Engine} {environment : Environment} {before : Progress} {function : FunctionId}
  {overload : Overload} {formal : FormalParameter} {parameter : TypeParameter} {value : Value}
  {id : ClassId} {positional : List Value} {keywords : List (String × Value)} {left : Supply}

/-- The type parameter of an identity is bound to the type of what its parameter takes. What else is
given shows nothing. -/
theorem callBindings_of_identity (store : Store) (identity : overload.IsIdentity formal parameter)
    (ofClass : value.IsOfClass id)
    (taken : Supply.takeNormal ⟨positional, keywords⟩ formal.name = (some value, left))
    (span : Span) :
    callBindings store overload none positional keywords span =
      Bindings.empty.bind parameter (.cls id) := by
  have nothing (surplus : List Argument) (unbound : ∀ argument ∈ surplus,
      argument.declaredType = .unknown) (bindings : Bindings) :
      surplus.foldl (bindDeclared store) bindings = bindings := by
    induction surplus generalizing bindings with
    | nil => rfl
    | cons argument rest inductionHypothesis =>
      obtain ⟨here, others⟩ := List.forall_mem_cons.mp unbound
      rw [List.foldl_cons, inductionHypothesis others, bindDeclared, here]
  have unbound : ∀ argument ∈ left.surplus, argument.declaredType = .unknown := by
    intro argument listed
    rcases List.mem_append.mp listed with placed | named
    · obtain ⟨_, -, rfl⟩ := List.mem_map.mp placed
      rfl
    · obtain ⟨_, -, rfl⟩ := List.mem_map.mp named
      rfl
  have arguments : (Arguments.forCall overload.parameters none positional keywords span).list =
      .bound formal value :: left.surplus := by
    rw [identity.single]
    simp [Arguments.forCall, Supply.bindAll, Supply.bind, identity.normal, taken,
      Supply.boundOrDefault]
  rw [callBindings, arguments, List.foldl_cons, nothing _ unbound, bindDeclared]
  simp only [Argument.bound, identity.declared, ofClass.typeOf]
  rfl

/-- An object of a parameter that is bound to a class becomes an object of the class. -/
theorem substitute_of_class {bindings : Bindings} {target : TypeParameter} (content : Content)
    (resolved : bindings.resolve? target = some (.cls id)) :
    engine.substitute bindings (.object (.parameter target) content) environment before =
      .ok (before.store.newObject id) before := by
  simp only [substitute, resolved, bind_apply, store_apply, pure_apply]

/-- An evaluated identity gives an object of the class that its argument is, or is an object of. -/
theorem callFunction_of_identity
    (evaluated : engine.evaluateFunction function environment before = .ok () before)
    (first : (before.store.functionAt function).overloads.head? = some overload)
    (identity : overload.IsIdentity formal parameter) (ofClass : value.IsOfClass id)
    (taken : Supply.takeNormal ⟨positional, keywords⟩ formal.name = (some value, left))
    (span : Span) :
    engine.callFunction function none positional keywords span environment before =
      .ok (before.store.eraseParameters (before.store.newObject id)) before := by
  obtain ⟨target, content, returns, same⟩ := identity.returns
  have returned : before.store.returnValue overload = .object (.parameter target) content := by
    simp [Store.returnValue, returns]
  have bound := callBindings_of_identity before.store identity ofClass taken span
  have known : (callBindings before.store overload none positional keywords span).isEmpty =
      false := by
    rw [bound]
    rfl
  have resolved : (callBindings before.store overload none positional keywords span).resolve?
      target = some (.cls id) := by
    rw [bound]
    refine Bindings.resolve?_of_class ?_
    rw [Bindings.find?_bind, if_pos same.symm]
  rw [callFunction, bind_of_ok evaluated, bind_apply, store_apply]
  dsimp only
  rw [first]
  dsimp only
  rw [known, returned, if_neg Bool.false_ne_true]
  exact bind_of_ok (substitute_of_class content resolved) _

/-- An identity gives back what it is called with if this is an object, and nothing else. Let an
evaluated function be declared as an identity, and let its parameter take a class or an object of a
class, by place, by its name or together with more than the function takes. The call gives a value
and changes nothing. The value has the kind and the type of the argument if and only if the argument
is an object of a class that is no class of types, or is itself a class whose objects are types of
its own identity. -/
theorem identity_isAlike_iff (depth : Nat) (environment : Environment)
    (evaluated : before.store.IsEvaluated function)
    (first : (before.store.functionAt function).overloads.head? = some overload)
    (identity : overload.IsIdentity formal parameter) (ofClass : value.IsOfClass id)
    (taken : Supply.takeNormal ⟨positional, keywords⟩ formal.name = (some value, left))
    (span : Span) :
    ∃ result, (Engine.atDepth (depth + 1)).callFunction function none positional keywords span
        environment before = .ok result before ∧
      (before.store.IsAlike result value ↔
        value.isObject = true ∧ (before.store.classAt id).flags.typeOfType = false ∨
          value.isType = true ∧ before.store.DenotesItself id) := by
  have nothing : (Engine.atDepth (depth + 1)).evaluateFunction function environment before =
      .ok () before :=
    evaluateDefinition_of_none environment fun place inside pending => by
      rw [(before.store.isEvaluated_iff function).mp evaluated place inside] at pending
      cases pending
  refine ⟨_, callFunction_of_identity nothing first identity ofClass taken span, ?_⟩
  cases ofTypes : (before.store.classAt id).flags.typeOfType with
  | true =>
    rw [Store.isAlike_newObject_iff_of_types ofClass ofTypes]
    exact ⟨.inr, fun holds => holds.resolve_left fun plain => nomatch plain.2⟩
  | false =>
    rw [Store.isAlike_newObject_iff ofClass ofTypes]
    refine ⟨fun isObject => .inl ⟨isObject, rfl⟩, fun holds => ?_⟩
    rcases holds with plain | ⟨-, denotes⟩
    · exact plain.1
    · rw [Store.DenotesItself, ofTypes] at denotes
      cases denotes.1

end Engine

namespace Analyzer

/-- A module with a function that is declared as the identity, and is. -/
def identityModule : Module :=
  ⟨[.typeVariable "T",
    .function ⟨⟨1⟩, .ofName "f", [{ name := .ofName "x", typeHint := some (.ofName "T") }],
      some (.ofName "T"), [.returning "x"], [], .unknown⟩]⟩

/-- The progress of a fresh analyzer after that module. -/
def identityDeclared : Progress :=
  (Analysis.ofModule identityModule).after Registry.environment Registry.start

/-- The function of the module. -/
def identityFunction : FunctionId :=
  ⟨Registry.standard.store.functions.size⟩

/-- A call of the function. -/
def identityOf (value : Value) : Analysis Value :=
  (Engine.atDepth 1).callFunction identityFunction none [value] [] .unknown

/-- The kind of what a call gives, and the class that is its type. -/
def identityKind (value : Value) : Analysis (ValueKind × Option ClassId) := do
  let result ← identityOf value
  return (result.kind, ((← Analysis.store).typeOf result).asClass?)

/-- Called with an integer, the function gives an integer. -/
theorem identity_isAlike_integer :
    let one := Store.constantObject (.int 1)
    identityDeclared.store.IsEvaluated identityFunction ∧
      ∃ result, identityOf one Registry.environment identityDeclared =
          .ok result identityDeclared ∧
        identityDeclared.store.IsAlike result one := by
  intro one
  have evaluated : identityDeclared.store.IsEvaluated identityFunction := by decide +kernel
  have declared : ((identityDeclared.store.functionAt identityFunction).overloads.head?.any
      Overload.isIdentity) = true := by decide +kernel
  obtain ⟨overload, first, identity⟩ := (Option.any_eq_true ..).mp declared
  obtain ⟨formal, parameter, identity⟩ := Overload.exists_of_isIdentity identity
  have taken : Supply.takeNormal ⟨[one], []⟩ formal.name = (some one, ⟨[], []⟩) := rfl
  obtain ⟨result, returned, alike⟩ := Engine.identity_isAlike_iff 0 Registry.environment evaluated
    first identity (.inr ⟨_, rfl⟩) taken .unknown
  exact ⟨evaluated, result, returned, alike.mpr (.inl ⟨rfl, by decide +kernel⟩)⟩

/-- Called with the class of integers, it does not give the class, but an object of it. -/
theorem identity_of_class :
    let integers : Value := .type (Store.builtinType .int)
    identityDeclared.store.IsEvaluated identityFunction ∧
      (identityDeclared.store.functionAt identityFunction).overloads.head?.any
        Overload.isIdentity = true ∧
      (identityKind integers).yields Registry.environment identityDeclared
        (.object, some (Store.builtinClass .int)) = true ∧
      integers.kind = .type := by
  decide +kernel

end Analyzer

end TypeInference
