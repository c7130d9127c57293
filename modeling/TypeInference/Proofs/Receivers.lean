import TypeInference.Analyzer
import TypeInference.Proofs.Operations
import TypeInference.Proofs.Phrases

/-!
# What a receiver tells about type parameters

A method is shared by all classes that inherit it, so an object of a type parameter that it
returns is an object of whatever the receiver says the parameter is. The classes in the
lineage of the receiver are asked in order, and the first one that binds a parameter of this
identity decides. Neither the content of the receiver nor an argument changes what a class
has decided.
-/

namespace TypeInference

namespace Bindings

/-- Whether an entry leaves its parameter open: the parameter is bound to itself. -/
def isOpenEntry (entry : TypeParameter × Ty) : Bool :=
  match entry.2 with
  | .parameter target => target.hash = entry.1.hash
  | _ => false

/-- The type of the first entry that binds a parameter and does not leave it open. -/
def firstBound? (parameter : TypeParameter) : List (TypeParameter × Ty) → Option Ty
  | [] => none
  | entry :: rest =>
    if entry.1.hash = parameter.hash && !isOpenEntry entry then some entry.2
    else firstBound? parameter rest

/-- The first type other than itself that a parameter is bound to. -/
def bound? (bindings : Bindings) (parameter : TypeParameter) : Option Ty :=
  firstBound? parameter bindings.entries

/-- A parameter that is bound to a class is resolved by it. -/
theorem resolve?_of_class {bindings : Bindings} {parameter : TypeParameter} {id : ClassId}
    (found : bindings.find? parameter = some (.cls id)) :
    bindings.resolve? parameter = some (.cls id) := by
  simp [resolve?, found]

theorem isUnresolved_of_class {bindings : Bindings} {parameter asked : TypeParameter}
    {id : ClassId} (found : bindings.find? parameter = some (.cls id))
    (same : asked.hash = parameter.hash) : bindings.isUnresolved asked = false := by
  have asked_found : bindings.find? asked = some (.cls id) := by
    rw [find?, same]
    exact found
  simp [isUnresolved, asked_found]

/-- A step that binds only what is unresolved keeps a parameter that is bound to a class. -/
theorem find?_bindUnresolved {bindings : Bindings} {parameter asked : TypeParameter}
    {id : ClassId} (found : bindings.find? parameter = some (.cls id)) (known : Bool) (ty : Ty) :
    (if known && bindings.isUnresolved asked then bindings.bind asked ty
      else bindings).find? parameter = some (.cls id) := by
  split
  · next chosen =>
    have unresolved : bindings.isUnresolved asked = true := (Bool.and_eq_true_iff.mp chosen).2
    have apart : asked.hash ≠ parameter.hash := by
      intro same
      rw [isUnresolved_of_class found same] at unresolved
      cases unresolved
    rw [find?_bind, if_neg apart]
    exact found
  · exact found

end Bindings

namespace Store

open Bindings

/-- What is merged entry by entry: an open entry and a known parameter change nothing. -/
def mergeEntry (merged : Bindings) (entry : TypeParameter × Ty) : Bindings :=
  if isOpenEntry entry || merged.contains entry.1 then merged else merged.bind entry.1 entry.2

theorem mergeResolved_eq_foldl (bindings additional : Bindings) :
    mergeResolved bindings additional = additional.entries.foldl mergeEntry bindings := by
  rfl

theorem find?_mergeEntry (merged : Bindings) (entry : TypeParameter × Ty)
    (parameter : TypeParameter) :
    (mergeEntry merged entry).find? parameter =
      (merged.find? parameter).or
        (if entry.1.hash = parameter.hash && !isOpenEntry entry then some entry.2 else none) := by
  unfold mergeEntry
  by_cases isOpen : isOpenEntry entry = true
  · simp [isOpen]
  · by_cases same : entry.1.hash = parameter.hash
    · have alike : merged.contains entry.1 = (merged.find? parameter).isSome := by
        rw [contains, Bindings.find?, Bindings.find?, same]
      cases found : merged.find? parameter with
      | none => simp [isOpen, alike, found, find?_bind, same]
      | some ty => simp [isOpen, alike, found]
    · by_cases there : merged.contains entry.1 = true
      · simp [there, same]
      · simp [isOpen, there, same, find?_bind]

/-- What is bound already stays; what is not is bound as the added bindings say first. -/
theorem find?_mergeResolved (bindings additional : Bindings) (parameter : TypeParameter) :
    (mergeResolved bindings additional).find? parameter =
      (bindings.find? parameter).or (additional.bound? parameter) := by
  have inEntries (entries : List (TypeParameter × Ty)) (merged : Bindings) :
      (entries.foldl mergeEntry merged).find? parameter =
        (merged.find? parameter).or (firstBound? parameter entries) := by
    induction entries generalizing merged with
    | nil => simp [firstBound?]
    | cons entry rest inductionHypothesis =>
      rw [List.foldl_cons, inductionHypothesis, find?_mergeEntry, firstBound?]
      cases merged.find? parameter with
      | some ty => simp
      | none =>
        by_cases decides : (entry.1.hash = parameter.hash && !isOpenEntry entry) = true
        · simp [decides]
        · simp [decides]
  rw [mergeResolved_eq_foldl]
  exact inEntries additional.entries bindings

/-- What a class in the lineage of another one binds a parameter to, the nearest first. -/
def boundAlong? (store : Store) (lineage : List ClassId) (parameter : TypeParameter) :
    Option Ty :=
  lineage.findSome? fun ancestor => (store.classAt ancestor).parameters.bound? parameter

/-- Merging the parameters of classes in order gives what the first of them binds. -/
theorem find?_foldl_mergeResolved (store : Store) (lineage : List ClassId) (bindings : Bindings)
    (parameter : TypeParameter) :
    ((lineage.map fun ancestor => (store.classAt ancestor).parameters).foldl mergeResolved
      bindings).find? parameter =
        (bindings.find? parameter).or (store.boundAlong? lineage parameter) := by
  induction lineage generalizing bindings with
  | nil => simp [boundAlong?]
  | cons nearest rest inductionHypothesis =>
    rw [List.map_cons, List.foldl_cons, inductionHypothesis, find?_mergeResolved]
    unfold boundAlong?
    rw [List.findSome?_cons]
    cases bindings.find? parameter with
    | some ty => rfl
    | none => cases (store.classAt nearest).parameters.bound? parameter <;> rfl

/-- A receiver tells of a parameter what the nearest class binds it to. -/
theorem find?_receiverBindings {store : Store} {id bound : ClassId} {parameter : TypeParameter}
    (decided : store.boundAlong? (store.lineage id) parameter = some (.cls bound))
    (receiver : Value) (ofClass : receiver = .type (.cls id) ∨
      ∃ content, receiver = .object (.cls id) content) :
    (store.receiverBindings receiver).find? parameter = some (.cls bound) := by
  have merged := store.find?_foldl_mergeResolved (store.lineage id) .empty parameter
  rw [decided] at merged
  have samples (pairs : List (TypeParameter × Value)) (bindings : Bindings)
      (found : bindings.find? parameter = some (.cls bound)) :
      (pairs.foldl (fun bindings sample =>
        if !sample.2.isUnknown && bindings.isUnresolved sample.1 then
          bindings.bind sample.1 (store.typeOf sample.2)
        else bindings) bindings).find? parameter = some (.cls bound) := by
    induction pairs generalizing bindings with
    | nil => exact found
    | cons sample rest inductionHypothesis =>
      exact inductionHypothesis _ (find?_bindUnresolved found _ _)
  rcases ofClass with rfl | ⟨content, rfl⟩
  · exact samples _ _ merged
  · exact samples _ _ merged

/-- Nothing in an object of a closed class stands for an open parameter. -/
theorem eraseParameters_newObject {store : Store} {id : ClassId}
    (closed : store.isGeneric id = false) :
    store.eraseParameters (store.newObject id) = store.newObject id := by
  unfold newObject
  dsimp only
  split
  · cases found : (store.classAt id).parameters.types with
    | nil => simp [eraseParameters]
    | cons ty rest =>
      have notParameter := asParameter?_of_not_isGeneric closed (found ▸ List.mem_cons_self)
      cases ty with
      | parameter parameter => cases notParameter
      | _ => simp [Value.ofType, eraseParameters]
  · simp [eraseParameters]

end Store

namespace Engine

open Analysis Store

variable {engine : Engine}

/-- An argument never changes what is bound to a class. -/
theorem find?_callBindings {store : Store} {id bound : ClassId} {parameter : TypeParameter}
    (decided : store.boundAlong? (store.lineage id) parameter = some (.cls bound))
    {receiver : Value} (ofClass : receiver = .type (.cls id) ∨
      ∃ content, receiver = .object (.cls id) content)
    (overload : Overload) (positional : List Value) (keywords : List (String × Value))
    (span : Span) :
    (callBindings store overload (some receiver) positional keywords span).find? parameter =
      some (.cls bound) := by
  have arguments (list : List Argument) (bindings : Bindings)
      (found : bindings.find? parameter = some (.cls bound)) :
      (list.foldl (bindDeclared store) bindings).find? parameter = some (.cls bound) := by
    induction list generalizing bindings with
    | nil => exact found
    | cons argument rest inductionHypothesis =>
      refine inductionHypothesis _ ?_
      unfold bindDeclared
      split
      · exact Bindings.find?_bindUnresolved found _ _
      · exact found
  exact arguments _ _ (find?_receiverBindings decided receiver ofClass)

/-- A called function whose declared return is an object of a type parameter gives an object
of the class that the nearest class of the receiver's lineage binds the parameter to. -/
theorem callFunction_returns_bound {function : FunctionId} {id bound : ClassId}
    {parameter : TypeParameter} {content : Content} {overload : Overload}
    {environment : Environment} {before after : Progress}
    (evaluated : engine.evaluateFunction function environment before = .ok () after)
    (first : (after.store.functionAt function).overloads.head? = some overload)
    (declared : overload.declaredReturn = some (.object (.parameter parameter) content))
    (decided : after.store.boundAlong? (after.store.lineage id) parameter = some (.cls bound))
    (closed : after.store.isGeneric bound = false) {receiver : Value}
    (ofClass : receiver = .type (.cls id) ∨ ∃ content, receiver = .object (.cls id) content)
    (positional : List Value) (keywords : List (String × Value)) (span : Span) :
    engine.callFunction function (some receiver) positional keywords span environment before =
      .ok (after.store.newObject bound) after := by
  have found := find?_callBindings decided ofClass overload positional keywords span
  have returned : after.store.returnValue overload = .object (.parameter parameter) content := by
    simp [Store.returnValue, declared]
  have bindingsKnown : (callBindings after.store overload (some receiver) positional keywords
      span).isEmpty = false := by
    cases empty : (callBindings after.store overload (some receiver) positional keywords
      span).entries with
    | nil =>
      rw [Bindings.find?, empty] at found
      cases found
    | cons entry rest => simp [Bindings.isEmpty, empty]
  rw [callFunction, bind_apply, evaluated]
  dsimp only
  rw [bind_apply, store_apply]
  dsimp only
  rw [first]
  dsimp only
  rw [bindingsKnown, returned, if_neg Bool.false_ne_true]
  simp only [substitute, Bindings.resolve?_of_class found, bind_apply, store_apply, pure_apply,
    eraseParameters_newObject closed]

/-- A method takes the object it was found on as its receiver, or the class of that. -/
theorem receiverFor_method {store : Store} {function : FunctionId} (id : ClassId)
    (isMethod : (store.functionAt function).isMethod = true)
    (notStatic : (store.functionAt function).flags.static = false) (content : Content) :
    ∃ receiver, receiverFor store function (.object (.cls id) content) = some receiver ∧
      (receiver = .type (.cls id) ∨ ∃ content, receiver = .object (.cls id) content) := by
  unfold receiverFor
  dsimp only
  rw [isMethod, notStatic]
  cases (store.functionAt function).flags.classMethod with
  | true => exact ⟨_, rfl, .inl rfl⟩
  | false => exact ⟨_, rfl, .inr ⟨content, rfl⟩⟩

end Engine

namespace Store

/-- A method that the objects of a class have, be it inherited, and that takes a receiver. -/
structure HasMethod (store : Store) (id : ClassId) (name : String) (function : FunctionId) :
    Prop where
  found : store.method? id name = some function
  isMethod : (store.functionAt function).isMethod = true
  notStatic : (store.functionAt function).flags.static = false
  notProperty : (store.functionAt function).flags.property = false
  notTypeVariable : Registry.isTypeVariable store function = false

instance (store : Store) (id : ClassId) (name : String) (function : FunctionId) :
    Decidable (store.HasMethod id name function) :=
  decidable_of_iff (store.method? id name = some function ∧
      (store.functionAt function).isMethod = true ∧
      (store.functionAt function).flags.static = false ∧
      (store.functionAt function).flags.property = false ∧
      Registry.isTypeVariable store function = false)
    ⟨fun ⟨found, isMethod, notStatic, notProperty, notTypeVariable⟩ =>
      ⟨found, isMethod, notStatic, notProperty, notTypeVariable⟩,
    fun ⟨found, isMethod, notStatic, notProperty, notTypeVariable⟩ =>
      ⟨found, isMethod, notStatic, notProperty, notTypeVariable⟩⟩

/-- A method is a function among the members. -/
theorem HasMethod.member {store : Store} {id : ClassId} {name : String} {function : FunctionId}
    (method : store.HasMethod id name function) :
    store.member? id name = some (.type (.function function)) := by
  obtain ⟨value, member, isFunction⟩ := Option.bind_eq_some_iff.mp method.found
  match value with
  | .type (.function _) =>
    cases isFunction
    exact member

/-- The type parameter of which a function is declared to return an object. -/
def returnedParameter? (store : Store) (function : FunctionId) : Option TypeParameter :=
  ((store.functionAt function).overloads.head?.bind (·.declaredReturn)).bind fun
    | .object ty _ => ty.asParameter?
    | _ => none

/-- The declared return of a function is an object of a type parameter of a given identity. -/
def ReturnsObjectOf (store : Store) (function : FunctionId) (parameter : TypeParameter) : Prop :=
  (store.returnedParameter? function).map TypeParameter.hash = some parameter.hash

instance (store : Store) (function : FunctionId) (parameter : TypeParameter) :
    Decidable (store.ReturnsObjectOf function parameter) :=
  inferInstanceAs (Decidable (_ = _))

theorem ReturnsObjectOf.declared {store : Store} {function : FunctionId}
    {parameter : TypeParameter} (returns : store.ReturnsObjectOf function parameter) :
    ∃ overload returned content, (store.functionAt function).overloads.head? = some overload ∧
      overload.declaredReturn = some (.object (.parameter returned) content) ∧
      returned.hash = parameter.hash := by
  obtain ⟨returned, named, same⟩ := Option.map_eq_some_iff.mp returns
  obtain ⟨value, given, isObject⟩ := Option.bind_eq_some_iff.mp named
  obtain ⟨overload, head, declared⟩ := Option.bind_eq_some_iff.mp given
  match value with
  | .object (.parameter _) content =>
    cases isObject
    exact ⟨overload, returned, content, head, declared, same⟩

/-- A class in the lineage of another one binds a parameter to a closed class, and no class
in front of it binds a parameter of this identity. -/
structure BindsFirst (store : Store) (id declaring : ClassId) (parameter : TypeParameter)
    (bound : ClassId) : Prop where
  inOrder : ∃ nearer farther, store.lineage id = nearer ++ declaring :: farther ∧
    ∀ other ∈ nearer, ((store.classAt other).parameters.bound? parameter).isNone
  binds : ((store.classAt declaring).parameters.bound? parameter).bind Ty.asClass? = some bound
  closed : store.isGeneric bound = false

/-- The nearest class decides for every parameter of the identity. -/
theorem BindsFirst.boundAlong? {store : Store} {id declaring bound : ClassId}
    {parameter asked : TypeParameter} (first : store.BindsFirst id declaring parameter bound)
    (same : asked.hash = parameter.hash) :
    store.boundAlong? (store.lineage id) asked = some (.cls bound) := by
  have alike (bindings : Bindings) : bindings.bound? asked = bindings.bound? parameter := by
    have inEntries (entries : List (TypeParameter × Ty)) :
        Bindings.firstBound? asked entries = Bindings.firstBound? parameter entries := by
      induction entries with
      | nil => rfl
      | cons entry rest inductionHypothesis =>
        rw [Bindings.firstBound?, Bindings.firstBound?, inductionHypothesis, same]
    exact inEntries bindings.entries
  obtain ⟨nearer, farther, order, silent⟩ := first.inOrder
  obtain ⟨ty, binds, isClass⟩ := Option.bind_eq_some_iff.mp first.binds
  have before : nearer.findSome? (fun ancestor =>
      (store.classAt ancestor).parameters.bound? asked) = none := by
    refine List.findSome?_eq_none_iff.mpr fun other listed => ?_
    rw [alike]
    exact Option.isNone_iff_eq_none.mp (silent other listed)
  rw [Store.boundAlong?, order, List.findSome?_append, before, List.findSome?_cons, alike, binds]
  match ty with
  | .cls _ =>
    cases isClass
    rfl

end Store

namespace Engine

open Analysis Store

variable {engine : Engine}

/-- A method that is called on an object, and whose declared return is an object of a type
parameter, gives an object of the class that the parameter is bound to in the class the
method is inherited from, whatever the arguments are, unless a class nearer to the object
binds a parameter of the same identity.

Proof: evaluating the constructor and the method leaves the state in which the call is
answered. There the nearest class decides what the receiver tells, and neither the content
of the receiver nor an argument is asked about a parameter that is decided. -/
theorem inherited_method_returns {environment : Environment}
    {before constructed after : Progress} {id declaring bound : ClassId} {name : String}
    {function : FunctionId} {parameter : TypeParameter} (notCell : name ≠ classCell)
    (prepared : engine.ensureConstructed id environment before = .ok () constructed)
    (method : constructed.store.HasMethod id name function)
    (evaluated : engine.evaluateFunction function environment constructed = .ok () after)
    (returns : after.store.ReturnsObjectOf function parameter)
    (first : after.store.BindsFirst id declaring parameter bound)
    (content : Content) (positional : List Value) (keywords : List (String × Value))
    (span : Span) :
    (do
      let callee ← engine.attributeOf name (.object (.cls id) content)
      engine.callValue (some (.object (.cls id) content)) positional keywords span callee)
      environment before = .ok (after.store.newObject bound) after := by
  obtain ⟨overload, returned, remembered, head, declared, same⟩ := returns.declared
  obtain ⟨receiver, received, ofClass⟩ :=
    receiverFor_method id method.isMethod method.notStatic content
  have found : engine.attributeOf name (.object (.cls id) content) environment before =
      .ok (.type (.function function)) constructed := by
    simp [attributeOf, notCell, bind_apply, prepared, method.member, Value.asFunction?,
      Value.asType?, Ty.asFunction?, method.notProperty]
  have called := callFunction_returns_bound evaluated head declared (first.boundAlong? same)
    first.closed ofClass positional keywords span
  rw [bind_apply, found]
  simp only [callValue, bind_apply, store_apply, method.notTypeVariable, Bool.false_eq_true,
    ↓reduceIte, Option.bind_some, received]
  exact called

end Engine

namespace Analyzer

open Store

/-- A generic class with a method that returns an object of its type parameter. -/
def sourceClass : Statement :=
  .defineClass 1 "Source" [.indexed "Generic" "T"] [.declaring 2 "next" "T"]

/-- The class above, and one without type parameters that is derived from it for integers. -/
def counterModule : Module :=
  ⟨[.typeVariable "T", sourceClass,
    .defineClass 3 "Counter" [.indexed "Source" "int"] [.pass .unknown]]⟩

/-- The class of a module that is declared second. -/
def derivedClass : ClassId :=
  ⟨Registry.standard.store.classes.size + 1⟩

/-- The specialization that is made for its base. -/
def sourceOfIntegers : ClassId :=
  ⟨Registry.standard.store.classes.size + 2⟩

/-- The method of the generic class. -/
def nextMethod : FunctionId :=
  ⟨Registry.standard.store.functions.size⟩

/-- The state in which the body of that module has been walked. -/
def counterProgress : Progress :=
  ((Engine.atDepth 3).walkBlock .module counterModule.body).after Registry.environment
    { Registry.start with scopes := (Scopes.empty.push .module .module none).2 }

/-- The state in which there is no constructor left to evaluate. -/
def constructedProgress : Progress :=
  ((Engine.atDepth 3).ensureConstructed derivedClass).after Registry.environment counterProgress

/-- The state in which the method is evaluated as well. -/
def evaluatedProgress : Progress :=
  ((Engine.atDepth 3).evaluateFunction nextMethod).after Registry.environment
    constructedProgress

/-- The method gives an integer, called on an object of the class derived for integers. -/
theorem inherited_method_returns_integer :
    "next" ≠ classCell ∧
      (Engine.atDepth 3).ensureConstructed derivedClass Registry.environment counterProgress =
        .ok () constructedProgress ∧
      constructedProgress.store.HasMethod derivedClass "next" nextMethod ∧
      (Engine.atDepth 3).evaluateFunction nextMethod Registry.environment constructedProgress =
        .ok () evaluatedProgress ∧
      evaluatedProgress.store.ReturnsObjectOf nextMethod (.named "T") ∧
      evaluatedProgress.store.BindsFirst derivedClass sourceOfIntegers (.named "T")
        (builtinClass .int) ∧
      (do
        let callee ← (Engine.atDepth 3).attributeOf "next" (.object (.cls derivedClass) .plain)
        (Engine.atDepth 3).callValue (some (.object (.cls derivedClass) .plain)) [] [] .unknown
          callee) Registry.environment counterProgress =
        .ok (evaluatedProgress.store.newObject (builtinClass .int)) evaluatedProgress := by
  have notCell : "next" ≠ classCell := by decide
  have prepared := Analysis.ok_of_yields (show ((Engine.atDepth 3).ensureConstructed
    derivedClass).yields Registry.environment counterProgress () = true by decide +kernel)
  have method : constructedProgress.store.HasMethod derivedClass "next" nextMethod :=
    by decide +kernel
  have evaluated := Analysis.ok_of_yields (show ((Engine.atDepth 3).evaluateFunction
    nextMethod).yields Registry.environment constructedProgress () = true by decide +kernel)
  have returns : evaluatedProgress.store.ReturnsObjectOf nextMethod (.named "T") := by
    decide +kernel
  have first : evaluatedProgress.store.BindsFirst derivedClass sourceOfIntegers (.named "T")
      (builtinClass .int) :=
    ⟨⟨[derivedClass], [builtinClass .object], by decide +kernel, by decide +kernel⟩,
      by decide +kernel, by decide +kernel⟩
  exact ⟨notCell, prepared, method, evaluated, returns, first,
    Engine.inherited_method_returns notCell prepared method evaluated returns first _ _ _ _⟩

/-- The first class again, and one derived from it for integers that has a type parameter of
the same name; the method is called on an object of its specialization for texts. -/
def tallyModule : Module :=
  ⟨[.typeVariable "T", sourceClass,
    .defineClass 3 "Tally" [.indexed "Source" "int", .indexed "Generic" "T"] [.pass .unknown],
    .annotated (.ofName "tally") (.indexed "Tally" "str") none .unknown,
    .define "counted" (.call (.attributeOf "tally" "next") [] .unknown)]⟩

/-- The specialization of the class declared second. -/
def derivedForTexts : ClassId :=
  ⟨Registry.standard.store.classes.size + 3⟩

/-- The class that a variable of an analyzed module is an object of. -/
def objectClass? (module : Module) (name : String) : Option ClassId :=
  match ((new {}).analyze module).1 with
  | .ok analysis => (analysis.value? name).bind fun
    | .object ty _ => ty.asClass?
    | _ => none
  | .error _ => none

/-- The method is inherited from the class for integers, in which its type parameter is bound
to integers, but the call gives a text, since the class of the object is asked first. -/
theorem inherited_method_returns_text :
    objectClass? tallyModule "tally" = some derivedForTexts ∧
      (storeAfter {} tallyModule).lineage derivedForTexts =
        [derivedForTexts, sourceOfIntegers, builtinClass .object] ∧
      ((storeAfter {} tallyModule).ownMember? derivedForTexts "next").isNone ∧
      ((storeAfter {} tallyModule).ownMember? sourceOfIntegers "next").bind Value.asFunction? =
        some nextMethod ∧
      (storeAfter {} tallyModule).HasMethod derivedForTexts "next" nextMethod ∧
      (storeAfter {} tallyModule).ReturnsObjectOf nextMethod (.named "T") ∧
      (((storeAfter {} tallyModule).classAt sourceOfIntegers).parameters.bound?
        (.named "T")).bind Ty.asClass? = some (builtinClass .int) ∧
      (storeAfter {} tallyModule).isGeneric (builtinClass .int) = false ∧
      objectClass? tallyModule "counted" = some (builtinClass .str) := by
  decide +kernel

end Analyzer

end TypeInference
