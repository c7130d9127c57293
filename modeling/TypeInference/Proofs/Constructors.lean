import TypeInference.Proofs.Operations
import TypeInference.Proofs.Phrases
import TypeInference.Proofs.Settling

/-!
# Which constructors are observed

Before attributes of a class are read its constructor is evaluated, so that what it sets
on its receiver is there. That is the constructor which the class, or the template it was
made from, has itself. A call of the class looks for a constructor along its order as
well; one that is inherited is not evaluated for the class, and attributes that only it
sets stay unknown until something else evaluates it.
-/

namespace TypeInference

namespace Store

/-- The constructor that a class or the template it was made from has itself. -/
def ownConstructor? (store : Store) (id : ClassId) : Option FunctionId :=
  (store.ownMember? (store.templateOf id) "__init__").bind Value.asFunction?

/-- The constructor that a call of a class finds: its own or an inherited one. -/
def constructor? (store : Store) (id : ClassId) : Option FunctionId :=
  store.method? id "__init__"

/-- A class that was made from no template finds its own constructor if it has one. -/
theorem constructor?_of_ownConstructor? {store : Store} {id : ClassId} {own : FunctionId}
    (original : (store.classAt id).template = none)
    (has : store.ownConstructor? id = some own) : store.constructor? id = some own := by
  obtain ⟨value, listed, function⟩ := Option.bind_eq_some_iff.mp has
  rw [templateOf, original] at listed
  unfold constructor? method? member? lineage
  rw [List.findSome?_cons, show store.ownMember? id "__init__" = some value from listed]
  exact function

end Store

namespace Engine

open Analysis

/-- Which constructors are observed. When the evaluation of the constructor of a declared
class has succeeded, while nothing was being evaluated, the constructor that the class
finds is evaluated exactly if the class or its template has it itself, or if it was
evaluated before. In a specialization it is supposed to be that of the template, if that
has one.

Proof: a constructor that the class has itself is evaluated with all its overloads, and
without one nothing is done. -/
theorem constructor_observed_iff {depth : Nat} {id : ClassId} {environment : Environment}
    {before after : Progress} (declared : (before.store.classAt id).flags.builtin = false)
    (idle : before.store.NoOverloadIs .evaluating)
    (returned : (Engine.atDepth depth).ensureConstructed id environment before = .ok () after) :
    ∀ constructor, before.store.constructor? id = some constructor →
      (before.store.functionAt constructor).node ≠ none →
      (∀ own, before.store.ownConstructor? id = some own → own = constructor) →
      (after.store.IsEvaluated constructor ↔
        before.store.ownConstructor? id = some constructor ∨
          before.store.IsEvaluated constructor) := by
  intro constructor _ defined alike
  unfold ensureConstructed at returned
  simp only [bind_apply, store_apply, declared, Bool.false_eq_true, if_false] at returned
  -- Without a constructor of its own the class is left alone; with one, that one is found.
  cases has : before.store.ownConstructor? id with
  | none =>
    rw [show (before.store.ownMember? (before.store.templateOf id) "__init__").bind
      Value.asFunction? = none from has] at returned
    cases returned
    simp
  | some own =>
    cases alike own has
    rw [show (before.store.ownMember? (before.store.templateOf id) "__init__").bind
      Value.asFunction? = some constructor from has] at returned
    exact iff_of_true (evaluateFunction_evaluates idle defined returned) (.inl rfl)

/-- A class whose constructor sets an attribute, and a class derived from it. -/
def inheritingClasses : List Statement :=
  [.defineClass 1 "Base" [] [.setter 2 "__init__" [] "x" (.constant (.int 1) .unknown)],
    .defineClass 3 "Derived" [.ofName "Base"] []]

/-- The two classes, declared in the scope of a module that is open. -/
def inheritanceDeclared : Progress :=
  Operation.performAll 3 Registry.environment Registry.start
    [.openScope .module .module none, .walkBlock .module inheritingClasses]

/-- The class with the constructor. -/
def baseClass : ClassId :=
  Registry.standard.store.nextClass

/-- The class that inherits it. -/
def derivedClass : ClassId :=
  ⟨baseClass.index + 1⟩

/-- The constructor. -/
def inheritedConstructor : FunctionId :=
  Registry.standard.store.nextFunction

/-- What is left after the constructor of a class was asked for. -/
def constructed (id : ClassId) : Progress :=
  ((Engine.atDepth 3).ensureConstructed id).after Registry.environment inheritanceDeclared

/-- The class with the constructor observes it. -/
theorem constructor_observed_iff_base :
    inheritanceDeclared.store.constructor? baseClass = some inheritedConstructor ∧
      ¬inheritanceDeclared.store.IsEvaluated inheritedConstructor ∧
      (constructed baseClass).store.IsEvaluated inheritedConstructor := by
  have declared : (inheritanceDeclared.store.classAt baseClass).flags.builtin = false := by
    decide +kernel
  have idle : inheritanceDeclared.store.NoOverloadIs .evaluating := by decide +kernel
  have returned : (Engine.atDepth 3).ensureConstructed baseClass Registry.environment
      inheritanceDeclared = .ok () (constructed baseClass) := ok_of_yields (by decide +kernel)
  have found : inheritanceDeclared.store.constructor? baseClass = some inheritedConstructor := by
    decide +kernel
  have own : inheritanceDeclared.store.ownConstructor? baseClass = some inheritedConstructor := by
    decide +kernel
  have original : (inheritanceDeclared.store.classAt baseClass).template = none := by
    decide +kernel
  have observed := constructor_observed_iff declared idle returned inheritedConstructor found
    (by decide +kernel) fun other has =>
      Option.some.inj ((Store.constructor?_of_ownConstructor? original has).symm.trans found)
  exact ⟨found, by decide +kernel, observed.mpr (.inl own)⟩

/-- The class that inherits it does not: the constructor that it finds is as pending
afterwards as before. In the analysis of a module the attribute of a new object is
unknown then, although it is set by the constructor. -/
theorem inherited_constructor_unobserved :
    (inheritanceDeclared.store.classAt derivedClass).flags.builtin = false ∧
      inheritanceDeclared.store.NoOverloadIs .evaluating ∧
      ((Engine.atDepth 3).ensureConstructed derivedClass).yields Registry.environment
        inheritanceDeclared () = true ∧
      inheritanceDeclared.store.constructor? derivedClass = some inheritedConstructor ∧
      ¬(constructed derivedClass).store.IsEvaluated inheritedConstructor ∧
      (match ((Analyzer.new {}).analyze ⟨inheritingClasses ++
          [.define "v" (.attribute (.call (.ofName "Derived") [] .unknown) (.ofName "x")
            .unknown)]⟩).1 with
        | .ok analysis => (analysis.value? "v").any Value.isUnknown
        | .error _ => false) = true := by
  decide +kernel

end Engine

end TypeInference
