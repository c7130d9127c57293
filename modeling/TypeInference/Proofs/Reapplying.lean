import TypeInference.Proofs.Repeating

/-!
# Operators and items again

Operators read the types of their operands and call methods, and so do items of containers. Where
these are what they were, applying an operator again or asking for an item again gives what it gave
and changes nothing. An index that cannot work is reported again, and the log is all that is
different then.
-/

namespace TypeInference

open Analysis Store

namespace Progress.RestsTo

variable {environment : Environment} {before after : Progress}
  (rests : before.RestsTo environment after)

include rests

/-- The class of a value is there. -/
theorem hasClass {value : Value} (given : Within rests.start.grounded.references value)
    {id : ClassId} (isClass : (before.store.typeOf value).asClass? = some id) :
    before.store.HasClass id := by
  have known : Within rests.start.grounded.references (before.store.typeOf value) :=
    within_typeOf given
  cases ty : before.store.typeOf value with
  | cls found =>
    rw [ty] at known isClass
    cases isClass
    exact known
  | unknown | parameter _ | function _ | marker _ =>
    rw [ty] at isClass
    cases isClass

/-- A type has the builtin nature that it had. -/
theorem builtin? {ty : Ty} (given : Within rests.start.grounded.references ty) :
    after.store.builtin? ty = before.store.builtin? ty := by
  cases ty with
  | cls id => exact ClassRecord.builtin_of_shape (rests.shape given)
  | unknown | parameter _ | function _ | marker _ => rfl

theorem builtinObject (builtin : Builtin) :
    after.store.builtinObject builtin = before.store.builtinObject builtin :=
  rests.lasts.keeps.newObject (rests.start.grounded.builtin builtin)

/-- So has the type of a value. -/
theorem builtinOf? {value : Value} (given : Within rests.start.grounded.references value) :
    after.store.builtin? (after.store.typeOf value) =
      before.store.builtin? (before.store.typeOf value) := by
  rw [rests.typeOf given, rests.builtin? (within_typeOf given)]

theorem isPosition {value : Value} (given : Within rests.start.grounded.references value) :
    after.store.isPosition value = before.store.isPosition value := by
  rw [Store.isPosition, rests.builtinOf? given, Store.isPosition]

/-- An index of a value does what it did. -/
theorem typeIndex {value : Value} (given : Within rests.start.grounded.references value) :
    Engine.typeIndex after.store value = Engine.typeIndex before.store value := by
  cases value with
  | type ty =>
    cases ty with
    | cls id =>
      have hash := ClassRecord.hash_of_shape (rests.shape given)
      simp only [Engine.typeIndex, Registry.isGenericMarker, hash, rests.isGeneric given]
      rfl
    | unknown | parameter _ | function _ | marker _ => rfl
  | unknown | union _ | object _ _ => rfl

end Progress.RestsTo

namespace Engine

variable {environment : Environment} {before after : Progress} {depth : Nat}
  (rest : before.AtRest environment)

include rest

/-- The method of the left operand gives what it gave. -/
theorem binaryByMethod_repeats (operator : BinaryOperator) {left right : Value}
    (first : Within rest.grounded.references left) (second : Within rest.grounded.references right)
    (span : Span) :
    ((Engine.atDepth depth).binaryByMethod before.store operator left right span).Repeats
      environment before := by
  unfold binaryByMethod
  cases operator.method? with
  | none => exact .pure rest _
  | some name =>
    cases isClass : (before.store.typeOf left).asClass? with
    | none => exact .pure rest _
    | some id =>
      have present : before.store.HasClass id := (Progress.RestsTo.refl rest).hasClass first isClass
      dsimp only
      split
      · exact .bind (constructedMethod?_repeats rest present name) fun method middle _ rests =>
          callMethod_repeats rests.rest method (rests.within first)
            ((within_cons _ _).mpr ⟨rests.within second, within_nil⟩) within_nil span
      · exact .pure rest _

/-- A binary operator that is applied again gives what it gave. -/
theorem applyBinary_repeats (operator : BinaryOperator) {left right : Value}
    (first : Within rest.grounded.references left) (second : Within rest.grounded.references right)
    (span : Span) :
    ((Engine.atDepth depth).applyBinary operator left right span).Repeats environment before := by
  have byMethod : ((Engine.atDepth depth).binaryByMethod before.store operator left right
      span).Repeats environment before := binaryByMethod_repeats rest operator first second span
  refine .reads (fun later rests => ?_) ?_
  · have both : Within rests.start.grounded.references [left, right] :=
      (within_cons _ _).mpr ⟨first, (within_cons _ _).mpr ⟨second, within_nil⟩⟩
    simp only [rests.union both, rests.builtinObject, rests.typeOf first, rests.typeOf second,
      rests.builtin? (within_typeOf first), rests.builtin? (within_typeOf second)]
  · dsimp only
    split
    · exact .pure rest _
    split
    · exact .pure rest _
    split
    · exact .pure rest _
    -- Where one operand has no builtin nature, the method of the left one is asked.
    cases before.store.builtin? (before.store.typeOf left) with
    | none => exact byMethod
    | some one =>
      cases before.store.builtin? (before.store.typeOf right) with
      | none => exact byMethod
      | some other =>
        dsimp only
        cases OperationResult.of one operator other <;> exact .pure rest _

/-- A unary operator that is applied again gives what it gave. -/
theorem applyUnary_repeats (operator : UnaryOperator) {operand : Value}
    (given : Within rest.grounded.references operand) (span : Span) :
    ((Engine.atDepth depth).applyUnary operator operand span).Repeats environment before := by
  have byMethod : ((Engine.atDepth depth).callMethod
      (applyUnary.unaryMethod? before.store (before.store.typeOf operand) operator) operand [] []
      span).Repeats environment before := callMethod_repeats rest _ given within_nil within_nil span
  have method {later : Progress} (rests : before.RestsTo environment later) :
      applyUnary.unaryMethod? later.store (before.store.typeOf operand) operator =
        applyUnary.unaryMethod? before.store (before.store.typeOf operand) operator := by
    unfold applyUnary.unaryMethod?
    cases isClass : (before.store.typeOf operand).asClass? with
    | none => rfl
    | some id =>
      have present : before.store.HasClass id := (Progress.RestsTo.refl rest).hasClass given isClass
      cases operator.method? with
      | none => rfl
      | some name => exact rests.method? present name
  refine .reads (fun later rests => ?_) ?_
  · simp only [rests.builtinObject, rests.typeOf given, rests.builtin? (within_typeOf given),
      method rests]
  · dsimp only
    split
    · exact .pure rest _
    split
    · exact .pure rest _
    cases operand.asConstant?.bind (foldUnary operator) with
    | some folded => exact .pure rest _
    | none =>
      dsimp only
      cases before.store.builtin? (before.store.typeOf operand) with
      | none => exact byMethod
      | some builtin =>
        cases builtin with
        | bool => exact .pure rest _
        | _ =>
          dsimp only
          split
          · split <;> exact .pure rest _
          · exact byMethod

/-- An item that is asked for again is what it was. -/
theorem itemByMethod_repeats {container position : Value}
    (contained : Within rest.grounded.references container)
    (given : Within rest.grounded.references position) (span : Span) :
    ((Engine.atDepth depth).itemByMethod container position span).Repeats environment before := by
  refine .reads (fun later rests => ?_) ?_
  · simp only [rests.typeOf contained]
  · cases isClass : (before.store.typeOf container).asClass? with
    | none => exact .pure rest _
    | some id =>
      have present : before.store.HasClass id :=
        (Progress.RestsTo.refl rest).hasClass contained isClass
      cases container.isObject with
      | false => exact .pure rest _
      | true =>
        exact .bind (constructedMethod?_repeats rest present _) fun method middle _ rests =>
          callMethod_repeats rests.rest method (rests.within contained)
            ((within_cons _ _).mpr ⟨rests.within given, within_nil⟩) within_nil span

end Engine

end TypeInference
