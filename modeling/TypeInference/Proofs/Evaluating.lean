import TypeInference.Evaluation.Check
import TypeInference.Proofs.Specializing

/-!
# Evaluation of expressions keeps disciplines

Calls, attributes, items, operators and expressions look up and declare names, and
change the store only through the engine. Each law follows the definition it is
about, and the laws of recursive definitions follow their recursion.
-/

namespace TypeInference

variable {discipline : Discipline} {world : discipline.World} {engine : Engine}

theorem Analysis.bindName_keeps (target : Expression) (value : Value) (span : Span) :
    (Analysis.bindName target value span).Keeps discipline world := by
  unfold bindName
  split
  · exact .declare _ _ _ _ _
  · exact .pure ()

theorem Analysis.unpack_keeps (span : Span) (targets : List Expression)
    (elements : Option Elements) :
    (Analysis.unpack span targets elements).Keeps discipline world := by
  induction targets, elements using Analysis.unpack.induct with
  | case1 elements => rw [unpack]; exact .pure ()
  | case2 items _ rest elements element others found inner after =>
    simp only [unpack, found]
    exact .bind inner fun _ => after
  | case3 items _ rest elements element others found inner after =>
    simp only [unpack, found]
    exact .bind inner fun _ => after
  | case4 target rest elements notList notTuple element others found after =>
    rw [unpack]
    · simp only [found]
      exact .bind (bindName_keeps _ _ _) fun _ => after
    · exact notList
    · exact notTuple

theorem Analysis.bindNames_keeps (span : Span) (targets : List Expression)
    (values : List Value) : (Analysis.bindNames span targets values).Keeps discipline world := by
  induction targets generalizing values with
  | nil => exact .pure ()
  | cons target rest inductionHypothesis =>
    exact .bind (bindName_keeps _ _ _) fun _ => inductionHypothesis _

theorem Analysis.bindIterationTarget_keeps (target : Expression) (iterable : Value)
    (span : Span) :
    (Analysis.bindIterationTarget target iterable span).Keeps discipline world := by
  unfold bindIterationTarget
  dsimp only
  split
  · split
    · exact bindNames_keeps _ _ _
    · exact unpack_keeps _ _ _
  · exact bindName_keeps _ _ _

namespace Engine

section Calls

variable (follows : engine.Follows discipline)

include follows

theorem callFunction_keeps (function : FunctionId) (receiver : Option Value)
    (positional : List Value) (keywords : List (String × Value)) (span : Span) :
    (engine.callFunction function receiver positional keywords span).Keeps discipline world := by
  refine .bind (follows.evaluateFunction function) fun _ => .bind .store fun store => ?_
  split
  · exact .pure _
  · dsimp only
    split
    · exact .bind (.pure _) fun _ => .bind .store fun _ => .pure _
    · exact .bind (substitute_keeps follows _ _) fun _ => .bind .store fun _ => .pure _

theorem callMethod_keeps (method : Option FunctionId) (receiver : Value)
    (positional : List Value) (keywords : List (String × Value)) (span : Span) :
    (engine.callMethod method receiver positional keywords span).Keeps discipline world := by
  cases method with
  | some function => exact callFunction_keeps follows function _ _ _ _
  | none => exact .pure _

theorem instantiate_keeps (id : ClassId) (positional : List Value)
    (keywords : List (String × Value)) (span : Span) :
    (engine.instantiate id positional keywords span).Keeps discipline world := by
  refine .bind .store fun store => ?_
  split
  · exact .pure _
  · refine .bind (ensureConstructed_keeps follows id) fun _ => .bind .store fun _ => ?_
    split
    · exact .pure _
    · exact .bind (follows.specialize _ _) fun _ => .bind .store fun _ => .pure _

end Calls

mutual

theorem callValue_keeps (follows : engine.Follows discipline)
    (target : Option Value) (positional : List Value) (keywords : List (String × Value))
    (span : Span) :
    ∀ callee, (engine.callValue target positional keywords span callee).Keeps discipline world
  | .unknown => by rw [callValue]; exact .pure _
  | .union alternatives => by
    rw [callValue]
    exact .bind (callAll_keeps follows target positional keywords span alternatives) fun _ =>
      .bind .store fun _ => .pure _
  | .type (.cls id) => by
    rw [callValue]
    exact instantiate_keeps follows id positional keywords span
  | .type (.function function) => by
    rw [callValue]
    refine .bind .store fun store => ?_
    split
    · exact .pure _
    · exact callFunction_keeps follows function _ _ _ _
  | .type .unknown => by simp only [callValue]; exact .pure _
  | .type (.parameter _) => by simp only [callValue]; exact .pure _
  | .type (.marker _) => by simp only [callValue]; exact .pure _
  | .object (.cls id) content => by
    rw [callValue]
    exact .bind (constructedMethod?_keeps follows id _) fun _ =>
      callMethod_keeps follows _ _ _ _ _
  | .object .unknown _ => by simp only [callValue]; exact .pure _
  | .object (.parameter _) _ => by simp only [callValue]; exact .pure _
  | .object (.function _) _ => by simp only [callValue]; exact .pure _
  | .object (.marker _) _ => by simp only [callValue]; exact .pure _

theorem callAll_keeps (follows : engine.Follows discipline)
    (target : Option Value) (positional : List Value) (keywords : List (String × Value))
    (span : Span) :
    ∀ callees, (engine.callAll target positional keywords span callees).Keeps discipline world
  | [] => by rw [callAll]; exact .pure _
  | callee :: rest => by
    rw [callAll]
    exact .bind (callValue_keeps follows target positional keywords span callee) fun _ =>
      .bind (callAll_keeps follows target positional keywords span rest) fun _ => .pure _

end

mutual

theorem attributeOf_keeps (follows : engine.Follows discipline) (name : String) :
    ∀ value, (engine.attributeOf name value).Keeps discipline world
  | .unknown => by rw [attributeOf]; exact .pure _
  | .union alternatives => by
    rw [attributeOf]
    exact .bind (attributeOfAll_keeps follows name alternatives) fun _ =>
      .bind .store fun _ => .pure _
  | .type (.cls id) => by
    rw [attributeOf]
    exact .bind (ensureConstructed_keeps follows id) fun _ =>
      .bind .store fun _ => .pure _
  | .type .unknown => by simp only [attributeOf]; exact .pure _
  | .type (.parameter _) => by simp only [attributeOf]; exact .pure _
  | .type (.function _) => by simp only [attributeOf]; exact .pure _
  | .type (.marker _) => by simp only [attributeOf]; exact .pure _
  | .object (.cls id) content => by
    rw [attributeOf]
    split
    · exact .pure _
    · refine .bind (ensureConstructed_keeps follows id) fun _ =>
        .bind .store fun store => ?_
      dsimp only
      split
      · split
        · exact callFunction_keeps follows _ _ _ _ _
        · exact .pure _
      · exact .pure _
  | .object .unknown _ => by simp only [attributeOf]; exact .pure _
  | .object (.parameter _) _ => by simp only [attributeOf]; exact .pure _
  | .object (.function _) _ => by simp only [attributeOf]; exact .pure _
  | .object (.marker _) _ => by simp only [attributeOf]; exact .pure _

theorem attributeOfAll_keeps (follows : engine.Follows discipline) (name : String) :
    ∀ values, (engine.attributeOfAll name values).Keeps discipline world
  | [] => by rw [attributeOfAll]; exact .pure _
  | value :: rest => by
    rw [attributeOfAll]
    exact .bind (attributeOf_keeps follows name value) fun _ =>
      .bind (attributeOfAll_keeps follows name rest) fun _ => .pure _

end

section Items

variable (follows : engine.Follows discipline)

include follows

theorem itemByMethod_keeps (container position : Value) (span : Span) :
    (engine.itemByMethod container position span).Keeps discipline world := by
  refine .bind .store fun store => ?_
  split
  · exact .bind (constructedMethod?_keeps follows _ _) fun _ =>
      callMethod_keeps follows _ _ _ _ _
  · exact .pure _

theorem itemAt_keeps (container position : Value) (positionSpan span : Span) :
    (engine.itemAt container position positionSpan span).Keeps discipline world := by
  refine .bind .store fun store => ?_
  dsimp only
  split
  · split
    · exact .pure _
    · exact .bind (.report _ _) fun _ => .pure _
  · split
    · exact .pure _
    · exact itemByMethod_keeps follows _ _ _

theorem applyBinary_keeps (operator : BinaryOperator) (left right : Value) (span : Span) :
    (engine.applyBinary operator left right span).Keeps discipline world := by
  refine .bind .store fun store => ?_
  split
  · exact .pure _
  · split
    · exact .pure _
    · split
      · exact .pure _
      · dsimp only
        split
        · split <;> exact .pure _
        · split
          · split
            · exact .bind (constructedMethod?_keeps follows _ _) fun _ =>
                callMethod_keeps follows _ _ _ _ _
            · exact .pure _
          · exact .pure _

theorem applyUnary_keeps (operator : UnaryOperator) (operand : Value) (span : Span) :
    (engine.applyUnary operator operand span).Keeps discipline world := by
  refine .bind .store fun store => ?_
  split
  · exact .pure _
  · split
    · exact .pure _
    · split
      · exact .pure _
      · dsimp only
        split
        · exact .pure _
        · split
          · split <;> exact .pure _
          · exact callMethod_keeps follows _ _ _ _ _
        · exact callMethod_keeps follows _ _ _ _ _

end Items

theorem readTypeHint_keeps (hint : Expression) {evaluated : Analysis Value}
    (keeps : evaluated.Keeps discipline world) :
    (readTypeHint hint evaluated).Keeps discipline world := by
  unfold readTypeHint
  split
  · refine .bind (.lookupName? _ _) fun found => ?_
    split <;> exact .pure _
  · exact .pure _
  · exact .pure _
  · refine .bind keeps fun value => ?_
    split <;> exact .pure _

mutual

theorem evaluate_keeps (follows : engine.Follows discipline)
    (reach : Reach) :
    ∀ expression, (engine.evaluate reach expression).Keeps discipline world
  | .constant value _ => by rw [evaluate]; exact .pure _
  | .name identifier => by rw [evaluate]; exact .bind (.lookupName? _ _) fun _ => .pure _
  | .attribute target name _ => by
    rw [evaluate]
    exact .bind (evaluate_keeps follows reach target) fun _ =>
      attributeOf_keeps follows _ _
  | .index target index span => by
    have position := evaluate_keeps follows reach index
    have hinted := evaluate_keeps follows .everything index
    -- Items of an index are taken apart here: the recursion has to see that they are smaller.
    have items : ∀ items place, index = .display .tuple items place →
        (engine.evaluateItems reach items.length items).Keeps discipline world ∧
          (engine.evaluateTypeHints items).Keeps discipline world := by
      match index with
      | .display .tuple items _ =>
        rintro _ _ ⟨⟩
        exact ⟨evaluateItems_keeps follows reach items.length items,
          evaluateTypeHints_keeps follows items⟩
      | .display .list _ _ | .display .set _ _ | .constant _ _ | .name _ | .attribute _ _ _
      | .index _ _ _ | .slice _ _ _ _ | .call _ _ _ | .dict _ _ | .comprehension _ | .yield _ _
      | .unary _ _ _ | .binary _ _ _ _ => rintro _ _ ⟨⟩
    rw [evaluate]
    refine .bind (evaluate_keeps follows reach target) fun container => ?_
    split
    · exact .pure _
    · refine .bind .store fun store => ?_
      split
      · split
        · exact .bind (items _ _ rfl).1 fun _ => .pure _
        · exact .bind position fun _ => .bind (.pure _) fun _ => .pure _
      · split
        · exact .bind (items _ _ rfl).2 fun _ =>
            .bind (follows.specialize _ _) fun _ => .pure _
        · exact .bind (readTypeHint_keeps _ hinted) fun _ =>
            .bind (.pure _) fun _ => .bind (follows.specialize _ _) fun _ => .pure _
      · split
        · exact .pure _
        · exact .bind position fun _ => itemAt_keeps follows _ _ _ _
  | .slice _ _ _ _ => by rw [evaluate]; exact .pure _
  | .call callee arguments span => by
    have function := evaluate_keeps follows reach callee
    -- The same for the object of a method that is called.
    have object : ∀ object name place, callee = .attribute object name place →
        (engine.evaluate reach object).Keeps discipline world := by
      match callee with
      | .attribute object _ _ =>
        rintro _ _ _ ⟨⟩
        exact evaluate_keeps follows reach object
      | .display _ _ _ | .constant _ _ | .name _ | .index _ _ _ | .slice _ _ _ _ | .call _ _ _
      | .dict _ _ | .comprehension _ | .yield _ _ | .unary _ _ _ | .binary _ _ _ _ =>
        rintro _ _ _ ⟨⟩
    have applied : ∀ called : Value × Option Value,
        (do
          let values ← engine.evaluateArguments reach arguments
          engine.callValue called.2 values.positional values.keywords span called.1).Keeps
            discipline world := fun called =>
      .bind (evaluateArguments_keeps follows reach arguments) fun _ =>
        callValue_keeps follows _ _ _ _ _
    unfold evaluate
    split
    · exact .bind (object _ _ _ rfl) fun _ =>
        .bind (attributeOf_keeps follows _ _) fun _ => .bind (.pure _) applied
    · exact .bind function fun _ => .bind (.pure _) applied
  | .display kind items _ => by
    rw [evaluate]
    exact .bind .options fun _ =>
      .bind (evaluateItems_keeps follows reach _ items) fun _ => .pure _
  | .dict entries _ => by
    rw [evaluate]
    exact .bind .options fun _ =>
      .bind (evaluateEntries_keeps follows reach _ entries) fun _ => .pure _
  | .comprehension comprehension => by
    rw [evaluate]
    exact evaluateComprehension_keeps follows reach comprehension
  | .yield _ _ => by rw [evaluate]; exact .pure _
  | .unary operator operand span => by
    rw [evaluate]
    exact .bind (evaluate_keeps follows reach operand) fun _ =>
      applyUnary_keeps follows _ _ _
  | .binary left operator right span => by
    rw [evaluate]
    exact .bind (evaluate_keeps follows reach left) fun _ =>
      .bind (evaluate_keeps follows reach right) fun _ =>
        applyBinary_keeps follows _ _ _ _

theorem evaluateComprehension_keeps (follows : engine.Follows discipline) (reach : Reach) :
    ∀ comprehension, (engine.evaluateComprehension reach comprehension).Keeps discipline world
  | ⟨id, kind, element, value, clauses, _⟩ => by
    rw [evaluateComprehension]
    refine .bind (evaluateFirstIterable_keeps follows reach clauses) fun _ => ?_
    split
    · exact .pure _
    · refine .inScope fun _ =>
        .bind (evaluateClauses_keeps follows reach _ clauses) fun _ =>
          .bind (evaluate_keeps follows reach element) fun _ => ?_
      split
      · exact .bind (evaluateOptional_keeps follows reach value) fun _ => .pure _
      · exact .bind (.pure _) fun _ => .pure _

theorem evaluateFirstIterable_keeps (follows : engine.Follows discipline) (reach : Reach) :
    ∀ clauses, (engine.evaluateFirstIterable reach clauses).Keeps discipline world
  | [] => by rw [evaluateFirstIterable]; exact .pure _
  | .iteration _ iterable _ :: _ => by
    rw [evaluateFirstIterable]
    exact evaluate_keeps follows reach iterable
  | .condition _ _ :: rest => by
    rw [evaluateFirstIterable]
    exact evaluateFirstIterable_keeps follows reach rest

theorem evaluateClauses_keeps (follows : engine.Follows discipline) (reach : Reach)
    (known : Option Value) :
    ∀ clauses, (engine.evaluateClauses reach known clauses).Keeps discipline world
  | [] => by simp only [evaluateClauses]; exact .pure _
  | .iteration target iterable span :: rest => by
    have others := evaluateClauses_keeps follows reach none rest
    have declared (value : Value) : (Analysis.bindIterationTarget target value span >>= fun _ =>
        engine.evaluateClauses reach none rest).Keeps discipline world :=
      .bind (Analysis.bindIterationTarget_keeps target value span) fun _ => others
    cases known with
    | some value =>
      rw [evaluateClauses]
      exact .bind (.pure _) declared
    | none =>
      rw [evaluateClauses]
      exact .bind (evaluate_keeps follows reach iterable) declared
  | .condition test _ :: rest => by
    rw [evaluateClauses]
    exact .bind (evaluate_keeps follows reach test) fun _ =>
      evaluateClauses_keeps follows reach known rest

theorem evaluateOptional_keeps (follows : engine.Follows discipline) (reach : Reach) :
    ∀ expression, (engine.evaluateOptional reach expression).Keeps discipline world
  | none => by rw [evaluateOptional]; exact .pure _
  | some expression => by
    rw [evaluateOptional]
    exact evaluate_keeps follows reach expression

theorem evaluateItems_keeps (follows : engine.Follows discipline) (reach : Reach) (limit : Nat) :
    ∀ items, (engine.evaluateItems reach limit items).Keeps discipline world
  | [] => by rw [evaluateItems]; exact .pure _
  | item :: rest => by
    cases limit with
    | zero => simp only [evaluateItems]; exact .pure _
    | succ limit =>
      rw [evaluateItems]
      exact .bind (evaluate_keeps follows reach item) fun _ =>
        .bind (evaluateItems_keeps follows reach limit rest) fun _ => .pure _

theorem evaluateTypeHints_keeps (follows : engine.Follows discipline) :
    ∀ hints, (engine.evaluateTypeHints hints).Keeps discipline world
  | [] => by rw [evaluateTypeHints]; exact .pure _
  | hint :: rest => by
    rw [evaluateTypeHints]
    exact .bind (readTypeHint_keeps _ (evaluate_keeps follows _ hint)) fun _ =>
      .bind (evaluateTypeHints_keeps follows rest) fun _ => .pure _

theorem evaluateEntries_keeps (follows : engine.Follows discipline) (reach : Reach) (limit : Nat) :
    ∀ entries, (engine.evaluateEntries reach limit entries).Keeps discipline world
  | [] => by rw [evaluateEntries]; exact .pure _
  | (key, value) :: rest => by
    cases limit with
    | zero => simp only [evaluateEntries]; exact .pure _
    | succ limit =>
      rw [evaluateEntries]
      exact .bind (evaluate_keeps follows reach key) fun _ =>
        .bind (evaluate_keeps follows reach value) fun _ =>
          .bind (evaluateEntries_keeps follows reach limit rest) fun _ => .pure _

theorem evaluateArguments_keeps (follows : engine.Follows discipline) (reach : Reach) :
    ∀ arguments, (engine.evaluateArguments reach arguments).Keeps discipline world
  | [] => by rw [evaluateArguments]; exact .pure _
  | ⟨passing, argument⟩ :: rest => by
    rw [evaluateArguments]
    exact .bind (evaluate_keeps follows reach argument) fun _ =>
      .bind (evaluateArguments_keeps follows reach rest) fun _ => .pure _

end

theorem evaluateTypeHint_keeps (follows : engine.Follows discipline) (hint : Expression) :
    (engine.evaluateTypeHint hint).Keeps discipline world :=
  readTypeHint_keeps hint (evaluate_keeps follows .everything hint)

theorem checkName_keeps (identifier : Identifier) :
    (checkName identifier).Keeps discipline world := by
  refine .bind (.lookupName? _ _) fun found => ?_
  split
  · exact .pure _
  · exact .report _ _

theorem checkOperands_keeps (operator : BinaryOperator) (left right : Value) (span : Span) :
    (checkOperands operator left right span).Keeps discipline world := by
  refine .bind .store fun store => ?_
  split
  · exact .report _ _
  · exact .pure _

mutual

theorem check_keeps (follows : engine.Follows discipline) :
    ∀ expression, (engine.check expression).Keeps discipline world
  | .constant _ _ => by rw [check]; exact .pure _
  | .name identifier => by rw [check]; exact checkName_keeps identifier
  | .attribute target _ _ => by rw [check]; exact check_keeps follows target
  | .index target index _ => by
    rw [check]
    exact .bind (check_keeps follows target) fun _ =>
      check_keeps follows index
  | .slice lower upper step _ => by
    rw [check]
    exact .bind (checkOptional_keeps follows lower) fun _ =>
      .bind (checkOptional_keeps follows upper) fun _ =>
        checkOptional_keeps follows step
  | .call callee arguments _ => by
    rw [check]
    exact .bind (check_keeps follows callee) fun _ =>
      checkArguments_keeps follows arguments
  | .display _ items _ => by rw [check]; exact checkAll_keeps follows items
  | .dict entries _ => by rw [check]; exact checkEntries_keeps follows entries
  | .comprehension comprehension => by
    rw [check]
    exact checkComprehension_keeps follows comprehension
  | .yield value _ => by rw [check]; exact checkOptional_keeps follows value
  | .unary _ operand _ => by rw [check]; exact check_keeps follows operand
  | .binary left operator right span => by
    rw [check]
    exact .bind (check_keeps follows left) fun _ =>
      .bind (check_keeps follows right) fun _ =>
        .bind (evaluate_keeps follows _ left) fun _ =>
          .bind (evaluate_keeps follows _ right) fun _ =>
            checkOperands_keeps _ _ _ _

theorem checkComprehension_keeps (follows : engine.Follows discipline) :
    ∀ comprehension, (engine.checkComprehension comprehension).Keeps discipline world
  | ⟨_, _, _, _, clauses, _⟩ => by
    rw [checkComprehension]
    exact checkFirstIterable_keeps follows clauses

theorem checkFirstIterable_keeps (follows : engine.Follows discipline) :
    ∀ clauses, (engine.checkFirstIterable clauses).Keeps discipline world
  | [] => by rw [checkFirstIterable]; exact .pure _
  | .iteration _ iterable _ :: _ => by
    rw [checkFirstIterable]
    exact check_keeps follows iterable
  | .condition _ _ :: rest => by
    rw [checkFirstIterable]
    exact checkFirstIterable_keeps follows rest

theorem checkOptional_keeps (follows : engine.Follows discipline) :
    ∀ expression, (engine.checkOptional expression).Keeps discipline world
  | none => by rw [checkOptional]; exact .pure _
  | some expression => by rw [checkOptional]; exact check_keeps follows expression

theorem checkAll_keeps (follows : engine.Follows discipline) :
    ∀ expressions, (engine.checkAll expressions).Keeps discipline world
  | [] => by rw [checkAll]; exact .pure _
  | expression :: rest => by
    rw [checkAll]
    exact .bind (check_keeps follows expression) fun _ =>
      checkAll_keeps follows rest

theorem checkEntries_keeps (follows : engine.Follows discipline) :
    ∀ entries, (engine.checkEntries entries).Keeps discipline world
  | [] => by rw [checkEntries]; exact .pure _
  | (key, value) :: rest => by
    rw [checkEntries]
    exact .bind (check_keeps follows key) fun _ =>
      .bind (check_keeps follows value) fun _ =>
        checkEntries_keeps follows rest

theorem checkArguments_keeps (follows : engine.Follows discipline) :
    ∀ arguments, (engine.checkArguments arguments).Keeps discipline world
  | [] => by rw [checkArguments]; exact .pure _
  | ⟨_, value⟩ :: rest => by
    rw [checkArguments]
    exact .bind (check_keeps follows value) fun _ =>
      checkArguments_keeps follows rest

end

theorem checkedValue_keeps (follows : engine.Follows discipline) (expression : Expression) :
    (engine.checkedValue expression).Keeps discipline world :=
  .bind (check_keeps follows expression) fun _ =>
    evaluate_keeps follows .everything expression

theorem checkedOptional_keeps (follows : engine.Follows discipline)
    (expression : Option Expression) :
    (engine.checkedOptional expression).Keeps discipline world := by
  cases expression with
  | none => exact .pure _
  | some expression =>
    exact .bind (checkedValue_keeps follows expression) fun _ => .pure _

theorem annotatedValue_keeps (follows : engine.Follows discipline) (hint : Expression)
    (value : Option Expression) :
    (engine.annotatedValue hint value).Keeps discipline world := by
  refine .bind (evaluateTypeHint_keeps follows hint) fun _ =>
    .bind (checkedOptional_keeps follows value) fun _ => ?_
  dsimp only
  split
  · exact .bind .store fun _ => .pure _
  · exact .pure _

end Engine

end TypeInference
