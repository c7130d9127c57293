import TypeInference.Proofs.Inferring
import TypeInference.Proofs.Ledger

/-!
# What evaluating expressions costs

Calls, attributes and operators evaluate functions and specialize classes, which costs nothing.
An expression costs what its index expressions do, once each: a bad index is reported at its
position, after the position was evaluated. Checking an expression evaluates the operands of its
operators, which costs the same once more for every operator around an index expression.
-/

namespace TypeInference

open Analysis

/-- What costs nothing, whatever is known. -/
def Judgement.free (ledger : Ledger) : Judgement where
  Index := Unit
  World := Unit
  Later _ _ := True
  later_refl _ := trivial
  later_trans _ _ := trivial
  Near _ _ := True
  near_of_later _ := trivial
  near_trans _ _ := trivial
  Known _ := .every
  known_later _ _ := id
  Holds _ _ _ analyses := (analyses ()).Costs ledger []
  pure _ := .pure _
  bind begins continues := .bind begins fun result =>
    @continues () trivial result (within_every result)
  reads continues := .after_free (.of_unmoved fun _ _ => .refl _) fun store =>
    @continues () trivial store (within_every store) (.of_union (fun _ => trivial) store)

/-- An engine whose evaluations and specializations cost nothing. -/
structure Engine.Spends (ledger : Ledger) (engine : Engine) : Prop where
  evaluateFunction : ∀ function, (engine.evaluateFunction function).Costs ledger []
  specialize : ∀ id arguments, (engine.specialize id arguments).Costs ledger []

variable {ledger : Ledger} {engine : Engine} {bill : List Charge}

theorem Engine.Spends.follows (spends : engine.Spends ledger) :
    (Judgement.free ledger).Follows (fun _ => engine) () where
  evaluates _ _ _ := spends.evaluateFunction _
  specializes _ _ _ _ _ := spends.specialize _ _

namespace Analysis

theorem bindName_costs (target : Expression) (value : Value) (span : Span) :
    (bindName target value span).Costs ledger bill := by
  unfold bindName
  split
  · exact .declare _ _ _ _ _
  · exact .pure ()

theorem unpack_costs (span : Span) (targets : List Expression) (elements : Option Elements) :
    (unpack span targets elements).Costs ledger [] := by
  induction targets, elements using unpack.induct with
  | case1 elements => rw [unpack]; exact .pure ()
  | case2 items _ rest elements element others found inner after =>
    simp only [unpack, found]
    exact .bind inner fun _ => after
  | case3 items _ rest elements element others found inner after =>
    simp only [unpack, found]
    exact .bind inner fun _ => after
  | case4 target rest elements notList notTuple element others found after =>
    rw [unpack]
    · simp only [found]
      exact .after_free (bindName_costs _ _ _) fun _ => after
    · exact notList
    · exact notTuple

theorem bindNames_costs (span : Span) (targets : List Expression) (values : List Value) :
    (bindNames span targets values).Costs ledger [] := by
  induction targets generalizing values with
  | nil => exact .pure ()
  | cons target rest inductionHypothesis =>
    exact .after_free (bindName_costs _ _ _) fun _ => inductionHypothesis _

theorem bindIterationTarget_costs (target : Expression) (iterable : Value) (span : Span) :
    (bindIterationTarget target iterable span).Costs ledger [] := by
  unfold bindIterationTarget
  dsimp only
  split
  · split
    · exact bindNames_costs _ _ _
    · exact unpack_costs _ _ _
  · exact bindName_costs _ _ _

end Analysis

namespace Engine

theorem itemAt_costs (spends : engine.Spends ledger) (again : Bool) (container position : Value)
    (positionSpan span : Span) :
    (engine.itemAt container position positionSpan span).Costs ledger
      [.indexed again positionSpan] := by
  refine .store fun store => ?_
  dsimp only
  split
  · split
    · exact .pure _
    · exact .before_free (.reportBadIndex _ again positionSpan) fun _ => .pure _
  · split
    · exact .pure _
    · exact .free (itemByMethod_holds spends.follows (within_every _) (within_every _) span)

theorem readTypeHint_costs (hint : Expression) {evaluated : Analysis Value}
    (costs : evaluated.Costs ledger bill) : (readTypeHint hint evaluated).Costs ledger bill := by
  unfold readTypeHint
  split
  · refine .after_free (.of_unmoved (.lookupName? _ _)) fun found => ?_
    split <;> exact .pure _
  · exact .pure _
  · exact .pure _
  · refine .before_free costs fun value => ?_
    split <;> exact .pure _

end Engine

namespace Expression

/-- The places of positions in the iterable of the first iteration. -/
def firstPositions : List Clause → List Span
  | [] => []
  | .iteration _ iterable _ :: _ => positions iterable
  | .condition _ _ :: rest => firstPositions rest

/-- The places of positions in clauses but for the iterable of the first iteration. -/
def laterPositions : List Clause → List Span
  | [] => []
  | .iteration _ _ _ :: rest => clausePositions rest
  | .condition test _ :: rest => positions test ++ laterPositions rest

/-- Wherever the first iteration stands, no position is missed. -/
theorem perm_clausePositions (clauses : List Clause) :
    (firstPositions clauses ++ laterPositions clauses).Perm (clausePositions clauses) := by
  induction clauses with
  | nil => exact .refl []
  | cons clause rest inductionHypothesis =>
    cases clause with
    | iteration target iterable place => exact .refl _
    | condition test place =>
      simp only [clausePositions, firstPositions, laterPositions]
      exact .trans (List.perm_append_comm_assoc _ _ _) (inductionHypothesis.append_left _)

end Expression

namespace Engine

open Charge
open Expression (positions comprehensionPositions optionalPositions itemPositions
  argumentPositions entryPositions clausePositions firstPositions laterPositions
  perm_clausePositions rechecks comprehensionRechecks firstIterableRechecks optionalRechecks
  itemRechecks argumentRechecks entryRechecks)

mutual

theorem evaluate_costs (spends : engine.Spends ledger) (again : Bool) (reach : Reach) :
    ∀ expression, (engine.evaluate reach expression).Costs ledger
      (indices again expression.positions)
  | .constant _ _ => by rw [evaluate]; exact .pure _
  | .name _ => by
    rw [evaluate]
    exact .after_free (.of_unmoved (.lookupName? _ _)) fun _ => .pure _
  | .attribute target name _ => by
    rw [evaluate, positions]
    exact .before_free (evaluate_costs spends again reach target) fun _ =>
      attributeOf_holds spends.follows _ (within_every _)
  | .index target position span => by
    have single (reach : Reach) := evaluate_costs spends again reach position
    -- Items of an index are taken apart here: the recursion has to see that they are smaller.
    have items : ∀ items place, position = .display .tuple items place →
        (engine.evaluateItems reach items.length items).Costs ledger
            (indices again position.positions) ∧
          (engine.evaluateTypeHints items).Costs ledger (indices again position.positions) := by
      match position with
      | .display .tuple items _ =>
        rintro _ _ ⟨⟩
        rw [positions]
        exact ⟨evaluateItems_costs spends again reach items.length items,
          evaluateTypeHints_costs spends again items⟩
      | .display .list _ _ | .display .set _ _ | .constant _ _ | .name _ | .attribute _ _ _
      | .index _ _ _ | .slice _ _ _ _ | .call _ _ _ | .dict _ _ | .comprehension _ | .yield _ _
      | .unary _ _ _ | .binary _ _ _ _ => rintro _ _ ⟨⟩
    have listed : (engine.indexValues reach position).Costs ledger
        (indices again position.positions) := by
      unfold indexValues
      split
      · exact (items _ _ rfl).1
      · exact .before_free (single reach) fun _ => .pure _
    have hinted : (engine.indexTypes position).Costs ledger
        (indices again position.positions) := by
      unfold indexTypes
      split
      · exact (items _ _ rfl).2
      · exact .before_free (readTypeHint_costs _ (single .everything)) fun _ => .pure _
    rw [evaluate_index, positions, indices_append, indices_append]
    refine .bind (evaluate_costs spends again reach target) fun container => ?_
    split
    · exact .pure _
    refine .store fun store => ?_
    split
    · exact .bind listed fun _ => .pure _
    · exact .bind hinted fun _ => .free (.after_free (spends.specialize _ _) fun _ => .pure _)
    · split
      · exact .pure _
      · exact .bind (single reach) fun _ => itemAt_costs spends again _ _ _ _
  | .slice _ _ _ _ => by rw [evaluate]; exact .pure _
  | .call callee arguments span => by
    have called : (engine.calledValue reach callee).Costs ledger
        (indices again callee.positions) := by
      match callee with
      | .attribute object name _ =>
        rw [calledValue, positions]
        exact .before_free (evaluate_costs spends again reach object) fun _ =>
          .before_free (attributeOf_holds spends.follows _ (within_every _)) fun _ => .pure _
      | .display _ _ _ | .constant _ _ | .name _ | .index _ _ _ | .slice _ _ _ _ | .call _ _ _
      | .dict _ _ | .comprehension _ | .yield _ _ | .unary _ _ _ | .binary _ _ _ _ =>
        exact .before_free (evaluate_costs spends again reach _) fun _ => .pure _
    rw [evaluate_call, positions, indices_append]
    exact .bind called fun _ =>
      .before_free (evaluateArguments_costs spends again reach arguments) fun _ =>
        callValue_holds spends.follows (within_every _) (within_every _) (within_every _) span
          (within_every _)
  | .display _ items _ => by
    rw [evaluate, positions]
    exact .options fun _ =>
      .before_free (evaluateItems_costs spends again reach _ items) fun _ => .pure _
  | .dict entries _ => by
    rw [evaluate, positions]
    exact .options fun _ =>
      .before_free (evaluateEntries_costs spends again reach _ entries) fun _ => .pure _
  | .comprehension comprehension => by
    rw [evaluate, positions]
    exact evaluateComprehension_costs spends again reach comprehension
  | .yield _ _ => by rw [evaluate]; exact .pure _
  | .unary operator operand span => by
    rw [evaluate, positions]
    exact .before_free (evaluate_costs spends again reach operand) fun _ =>
      applyUnary_holds spends.follows _ (within_every _) span
  | .binary left operator right span => by
    rw [evaluate, positions, indices_append]
    exact .bind (evaluate_costs spends again reach left) fun _ =>
      .before_free (evaluate_costs spends again reach right) fun _ =>
        applyBinary_holds spends.follows _ (within_every _) (within_every _) span

theorem evaluateComprehension_costs (spends : engine.Spends ledger) (again : Bool)
    (reach : Reach) : ∀ comprehension,
      (engine.evaluateComprehension reach comprehension).Costs ledger
        (indices again (comprehensionPositions comprehension))
  | ⟨id, kind, element, value, clauses, _⟩ => by
    have inside (iterable : Value) :
        (Analysis.inScope id .comprehension none fun _ => do
          engine.evaluateClauses reach (some iterable) clauses
          let elementValue ← engine.evaluate reach element
          let entryValue ← if kind = .dict then engine.evaluateOptional reach value
            else Pure.pure .unknown
          return sampled kind elementValue entryValue).Costs ledger
            (indices again (laterPositions clauses) ++
              (indices again element.positions ++ indices again (optionalPositions value))) := by
      refine .inScope fun _ =>
        .bind (evaluateClauses_costs spends again reach (some iterable) clauses) fun _ =>
        .bind (evaluate_costs spends again reach element) fun _ => ?_
      split
      · exact .before_free (evaluateOptional_costs spends again reach value) fun _ => .pure _
      · exact .pure _
    have same := ((perm_clausePositions clauses).append_right
      (element.positions ++ optionalPositions value)).map (Charge.indexed again)
    rw [evaluateComprehension, comprehensionPositions]
    refine .mono ?_ fun charge => (same.count_eq charge).le
    change Costs ledger (indices again _) _
    rw [List.append_assoc, indices_append, indices_append, indices_append]
    refine .bind (evaluateFirstIterable_costs spends again reach clauses) fun iterable => ?_
    split
    · exact .pure _
    · exact inside iterable

theorem evaluateFirstIterable_costs (spends : engine.Spends ledger) (again : Bool)
    (reach : Reach) : ∀ clauses, (engine.evaluateFirstIterable reach clauses).Costs ledger
      (indices again (firstPositions clauses))
  | [] => by rw [evaluateFirstIterable]; exact .pure _
  | .iteration _ iterable _ :: _ => by
    rw [evaluateFirstIterable, firstPositions]
    exact evaluate_costs spends again reach iterable
  | .condition _ _ :: rest => by
    rw [evaluateFirstIterable, firstPositions]
    exact evaluateFirstIterable_costs spends again reach rest

theorem evaluateClauses_costs (spends : engine.Spends ledger) (again : Bool) (reach : Reach)
    (known : Option Value) : ∀ clauses,
      (engine.evaluateClauses reach known clauses).Costs ledger
        (indices again (if known.isSome then laterPositions clauses else clausePositions clauses))
  | [] => by simp only [evaluateClauses]; exact .pure _
  | .iteration target iterable span :: rest => by
    have others := evaluateClauses_costs spends again reach none rest
    rw [evaluateClauses_iteration]
    cases known with
    | some value =>
      exact .after_free (.pure _) fun _ =>
        .after_free (bindIterationTarget_costs _ _ _) fun _ => others
    | none =>
      change Costs ledger (indices again (positions iterable ++ clausePositions rest)) _
      rw [indices_append]
      exact .bind (evaluate_costs spends again reach iterable) fun _ =>
        .after_free (bindIterationTarget_costs _ _ _) fun _ => others
  | .condition test _ :: rest => by
    have others := evaluateClauses_costs spends again reach known rest
    rw [evaluateClauses]
    cases known with
    | some value =>
      change Costs ledger (indices again (positions test ++ laterPositions rest)) _
      rw [indices_append]
      exact .bind (evaluate_costs spends again reach test) fun _ => others
    | none =>
      change Costs ledger (indices again (positions test ++ clausePositions rest)) _
      rw [indices_append]
      exact .bind (evaluate_costs spends again reach test) fun _ => others

theorem evaluateOptional_costs (spends : engine.Spends ledger) (again : Bool) (reach : Reach) :
    ∀ expression, (engine.evaluateOptional reach expression).Costs ledger
      (indices again (optionalPositions expression))
  | none => by rw [evaluateOptional]; exact .pure _
  | some expression => by
    rw [evaluateOptional, optionalPositions]
    exact evaluate_costs spends again reach expression

theorem evaluateItems_costs (spends : engine.Spends ledger) (again : Bool) (reach : Reach)
    (limit : Nat) : ∀ items, (engine.evaluateItems reach limit items).Costs ledger
      (indices again (itemPositions items))
  | [] => by rw [evaluateItems]; exact .pure _
  | item :: rest => by
    cases limit with
    | zero => simp only [evaluateItems]; exact .pure _
    | succ limit =>
      rw [evaluateItems, itemPositions, indices_append]
      exact .bind (evaluate_costs spends again reach item) fun _ =>
        .before_free (evaluateItems_costs spends again reach limit rest) fun _ => .pure _

theorem evaluateTypeHints_costs (spends : engine.Spends ledger) (again : Bool) :
    ∀ hints, (engine.evaluateTypeHints hints).Costs ledger (indices again (itemPositions hints))
  | [] => by rw [evaluateTypeHints]; exact .pure _
  | hint :: rest => by
    rw [evaluateTypeHints, itemPositions, indices_append]
    exact .bind (readTypeHint_costs _ (evaluate_costs spends again _ hint)) fun _ =>
      .before_free (evaluateTypeHints_costs spends again rest) fun _ => .pure _

theorem evaluateEntries_costs (spends : engine.Spends ledger) (again : Bool) (reach : Reach)
    (limit : Nat) : ∀ entries, (engine.evaluateEntries reach limit entries).Costs ledger
      (indices again (entryPositions entries))
  | [] => by rw [evaluateEntries]; exact .pure _
  | (key, value) :: rest => by
    cases limit with
    | zero => simp only [evaluateEntries]; exact .pure _
    | succ limit =>
      rw [evaluateEntries, entryPositions, indices_append, indices_append]
      exact .bind (evaluate_costs spends again reach key) fun _ =>
        .bind (evaluate_costs spends again reach value) fun _ =>
          .before_free (evaluateEntries_costs spends again reach limit rest) fun _ => .pure _

theorem evaluateArguments_costs (spends : engine.Spends ledger) (again : Bool) (reach : Reach) :
    ∀ arguments, (engine.evaluateArguments reach arguments).Costs ledger
      (indices again (argumentPositions arguments))
  | [] => by rw [evaluateArguments]; exact .pure _
  | ⟨_, argument⟩ :: rest => by
    rw [evaluateArguments, argumentPositions, indices_append]
    exact .bind (evaluate_costs spends again reach argument) fun _ =>
      .before_free (evaluateArguments_costs spends again reach rest) fun _ => .pure _

end

theorem evaluateTypeHint_costs (spends : engine.Spends ledger) (again : Bool)
    (hint : Expression) :
    (engine.evaluateTypeHint hint).Costs ledger (indices again hint.positions) :=
  readTypeHint_costs hint (evaluate_costs spends again .everything hint)

theorem checkName_costs (identifier : Identifier) :
    (checkName identifier).Costs ledger bill := by
  refine .after_free (.of_unmoved (.lookupName? _ _)) fun found => ?_
  split
  · exact .pure _
  · exact .of_unmoved (.report _ (by simp [Lint.code]))

theorem checkOperands_costs (operator : BinaryOperator) (left right : Value) (span : Span) :
    (checkOperands operator left right span).Costs ledger bill := by
  refine .store fun store => ?_
  split
  · exact .of_unmoved (.report _ (by simp [Lint.code]))
  · exact .pure _

mutual

theorem check_costs (spends : engine.Spends ledger) :
    ∀ expression, (engine.check expression).Costs ledger (indices true expression.rechecks)
  | .constant _ _ => by rw [check]; exact .pure _
  | .name identifier => by rw [check]; exact checkName_costs identifier
  | .attribute target _ _ => by rw [check, rechecks]; exact check_costs spends target
  | .index target position _ => by
    rw [check, rechecks, indices_append]
    exact .bind (check_costs spends target) fun _ => check_costs spends position
  | .slice lower upper step _ => by
    rw [check, rechecks, indices_append, indices_append]
    exact .bind (checkOptional_costs spends lower) fun _ =>
      .bind (checkOptional_costs spends upper) fun _ => checkOptional_costs spends step
  | .call callee arguments _ => by
    rw [check, rechecks, indices_append]
    exact .bind (check_costs spends callee) fun _ => checkArguments_costs spends arguments
  | .display _ items _ => by rw [check, rechecks]; exact checkAll_costs spends items
  | .dict entries _ => by rw [check, rechecks]; exact checkEntries_costs spends entries
  | .comprehension comprehension => by
    rw [check, rechecks]
    exact checkComprehension_costs spends comprehension
  | .yield value _ => by rw [check, rechecks]; exact checkOptional_costs spends value
  | .unary _ operand _ => by rw [check, rechecks]; exact check_costs spends operand
  | .binary left operator right span => by
    -- Here operands are evaluated, which the statement does once more.
    rw [check, rechecks, indices_append, indices_append, indices_append]
    exact .bind (check_costs spends left) fun _ =>
      .bind (check_costs spends right) fun _ =>
        .bind (evaluate_costs spends true _ left) fun _ =>
          .before_free (evaluate_costs spends true _ right) fun _ =>
            checkOperands_costs _ _ _ _

theorem checkComprehension_costs (spends : engine.Spends ledger) : ∀ comprehension,
    (engine.checkComprehension comprehension).Costs ledger
      (indices true (comprehensionRechecks comprehension))
  | ⟨_, _, _, _, clauses, _⟩ => by
    rw [checkComprehension, comprehensionRechecks]
    exact checkFirstIterable_costs spends clauses

theorem checkFirstIterable_costs (spends : engine.Spends ledger) : ∀ clauses,
    (engine.checkFirstIterable clauses).Costs ledger
      (indices true (firstIterableRechecks clauses))
  | [] => by rw [checkFirstIterable]; exact .pure _
  | .iteration _ iterable _ :: _ => by
    rw [checkFirstIterable, firstIterableRechecks]
    exact check_costs spends iterable
  | .condition _ _ :: rest => by
    rw [checkFirstIterable, firstIterableRechecks]
    exact checkFirstIterable_costs spends rest

theorem checkOptional_costs (spends : engine.Spends ledger) : ∀ expression,
    (engine.checkOptional expression).Costs ledger (indices true (optionalRechecks expression))
  | none => by rw [checkOptional]; exact .pure _
  | some expression => by
    rw [checkOptional, optionalRechecks]
    exact check_costs spends expression

theorem checkAll_costs (spends : engine.Spends ledger) : ∀ expressions,
    (engine.checkAll expressions).Costs ledger (indices true (itemRechecks expressions))
  | [] => by rw [checkAll]; exact .pure _
  | expression :: rest => by
    rw [checkAll, itemRechecks, indices_append]
    exact .bind (check_costs spends expression) fun _ => checkAll_costs spends rest

theorem checkEntries_costs (spends : engine.Spends ledger) : ∀ entries,
    (engine.checkEntries entries).Costs ledger (indices true (entryRechecks entries))
  | [] => by rw [checkEntries]; exact .pure _
  | (key, value) :: rest => by
    rw [checkEntries, entryRechecks, indices_append, indices_append]
    exact .bind (check_costs spends key) fun _ =>
      .bind (check_costs spends value) fun _ => checkEntries_costs spends rest

theorem checkArguments_costs (spends : engine.Spends ledger) : ∀ arguments,
    (engine.checkArguments arguments).Costs ledger (indices true (argumentRechecks arguments))
  | [] => by rw [checkArguments]; exact .pure _
  | ⟨_, value⟩ :: rest => by
    rw [checkArguments, argumentRechecks, indices_append]
    exact .bind (check_costs spends value) fun _ => checkArguments_costs spends rest

end

theorem checkedValue_costs (spends : engine.Spends ledger) (expression : Expression) :
    (engine.checkedValue expression).Costs ledger (checked expression) :=
  .bind (check_costs spends expression) fun _ =>
    evaluate_costs spends false .everything expression

theorem checkedOptional_costs (spends : engine.Spends ledger)
    (expression : Option Expression) :
    (engine.checkedOptional expression).Costs ledger (optionalChecked expression) := by
  cases expression with
  | none => exact .pure _
  | some expression => exact .before_free (checkedValue_costs spends expression) fun _ => .pure _

theorem annotatedValue_costs (spends : engine.Spends ledger) (hint : Expression)
    (value : Option Expression) :
    (engine.annotatedValue hint value).Costs ledger
      (indices false hint.positions ++ optionalChecked value) := by
  refine .bind (evaluateTypeHint_costs spends false hint) fun _ =>
    .before_free (checkedOptional_costs spends value) fun _ => ?_
  dsimp only
  split
  · exact .store fun _ => .pure _
  · exact .pure _

end Engine

end TypeInference
