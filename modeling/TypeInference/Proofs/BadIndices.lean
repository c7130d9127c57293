import TypeInference.Proofs.Indexing
import TypeInference.Proofs.Ledger
import TypeInference.Proofs.Unions

/-!
# Bad indices

An index into a list or a tuple is reported if something is known of it and its type is not one of
integers. The type of a union is the one that all of its alternatives have, and the unknown type if
they have several. Nothing is known of that type, though each alternative may be an integer.

So what is an integer whichever way it comes about is reported exactly if it is a union of integers
of different types, as numbers and truth values are, and then as an index of the unknown type
(`Engine.evaluate_index_reports_iff`).
-/

namespace TypeInference

open Analysis

namespace Store

variable {store : Store} {value : Value} {alternatives : List Value}

/-- Whether a value is an object of integers. Truth values are integers. -/
def IsInteger (store : Store) (value : Value) : Prop :=
  ∃ ty content builtin, value = .object ty content ∧ store.builtin? ty = some builtin ∧
    builtin.isInteger = true

/-- Whether a value may be a place in a sequence: it is not known, or it is an integer, whichever of
its alternatives it is. -/
inductive MayBePlace (store : Store) : Value → Prop
  | unknown : MayBePlace store .unknown
  | integer {value : Value} (integer : store.IsInteger value) : MayBePlace store value
  | union {alternatives : List Value}
      (integers : ∀ alternative ∈ alternatives, store.IsInteger alternative) :
      MayBePlace store (.union alternatives)

/-- Whether a value has one type: if it is a union, it has alternatives, and all of one type. -/
def OfOneType (store : Store) : Value → Prop
  | .union alternatives => alternatives ≠ [] ∧ ∀ first ∈ alternatives, ∀ second ∈ alternatives,
      store.sameType (store.typeOf first) (store.typeOf second) = true
  | _ => True

theorem typesOf_eq_map (values : List Value) : store.typesOf values = values.map store.typeOf := by
  induction values with
  | nil => rfl
  | cons value rest inductionHypothesis => rw [typesOf, inductionHypothesis, List.map_cons]

/-- The type of a union of one type is that of an alternative. -/
theorem typeOf_union_of_ofOneType (one : store.OfOneType (.union alternatives)) :
    ∃ alternative ∈ alternatives,
      store.typeOf (.union alternatives) = store.typeOf alternative := by
  obtain ⟨some_value, same⟩ := one
  cases alternatives with
  | nil => exact absurd rfl some_value
  | cons first rest =>
    have all : (rest.map store.typeOf).all (store.sameType (store.typeOf first)) = true := by
      rw [List.all_map, List.all_eq_true]
      exact fun other listed =>
        same first List.mem_cons_self other (List.mem_cons_of_mem _ listed)
    refine ⟨first, List.mem_cons_self, ?_⟩
    rw [typeOf, typesOf, typesOf_eq_map]
    exact if_pos all

/-- The type of a union of several types is not known. -/
theorem typeOf_union_of_not_ofOneType (several : ¬store.OfOneType (.union alternatives)) :
    store.typeOf (.union alternatives) = .unknown := by
  cases alternatives with
  | nil => rfl
  | cons first rest =>
    rw [typeOf, typesOf, typesOf_eq_map]
    refine if_neg fun all => several ⟨List.cons_ne_nil _ _, fun one listed other among => ?_⟩
    rw [List.all_map, List.all_eq_true] at all
    have asFirst {value : Value} (listed : value ∈ first :: rest) :
        store.typeHash (store.typeOf first) = store.typeHash (store.typeOf value) := by
      rcases List.mem_cons.mp listed with rfl | later
      · rfl
      · exact of_decide_eq_true (all value later)
    exact decide_eq_true ((asFirst listed).symm.trans (asFirst among))

theorem typeOf_of_isInteger (integer : store.IsInteger value) :
    ∃ builtin, store.builtin? (store.typeOf value) = some builtin ∧ builtin.isInteger = true := by
  obtain ⟨ty, content, builtin, rfl, nature, isInteger⟩ := integer
  exact ⟨builtin, nature, isInteger⟩

theorem isPosition_of_isInteger {other : Value} (integer : store.IsInteger value)
    (same : store.typeOf other = store.typeOf value) : store.isPosition other = true := by
  obtain ⟨builtin, nature, isInteger⟩ := typeOf_of_isInteger integer
  simp only [isPosition, same, nature, isInteger, Bool.or_true]

/-- What may be a place is taken for one exactly if it has one type. -/
theorem isPosition_iff_ofOneType (may : store.MayBePlace value) :
    store.isPosition value = true ↔ store.OfOneType value := by
  cases may with
  | unknown => exact iff_of_true rfl trivial
  | integer integer =>
    refine iff_of_true (isPosition_of_isInteger integer rfl) ?_
    obtain ⟨ty, content, builtin, rfl, -, -⟩ := integer
    trivial
  | union integers =>
    constructor
    · intro isPosition
      by_contra several
      have unknown := typeOf_union_of_not_ofOneType several
      simp only [Store.isPosition, unknown, builtin?, Value.isUnknown, Bool.or_self,
        Bool.false_eq_true] at isPosition
    · intro one
      obtain ⟨alternative, listed, same⟩ := typeOf_union_of_ofOneType one
      exact isPosition_of_isInteger (integers alternative listed) same

/-- What is not taken for a place is reported as of the unknown type. -/
theorem typeName_of_several (may : store.MayBePlace value) (several : ¬store.OfOneType value) :
    store.typeName (store.typeOf value) = "Unknown" := by
  cases may with
  | unknown => exact absurd trivial several
  | integer integer =>
    obtain ⟨ty, content, builtin, rfl, -, -⟩ := integer
    exact absurd trivial several
  | union integers =>
    rw [typeOf_union_of_not_ofOneType several, typeName]
    cases store.classes.size <;> rfl

end Store

namespace Engine

variable {engine : Engine} {reach : Reach} {environment : Environment}
  {before between after : Progress} {position : Expression} {value : Value}

/-- Of what selects many, only a slice may be a place, and that is not evaluated. -/
theorem selectsMany_of_mayBePlace (knows : after.store.KnowsBuiltins)
    (evaluated : engine.evaluate reach position environment before = .ok value after)
    (may : after.store.MayBePlace value) (many : selectsMany position = true) :
    value = .unknown ∧ after = before := by
  cases position with
  | slice lower upper step span =>
    rw [evaluate] at evaluated
    cases evaluated
    exact ⟨rfl, rfl⟩
  | display kind items span =>
    obtain ⟨values, -, rfl⟩ := evaluate_display_eq_ok.mp evaluated
    cases may with
    | integer integer =>
      obtain ⟨ty, content, builtin, same, nature, isInteger⟩ := integer
      cases same
      cases (knows kind.builtin).symm.trans nature
      cases kind <;> cases isInteger
  | _ => cases many

/-- An index that is taken for a place is not reported, and any other one is by its type. -/
theorem itemAt_of_tracked {ty : Ty} {content : SequenceContent} {nature : Builtin}
    (tracked : before.store.builtin? ty = some nature) (sequential : nature.isSequence = true)
    (value : Value) (positionSpan span : Span) :
    ∃ selected, engine.itemAt (.object ty (.sequence content)) value positionSpan span environment
      before = .ok selected (if before.store.isPosition value then before else
        { before with
          log := before.log.report environment.options.document
            ((Lint.badIndexType (before.store.typeName (before.store.typeOf value))).at
              positionSpan) }) := by
  have isTracked : ((before.store.builtin? (before.store.typeOf
      (.object ty (.sequence content)))).map Builtin.isSequence).getD false = true := by
    rw [Store.typeOf, tracked]
    exact sequential
  simp only [itemAt, bind_apply, store_apply, isTracked, if_true, Value.asSequence?]
  split
  · exact ⟨_, rfl⟩
  · exact ⟨_, rfl⟩

/-- An index that may be a place is evaluated, and then reported unless it has one type. -/
theorem evaluate_index_of_mayBePlace (depth : Nat) (knows : before.store.KnowsBuiltins)
    {target : Expression} {ty : Ty} {content : SequenceContent} {nature : Builtin}
    (evaluated : (atDepth depth).evaluate reach target environment before =
      .ok (.object ty (.sequence content)) between)
    (tracked : between.store.builtin? ty = some nature) (sequential : nature.isSequence = true)
    (placed : (atDepth depth).evaluate reach position environment between = .ok value after)
    (may : after.store.MayBePlace value) (span : Span) :
    ∃ selected final, (atDepth depth).evaluate reach (.index target position span) environment
        before = .ok selected final ∧
      (after.store.OfOneType value → final = after) ∧
      (¬after.store.OfOneType value → final = { after with
        log := after.log.report environment.options.document
          ((Lint.badIndexType "Unknown").at position.span) }) := by
  have follows := atDepth_shaping depth
  have first := (evaluate_keeps follows reach target).shaping.of_ok evaluated
  have second := (evaluate_keeps follows reach position).shaping.of_ok placed
  by_cases many : selectsMany position = true
  · have knowsThen := knows.of_keepsShapes (first.trans second).keeps
    obtain ⟨rfl, rfl⟩ := selectsMany_of_mayBePlace knowsThen placed may many
    refine ⟨.object ty (.sequence content), _, ?_, fun _ => rfl, fun several =>
      absurd trivial several⟩
    simp only [evaluate, bind_apply, evaluated, Value.isUnknown, Bool.false_eq_true, if_false,
      store_apply, typeIndex, many, if_true, pure_apply]
  · rw [Bool.not_eq_true] at many
    have trackedThen := Store.builtin?_of_keepsShapes second.keeps tracked
    obtain ⟨selected, taken⟩ := @itemAt_of_tracked (atDepth depth) environment after ty content
      nature trackedThen sequential value position.span span
    refine ⟨selected, _, Eq.trans ?_ taken, fun one => ?_, fun several => ?_⟩
    · simp only [evaluate, bind_apply, evaluated, Value.isUnknown, Bool.false_eq_true, if_false,
        store_apply, typeIndex, many, placed]
    · exact if_pos ((Store.isPosition_iff_ofOneType may).mpr one)
    · rw [if_neg (several ∘ (Store.isPosition_iff_ofOneType may).mp),
        Store.typeName_of_several may several]

/-- Which indices are reported although they may be places. For every list or tuple whose items are
known and every index that is not known or is an integer, whichever of its alternatives it is, the
item has a value once the list and the index have one. No bad index is reported beyond those within
the list and the index exactly if the index has one type. Otherwise it is a union without
alternatives, or one of integers of different types, and is reported as of the unknown type.

Proof: an index is judged by its type, and of a value that may be a place this is a type of integers
if it has one type, and the unknown type else. Slices are neither judged nor evaluated. -/
theorem evaluate_index_reports_iff (depth : Nat) (reach : Reach) (environment : Environment)
    {before between after : Progress} (knows : before.store.KnowsBuiltins) {target : Expression}
    {ty : Ty} {content : SequenceContent} {nature : Builtin}
    (evaluated : (atDepth depth).evaluate reach target environment before =
      .ok (.object ty (.sequence content)) between)
    (tracked : between.store.builtin? ty = some nature) (sequential : nature.isSequence = true)
    {position : Expression} {value : Value}
    (placed : (atDepth depth).evaluate reach position environment between = .ok value after)
    (may : after.store.MayBePlace value) (span : Span) :
    ∃ selected final, (atDepth depth).evaluate reach (.index target position span) environment
        before = .ok selected final ∧
      (final.log.badIndices = after.log.badIndices ↔ after.store.OfOneType value) ∧
      (after.store.OfOneType value → final = after) ∧
      (¬after.store.OfOneType value → final = { after with
        log := after.log.report environment.options.document
          ((Lint.badIndexType "Unknown").at position.span) }) := by
  obtain ⟨selected, final, returned, one, several⟩ :=
    evaluate_index_of_mayBePlace depth knows evaluated tracked sequential placed may span
  refine ⟨selected, final, returned, ⟨fun same => ?_, fun holds => by rw [one holds]⟩, one, several⟩
  by_contra other
  rw [several other, DiagnosticLog.badIndices_report] at same
  exact List.cons_ne_nil _ _ (List.append_right_eq_self.mp same)

end Engine

namespace Analyzer

/-- The display of two numbers. -/
def oneAndTwo : Expression :=
  .display .list [.constant (.int 1) .unknown, .constant (.int 2) .unknown] .unknown

/-- A truth value or a number. -/
def trueOrOne : Expression :=
  .binary (.constant (.bool true) .unknown) .or (.constant (.int 1) .unknown) .unknown

theorem evaluate_oneAndTwo :
    Engine.standard.evaluate .everything oneAndTwo Registry.environment Registry.start =
      .ok (Engine.displayed 1000 .list [.int 1, .int 2]) Registry.start :=
  rfl

/-- What is known to be an integer, since it is a constant of integers. -/
theorem isInteger_constantObject {constant : Constant}
    (integer : constant.builtin.isInteger = true) :
    Registry.start.store.IsInteger (Store.constantObject constant) :=
  ⟨_, _, _, rfl, Store.knowsBuiltins_standard constant.builtin, integer⟩

/-- A truth value may be an index, and is not reported. -/
theorem evaluate_index_reports_nothing :
    Registry.start.store.KnowsBuiltins ∧
      Engine.standard.evaluate .everything oneAndTwo Registry.environment Registry.start =
        .ok (Engine.displayed 1000 .list [.int 1, .int 2]) Registry.start ∧
      Engine.standard.evaluate .everything (.constant (.bool true) .unknown) Registry.environment
        Registry.start = .ok (Store.constantObject (.bool true)) Registry.start ∧
      Registry.start.store.MayBePlace (Store.constantObject (.bool true)) ∧
      ∃ selected, Engine.standard.evaluate .everything
        (.index oneAndTwo (.constant (.bool true) .unknown) .unknown) Registry.environment
          Registry.start = .ok selected Registry.start := by
  have knows : Registry.start.store.KnowsBuiltins := Store.knowsBuiltins_standard
  have placed : Engine.standard.evaluate .everything (.constant (.bool true) .unknown)
      Registry.environment Registry.start =
        .ok (Store.constantObject (.bool true)) Registry.start := Engine.evaluate_of_literal? rfl
  have may : Registry.start.store.MayBePlace (Store.constantObject (.bool true)) :=
    .integer (isInteger_constantObject rfl)
  obtain ⟨selected, final, returned, -, nothing, -⟩ :=
    Engine.evaluate_index_reports_iff Engine.depthLimit .everything Registry.environment knows
      evaluate_oneAndTwo (knows .list) rfl placed may .unknown
  rw [nothing trivial] at returned
  exact ⟨knows, evaluate_oneAndTwo, placed, may, selected, returned⟩

/-- A truth value or a number is an integer either way, and is reported as of the unknown type. -/
theorem integers_of_two_types_reported :
    let alternatives := [Store.constantObject (.bool true), Store.constantObject (.int 1)]
    Registry.start.store.NoOverloadIs .pending ∧
      Engine.standard.evaluate .everything trueOrOne Registry.environment Registry.start =
        .ok (.union alternatives) Registry.start ∧
      (∀ alternative ∈ alternatives, Registry.start.store.IsInteger alternative) ∧
      ∃ selected final, Engine.standard.evaluate .everything (.index oneAndTwo trueOrOne .unknown)
          Registry.environment Registry.start = .ok selected final ∧
        final.log.badIndices = Registry.start.log.badIndices ++ [trueOrOne.span] := by
  intro alternatives
  have knows : Registry.start.store.KnowsBuiltins := Store.knowsBuiltins_standard
  have apart : Registry.start.store.sameType
      (Registry.start.store.typeOf (Store.constantObject (.bool true)))
      (Registry.start.store.typeOf (Store.constantObject (.int 1))) = false := by decide +kernel
  have separate : Registry.start.store.Separate alternatives :=
    ⟨by decide, by decide, by decide +kernel⟩
  have placed : Engine.standard.evaluate .everything trueOrOne Registry.environment
      Registry.start = .ok (.union alternatives) Registry.start := by
    rw [← Store.union_of_separate separate]
    rfl
  have integers : ∀ alternative ∈ alternatives, Registry.start.store.IsInteger alternative :=
    List.forall_mem_cons.mpr ⟨isInteger_constantObject rfl,
      List.forall_mem_singleton.mpr (isInteger_constantObject rfl)⟩
  have several : ¬Registry.start.store.OfOneType (.union alternatives) := by
    intro one
    have same := one.2 (Store.constantObject (.bool true)) List.mem_cons_self
      (Store.constantObject (.int 1)) (List.mem_cons_of_mem _ List.mem_cons_self)
    exact Bool.false_ne_true (apart.symm.trans same)
  obtain ⟨selected, final, returned, -, reported⟩ :=
    Engine.evaluate_index_of_mayBePlace Engine.depthLimit knows evaluate_oneAndTwo (knows .list) rfl
      placed (.union integers) .unknown
  refine ⟨by decide +kernel, placed, integers, selected, final, returned, ?_⟩
  rw [reported several, DiagnosticLog.badIndices_report]

end Analyzer

end TypeInference
