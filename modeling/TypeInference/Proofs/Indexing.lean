import TypeInference.Proofs.Exactness

/-!
# Indices into displays

A display has the values of its first items, as many as the options allow, and knows whether these
are all. An index that is an integer designates a place among all items of the display; a negative
one counts from their end. What it selects is found among the values that there are.

These agree wherever the place can be told from the values, that is if the index is not negative or
no item was left out. A negative index into a display with more items counts from the end of the
values instead, and selects what was meant only if the item there happens to be the same
(`Engine.evaluate_index_selects_iff`).
-/

namespace TypeInference

open Analysis

/-- The place that an index designates among some items. Negative indices count from their end. -/
def designated (count : Nat) (index : Int) : Int :=
  if index < 0 then count + index else index

/-- What is meant to be selected at a place among items of which only the first ones, up to a
limit, have values. -/
structure Selects (limit count : Nat) (values : List Value) (place : Int) (selected : Value) :
    Prop where
  /-- An item that has a value is selected itself. -/
  within : 0 ≤ place → place < count → place < limit → values[place.toNat]? = some selected
  /-- The first value stands for an item that has none. -/
  beyond : limit ≤ place → place < count → selected = values.head?.getD .unknown
  /-- Outside of items that all have values nothing is known. -/
  outside : count ≤ limit → place < 0 ∨ count ≤ place → selected = .unknown

/-- Whether it makes no difference that a negative index counts from the end of the first values
and not from that of the items: either it designates no item, or the value that it reaches, or the
first one if there are too few, is the value that stands for the item. -/
def EndsAgree (limit count : Nat) (values : List Value) (index : Int) : Prop :=
  index < 0 → limit < count → 0 ≤ count + index →
    values[(limit + index).toNat]? =
      values[if count + index < limit then (count + index).toNat else 0]?

/-- A negative index and a length that is not larger than a word have a sum that fits. -/
theorem toInt_add_length {index : Int64} {length : Nat} (negative : index.toInt < 0)
    (fits : (length : Int) ≤ Int64.maxValue.toInt) :
    (index + Int64.ofNat length).toInt = index.toInt + length := by
  have largest : Int64.maxValue.toInt = 9223372036854775807 := by decide
  have smallest := index.le_toInt
  have own : (Int64.ofNat length).toInt = length := Int64.toInt_ofNat_of_lt (by omega)
  rw [Int64.toInt_add, own]
  exact Int.bmod_eq_of_le (by omega) (by omega)

namespace SequenceContent

variable {limit count : Nat} {values : List Value} {index : Int64}

theorem at?_eq (content : SequenceContent) (index : Int) :
    content.at? index = if 0 ≤ designated content.items.length index then
      content.items[(designated content.items.length index).toNat]? else none := by
  simp only [at?, designated, Int.add_comm]

/-- An integer selects the item at its place, and without one the first item if there may be
others. -/
theorem select_integer (content : SequenceContent) (index : Int64) :
    content.select (Store.constantObject (.int index)) =
      (content.at? index.toInt).getD
        (if content.exact then .unknown else content.first?.getD .unknown) := by
  have integer : (Store.constantObject (.int index)).asConstant?.bind Constant.asInt = some index :=
    rfl
  simp only [select, integer]
  cases content.at? index.toInt <;> rfl

/-- What is meant is selected if the place among the values is that among the items. -/
theorem selects_of_designated (first_values : values.length = min limit count)
    (same : designated values.length index.toInt = designated count index.toInt) :
    Selects limit count values (designated count index.toInt)
      (select ⟨values, decide (count ≤ limit)⟩ (Store.constantObject (.int index))) := by
  rw [select_integer, at?_eq]
  simp only [first?, decide_eq_true_eq, same]
  generalize designated count index.toInt = place
  constructor
  · intro nonnegative inside evaluated
    have listed : place.toNat < values.length := by omega
    rw [if_pos nonnegative, List.getElem?_eq_getElem listed, Option.getD_some]
  · intro beyond inside
    have missing : values[place.toNat]? = none := List.getElem?_eq_none (by omega)
    have truncated : ¬count ≤ limit := by omega
    rw [missing, ite_self, Option.getD_none, if_neg truncated]
  · intro complete outside
    have missing : (if 0 ≤ place then values[place.toNat]? else none) = none := by
      split
      · exact List.getElem?_eq_none (by omega)
      · rfl
    rw [missing, Option.getD_none, if_pos complete]

/-- A negative index counts from the end of the values, and no further than to the first one. -/
theorem select_of_truncated (first_values : values.length = limit) (truncated : limit < count)
    (negative : index.toInt < 0) :
    select ⟨values, decide (count ≤ limit)⟩ (Store.constantObject (.int index)) =
      values[(limit + index.toInt).toNat]?.getD .unknown := by
  have inexact : ¬count ≤ limit := by omega
  rw [select_integer, at?_eq]
  simp only [first?, decide_eq_true_eq, if_neg inexact, designated, if_pos negative, first_values]
  split
  · next nonnegative =>
    have listed : (limit + index.toInt).toNat < values.length := by omega
    rw [List.getElem?_eq_getElem listed, Option.getD_some, Option.getD_some]
  · next early =>
    have first : (limit + index.toInt).toNat = 0 := by omega
    rw [Option.getD_none, first, List.head?_eq_getElem?]

/-- That is what was meant exactly if the values at both places are the same. -/
theorem selects_truncated_iff (first_values : values.length = limit) (truncated : limit < count)
    (negative : index.toInt < 0) :
    Selects limit count values (designated count index.toInt)
        (select ⟨values, decide (count ≤ limit)⟩ (Store.constantObject (.int index))) ↔
      EndsAgree limit count values index.toInt := by
  rw [select_of_truncated first_values truncated negative, designated, if_pos negative, EndsAgree,
    forall_prop_of_true negative, forall_prop_of_true truncated]
  generalize placed : count + index.toInt = place
  have inside : place < count := by omega
  -- Without values both places are empty; otherwise the place that is read has a value.
  have read : values ≠ [] → ∃ value, values[(limit + index.toInt).toNat]? = some value := by
    intro some_value
    have positive : 0 < values.length := List.length_pos_iff.mpr some_value
    exact ⟨_, List.getElem?_eq_getElem (by omega)⟩
  constructor
  · intro selects nonnegative
    split
    · next evaluated =>
      have listed : values ≠ [] := List.ne_nil_of_length_pos (by omega)
      obtain ⟨value, found⟩ := read listed
      rw [selects.within nonnegative inside evaluated, found, Option.getD_some]
    · next late =>
      rcases values with _ | ⟨first, rest⟩
      · rfl
      · obtain ⟨value, found⟩ := read (List.cons_ne_nil _ _)
        have same := selects.beyond (by omega) inside
        rw [found, Option.getD_some] at same
        rw [found, same]
        rfl
  · intro same
    constructor
    · intro nonnegative _ evaluated
      have listed : values ≠ [] := List.ne_nil_of_length_pos (by omega)
      obtain ⟨value, found⟩ := read listed
      have equal := same nonnegative
      rw [if_pos evaluated] at equal
      rw [← equal, found, Option.getD_some]
    · intro late _
      have equal := same (by omega)
      rw [if_neg (by omega)] at equal
      rw [equal, List.head?_eq_getElem?]
    · intro complete
      omega

theorem selects_iff (first_values : values.length = min limit count) :
    Selects limit count values (designated count index.toInt)
        (select ⟨values, decide (count ≤ limit)⟩ (Store.constantObject (.int index))) ↔
      EndsAgree limit count values index.toInt := by
  by_cases negative : index.toInt < 0
  · by_cases truncated : limit < count
    · exact selects_truncated_iff (by omega) truncated negative
    · have same : values.length = count := by omega
      exact iff_of_true (selects_of_designated first_values (by rw [same]))
        fun _ shorter => absurd shorter truncated
  · have same : designated values.length index.toInt = designated count index.toInt := by
      rw [designated, designated, if_neg negative, if_neg negative]
    exact iff_of_true (selects_of_designated first_values same)
      fun isNegative => absurd isNegative negative

end SequenceContent

namespace Analysis

variable {α β : Type} {visit : α → Analysis β} {environment : Environment}
  {before after : Progress}

/-- There are as many results as items. -/
theorem length_of_each {items : List α} {results : List β}
    (returned : each visit items environment before = .ok results after) :
    results.length = items.length := by
  induction items generalizing before results with
  | nil =>
    cases returned
    rfl
  | cons item rest inductionHypothesis =>
    rw [each] at returned
    obtain ⟨result, middle, -, following⟩ := bind_eq_ok.mp returned
    obtain ⟨others, last, visited, ending⟩ := bind_eq_ok.mp following
    cases ending
    rw [List.length_cons, List.length_cons, inductionHypothesis visited]

end Analysis

namespace Engine

variable {engine : Engine} {reach : Reach} {environment : Environment}
  {before between after : Progress}

/-- The first items are evaluated one after the other, up to the limit. -/
theorem evaluateItems_eq_each (limit : Nat) (items : List Expression) :
    engine.evaluateItems reach limit items = each (engine.evaluate reach) (items.take limit) := by
  induction items generalizing limit with
  | nil => cases limit <;> rfl
  | cons item rest inductionHypothesis =>
    cases limit with
    | zero => rfl
    | succ limit =>
      rw [evaluateItems, inductionHypothesis, List.take_succ_cons, each]

/-- A display has the values of its first items, and is exact if these are all. -/
theorem evaluate_display_eq_ok {kind : DisplayKind} {items : List Expression} {span : Span}
    {value : Value} :
    engine.evaluate reach (.display kind items span) environment before = .ok value after ↔
      ∃ values, each (engine.evaluate reach) (items.take environment.options.maxCollectionSize)
          environment before = .ok values after ∧
        value = .object (Store.builtinType kind.builtin) (.sequence
          ⟨values, decide (items.length ≤ environment.options.maxCollectionSize)⟩) := by
  rw [evaluate, bind_of_ok (options_apply environment before), ← evaluateItems_eq_each]
  constructor
  · intro returned
    obtain ⟨values, last, visited, ending⟩ := bind_eq_ok.mp returned
    cases ending
    exact ⟨values, visited, rfl⟩
  · rintro ⟨values, visited, rfl⟩
    exact bind_eq_ok.mpr ⟨values, after, visited, rfl⟩

/-- What is an integer is neither a slice nor a tuple. -/
theorem selectsMany_of_integer {expression : Expression} {index : Int64}
    (evaluated : engine.evaluate reach expression environment before =
      .ok (Store.constantObject (.int index)) after) : selectsMany expression = false := by
  cases expression with
  | slice lower upper step span =>
    rw [evaluate] at evaluated
    cases evaluated
  | display kind items span =>
    obtain ⟨values, -, same⟩ := evaluate_display_eq_ok.mp evaluated
    cases (Value.object.inj same).2
  | _ => rfl

/-- The item of a list or a tuple at an integer is selected from its content. -/
theorem itemAt_of_integer (knows : before.store.KnowsBuiltins) {kind : DisplayKind}
    (proper : kind ≠ .set) (content : SequenceContent) (index : Int64) (positionSpan span : Span) :
    engine.itemAt (.object (Store.builtinType kind.builtin) (.sequence content))
        (Store.constantObject (.int index)) positionSpan span environment before =
      .ok (content.select (Store.constantObject (.int index))) before := by
  have sequential : ((before.store.builtin? (before.store.typeOf
      (.object (Store.builtinType kind.builtin) (.sequence content)))).map
        Builtin.isSequence).getD false = true := by
    simp only [Store.typeOf, knows kind.builtin]
    cases kind with
    | list | tuple => rfl
    | set => exact absurd rfl proper
  have integral : before.store.isPosition (Store.constantObject (.int index)) = true := by
    have nature := knows .int
    simp only [Store.isPosition, Store.constantObject, Constant.builtin, Store.typeOf, nature]
    rfl
  simp only [itemAt, bind_apply, store_apply, sequential, if_true, Value.asSequence?, integral,
    pure_apply]

/-- An index into a list or a tuple that is an integer selects from its content. -/
theorem evaluate_index_of_sequence (depth : Nat) (knows : before.store.KnowsBuiltins)
    {kind : DisplayKind} (proper : kind ≠ .set) {target position : Expression}
    {content : SequenceContent} {index : Int64}
    (evaluated : (Engine.atDepth depth).evaluate reach target environment before =
      .ok (.object (Store.builtinType kind.builtin) (.sequence content)) between)
    (placed : (Engine.atDepth depth).evaluate reach position environment between =
      .ok (Store.constantObject (.int index)) after) (span : Span) :
    (Engine.atDepth depth).evaluate reach (.index target position span) environment before =
      .ok (content.select (Store.constantObject (.int index))) after := by
  have follows := atDepth_shaping depth
  have shapes := ((evaluate_keeps follows reach target).shaping.of_ok evaluated).trans
    ((evaluate_keeps follows reach position).shaping.of_ok placed)
  simp only [evaluate, bind_apply, evaluated, Value.isUnknown, Bool.false_eq_true, if_false,
    store_apply, typeIndex, selectsMany_of_integer placed, placed,
    itemAt_of_integer (knows.of_keepsShapes shapes.keeps) proper]

/-- What an integer selects from a list or a tuple that is displayed. Whatever the items are and
however many of them the options allow, the index has a value once the display and the position
have one. It is what is meant at the designated place if the index is not negative or all items
have values, and for a negative index into a display with more items exactly if counting from the
end of the values comes to the same. The place is computed within 64 bits.

Proof: the display gives the values of its first items, and what is evaluated for the position
leaves the natures of builtin types as they are. So the value is selected from these values, where a
place that is told from the front is the one among all items, and one that is told from the end is
so if the ends are the same. -/
theorem evaluate_index_selects_iff (depth : Nat) (reach : Reach) (environment : Environment)
    {before between after : Progress} (knows : before.store.KnowsBuiltins) {kind : DisplayKind}
    (proper : kind ≠ .set) {items : List Expression} {inner : Span} {container : Value}
    (displayed : (Engine.atDepth depth).evaluate reach (.display kind items inner) environment
      before = .ok container between) {position : Expression} {index : Int64}
    (placed : (Engine.atDepth depth).evaluate reach position environment between =
      .ok (Store.constantObject (.int index)) after) (span : Span) :
    ∃ values selected,
      each ((Engine.atDepth depth).evaluate reach)
        (items.take environment.options.maxCollectionSize) environment before =
          .ok values between ∧
      (Engine.atDepth depth).evaluate reach (.index (.display kind items inner) position span)
        environment before = .ok selected after ∧
      (0 ≤ index.toInt ∨ items.length ≤ environment.options.maxCollectionSize →
        Selects environment.options.maxCollectionSize items.length values
          (designated items.length index.toInt) selected) ∧
      (Selects environment.options.maxCollectionSize items.length values
          (designated items.length index.toInt) selected ↔
        EndsAgree environment.options.maxCollectionSize items.length values index.toInt) ∧
      (index.toInt < 0 → (values.length : Int) ≤ Int64.maxValue.toInt →
        (index + Int64.ofNat values.length).toInt = index.toInt + values.length) := by
  obtain ⟨values, visited, rfl⟩ := evaluate_display_eq_ok.mp displayed
  have first_values : values.length =
      min environment.options.maxCollectionSize items.length := by
    rw [length_of_each visited, List.length_take]
  have selects := @SequenceContent.selects_iff _ _ values index first_values
  have evaluated := evaluate_index_of_sequence depth knows proper displayed placed span
  refine ⟨values, _, visited, evaluated, ?_, selects, toInt_add_length⟩
  intro told
  rw [selects]
  intro negative truncated
  omega

end Engine

namespace Analyzer

/-- The registered names, with another limit for displays. -/
def limitedTo (limit : Nat) : Environment :=
  ⟨Registry.environment.registry, { maxCollectionSize := limit }⟩

/-- The display of three numbers. -/
def threeNumbers : Expression :=
  .display .list [.constant (.int 1) .unknown, .constant (.int 2) .unknown,
    .constant (.int 3) .unknown] .unknown

/-- A negative literal. -/
def minus (value : Int64) : Expression :=
  .unary .negate (.constant (.int value) .unknown) .unknown

theorem evaluate_threeNumbers :
    Engine.standard.evaluate .everything threeNumbers (limitedTo 2) Registry.start =
      .ok (Engine.displayed 2 .list [.int 1, .int 2, .int 3]) Registry.start :=
  rfl

/-- The third item from the end is the first one, also where the third one has no value. -/
theorem evaluate_index_selects_first :
    Registry.start.store.KnowsBuiltins ∧ DisplayKind.list ≠ .set ∧
      Engine.standard.evaluate .everything (minus 3) (limitedTo 2) Registry.start =
        .ok (Store.constantObject (.int (-3))) Registry.start ∧
      ∃ values selected,
        Engine.standard.evaluate .everything (.index threeNumbers (minus 3) .unknown) (limitedTo 2)
          Registry.start = .ok selected Registry.start ∧
        Selects 2 3 values 0 selected := by
  have knows : Registry.start.store.KnowsBuiltins := Store.knowsBuiltins_standard
  have placed : Engine.standard.evaluate .everything (minus 3) (limitedTo 2) Registry.start =
      .ok (Store.constantObject (.int (-3))) Registry.start := Engine.evaluate_of_literal? rfl
  obtain ⟨values, selected, -, evaluated, -, selects, -⟩ :=
    Engine.evaluate_index_selects_iff Engine.depthLimit .everything (limitedTo 2) knows
      (by decide) evaluate_threeNumbers placed .unknown
  exact ⟨knows, by decide, placed, values, selected, evaluated, selects.mpr fun _ _ _ => rfl⟩

/-- Of three items only the first two have values, and the last one from the end is taken to be the
second one. What is meant is the third one, for which the first value should stand. -/
theorem last_item_mistaken :
    Engine.standard.evaluate .everything (.index threeNumbers (minus 1) .unknown) (limitedTo 2)
        Registry.start = .ok (Store.constantObject (.int 2)) Registry.start ∧
      ¬Selects 2 3 ([.int 1, .int 2].map Store.constantObject) (designated 3 (-1))
        (Store.constantObject (.int 2)) := by
  have knows : Registry.start.store.KnowsBuiltins := Store.knowsBuiltins_standard
  have placed : Engine.standard.evaluate .everything (minus 1) (limitedTo 2) Registry.start =
      .ok (Store.constantObject (.int (-1))) Registry.start := Engine.evaluate_of_literal? rfl
  refine ⟨Engine.evaluate_index_of_sequence Engine.depthLimit knows (by decide)
    evaluate_threeNumbers placed .unknown, fun selects => ?_⟩
  have same : Store.constantObject (.int 2) = Store.constantObject (.int 1) :=
    selects.beyond (by decide) (by decide)
  cases Engine.constantObject_injective same

end Analyzer

end TypeInference
