import TypeInference.Proofs.Shapes
import TypeInference.Proofs.Standard

/-!
# What exact contents are worth

Lists and tuples are written as displays of constants, joined, repeated and cut into slices. The
language gives every such expression its contents; evaluation gives it the contents of one of its
displays, the one it starts from, since sums and products hand on an operand and slices the
container as it is. Such contents are marked as exact whenever that display is short enough. So
the mark is right for the expressions whose contents are those of that display, and for no others.
-/

namespace TypeInference

open Analysis

/-- Some items over and over, and never for a count below one. -/
def repeated {α : Type} (count : Int) (items : List α) : List α :=
  (List.replicate count.toNat items).flatten

/-- Once is as often as it was. -/
theorem repeated_one {α : Type} (items : List α) : repeated 1 items = items := by
  simp [repeated]

/-- The place that a bound of a slice means among some places. Negative bounds count from the end;
bounds outside mean the nearest end. -/
def boundPlace (length first last bound : Int) : Int :=
  max first (min last (if bound < 0 then bound + length else bound))

/-- The items that a slice selects, from its lower bound on and before its upper one. Negative
steps go backwards. Without a bound it goes to the end; there is no slice in steps of zero. -/
def sliced {α : Type} (items : List α) (lower upper : Option Int) (step : Int) :
    Option (List α) :=
  let length : Int := items.length
  if step = 0 then none
  else if 0 < step then
    let start := (lower.map (boundPlace length 0 length)).getD 0
    let stop := (upper.map (boundPlace length 0 length)).getD length
    let selected := items.zipIdx.filter fun (_, place) =>
      decide (start ≤ place ∧ place < stop ∧ (place - start) % step = 0)
    some (selected.map Prod.fst)
  else
    let start := (lower.map (boundPlace length (-1) (length - 1))).getD (length - 1)
    let stop := (upper.map (boundPlace length (-1) (length - 1))).getD (-1)
    let selected := items.zipIdx.reverse.filter fun (_, place) =>
      decide (stop < place ∧ place ≤ start ∧ (start - place) % (-step) = 0)
    some (selected.map Prod.fst)

/-- A slice without bounds selects everything. -/
theorem sliced_everything {α : Type} (items : List α) : sliced items none none 1 = some items := by
  have every : items.zipIdx.filter (fun (_, place) =>
      decide (0 ≤ (place : Int) ∧ (place : Int) < items.length ∧ ((place : Int) - 0) % 1 = 0)) =
      items.zipIdx := by
    rw [List.filter_eq_self]
    rintro ⟨item, place⟩ member
    have inside := (List.mem_zipIdx' member).1
    simp only [decide_eq_true_eq]
    omega
  simp only [sliced, Option.map_none, Option.getD_none]
  rw [if_neg (by decide), if_pos (by decide), every, List.zipIdx_map_fst]

example : sliced [10, 20, 30, 40] (some 1) none 1 = some [20, 30, 40] := by decide
example : sliced [10, 20, 30, 40] (some (-1)) (some 0) (-2) = some [40, 20] := by decide

namespace Expression

/-- The constant that an expression writes down: a literal, with a sign or without. -/
def literal? : Expression → Option Constant
  | .constant value _ => some value
  | .unary operator (.constant value _) _ => Engine.foldUnary operator value
  | _ => none

/-- The integer that an expression writes down. -/
def integer? (expression : Expression) : Option Int :=
  match expression.literal? with
  | some (.int value) => some value.toInt
  | _ => none

/-- The bound of a slice that may be missing and is an integer otherwise. -/
def IsBound : Option Expression → Option Int → Prop
  | none, none => True
  | some expression, some bound => expression.integer? = some bound
  | _, _ => False

/-- An expression that the language gives a list or a tuple of constants: displays of constants,
sums of two lists or of two tuples, products with an integer on either side, and slices with
integers as bounds. -/
inductive Denotes : Expression → DisplayKind → List Constant → Prop where
  | display {kind : DisplayKind} {items : List Expression} {constants : List Constant}
      {span : Span} (proper : kind ≠ .set) (literals : items.map literal? = constants.map some) :
      Denotes (.display kind items span) kind constants
  | sum {left right : Expression} {kind : DisplayKind} {first second : List Constant}
      {span : Span} (joins : Denotes left kind first) (joined : Denotes right kind second) :
      Denotes (.binary left .add right span) kind (first ++ second)
  | product {left right : Expression} {kind : DisplayKind} {constants : List Constant}
      {count : Int} {span : Span} (repeats : Denotes left kind constants)
      (counts : right.integer? = some count) :
      Denotes (.binary left .multiply right span) kind (repeated count constants)
  | multiple {left right : Expression} {kind : DisplayKind} {constants : List Constant}
      {count : Int} {span : Span} (counts : left.integer? = some count)
      (repeats : Denotes right kind constants) :
      Denotes (.binary left .multiply right span) kind (repeated count constants)
  | slice {target : Expression} {lower upper step : Option Expression} {kind : DisplayKind}
      {constants selected : List Constant} {first last stride : Option Int} {inner span : Span}
      (cuts : Denotes target kind constants) (below : IsBound lower first)
      (above : IsBound upper last) (strides : IsBound step stride)
      (selects : sliced constants first last (stride.getD 1) = some selected) :
      Denotes (.index target (.slice lower upper step inner) span) kind selected

/-- The constants of the display that an expression starts from. -/
def leading : Expression → List Constant
  | .display _ items _ => items.filterMap literal?
  | .binary left .multiply right _ =>
    if left.integer?.isSome then right.leading else left.leading
  | .binary left _ _ _ => left.leading
  | .index target _ _ => target.leading
  | _ => []

/-- Sums with nothing, products with one and slices of everything leave contents as they are. -/
inductive Keeps : Expression → Prop where
  | display {kind : DisplayKind} {items : List Expression} {span : Span} :
      Keeps (.display kind items span)
  | sum {left right : Expression} {kind : DisplayKind} {span : Span} (kept : Keeps left)
      (nothing : Denotes right kind []) : Keeps (.binary left .add right span)
  | product {left right : Expression} {span : Span} (kept : Keeps left)
      (once : right.integer? = some 1) : Keeps (.binary left .multiply right span)
  | multiple {left right : Expression} {span : Span} (once : left.integer? = some 1)
      (kept : Keeps right) : Keeps (.binary left .multiply right span)
  | slice {target : Expression} {inner span : Span} (kept : Keeps target) :
      Keeps (.index target (.slice none none none inner) span)

end Expression

namespace Store

variable {store : Store}

/-- The builtin types are of the natures that they are called by. -/
def KnowsBuiltins (store : Store) : Prop :=
  ∀ builtin, store.builtin? (builtinType builtin) = some builtin

/-- So they are before any analysis. -/
theorem knowsBuiltins_standard : Registry.standard.store.KnowsBuiltins := by
  intro builtin
  cases builtin <;> decide +kernel

/-- The nature of a type stays once it has one, since classes keep their shapes. -/
theorem builtin?_of_keepsShapes {after : Store} (keeps : store.KeepsShapes after) {ty : Ty}
    {builtin : Builtin} (known : store.builtin? ty = some builtin) :
    after.builtin? ty = some builtin := by
  cases ty with
  | cls id =>
    have present : store.HasClass id := by
      by_contra absent
      rw [builtin?, classAt_of_not_hasClass store _ absent] at known
      cases known
    have same := congrArg ClassRecord.builtin (keeps.shapes _ present)
    exact same.trans known
  | function _ => exact known
  | unknown | parameter _ | marker _ => cases known

/-- And they stay so. -/
theorem KnowsBuiltins.of_keepsShapes {after : Store} (knows : store.KnowsBuiltins)
    (keeps : store.KeepsShapes after) : after.KnowsBuiltins :=
  fun builtin => builtin?_of_keepsShapes keeps (knows builtin)

/-- So no analysis of a module changes it, whatever comes of that. -/
theorem KnowsBuiltins.after_ofModuleWithin {environment : Environment} {before : Progress}
    (knows : before.store.KnowsBuiltins) (depth : Nat) (module : Module) :
    ((Analysis.ofModuleWithin depth module).after environment before).store.KnowsBuiltins :=
  knows.of_keepsShapes ((Analysis.ofModuleWithin_keeps depth (Engine.atDepth_shaping depth)
    module).shaping.onwards trivial environment before).keeps

end Store

namespace Expression

variable {expression : Expression} {kind : DisplayKind} {constants : List Constant}

/-- Only lists and tuples are denoted. -/
theorem Denotes.proper (denotes : expression.Denotes kind constants) : kind ≠ .set := by
  induction denotes with
  | display proper _ => exact proper
  | sum _ _ kept _ => exact kept
  | product _ _ kept => exact kept
  | multiple _ _ kept => exact kept
  | slice _ _ _ _ _ kept => exact kept

/-- What denotes a list or a tuple is no integer. -/
theorem Denotes.integer? (denotes : expression.Denotes kind constants) :
    expression.integer? = none := by
  cases denotes <;> rfl

/-- The literals of a display are its constants. -/
theorem filterMap_literal? {items : List Expression}
    (literals : items.map literal? = constants.map some) : items.filterMap literal? = constants := by
  calc items.filterMap literal?
      = (items.map literal?).filterMap id := by rw [List.filterMap_map]; rfl
    _ = constants := by rw [literals, List.filterMap_map]; exact List.filterMap_some

/-- A bound is one number at most. -/
theorem IsBound.unique : ∀ {bound : Option Expression} {first second : Option Int},
    IsBound bound first → IsBound bound second → first = second
  | none, none, none, _, _ => rfl
  | some _, some _, some _, one, other => one.symm.trans other

/-- A bound that is missing is no number. -/
theorem IsBound.eq_none {bound : Option Int} (missing : IsBound none bound) : bound = none := by
  cases bound with
  | none => rfl
  | some _ => exact missing.elim

/-- An expression denotes one list or tuple at most. -/
theorem Denotes.unique {other : DisplayKind} {found : List Constant}
    (denotes : expression.Denotes kind constants) (also : expression.Denotes other found) :
    kind = other ∧ constants = found := by
  induction denotes generalizing other found with
  | display _ literals =>
    cases also with
    | display _ others =>
      exact ⟨rfl, (filterMap_literal? literals).symm.trans (filterMap_literal? others)⟩
  | sum _ _ left right =>
    cases also with
    | sum joins joined => exact ⟨(left joins).1, by rw [(left joins).2, (right joined).2]⟩
  | product repeats counts left =>
    cases also with
    | product again count =>
      obtain ⟨same, rfl⟩ := left again
      exact ⟨same, by rw [Option.some.inj (counts.symm.trans count)]⟩
    | multiple count _ => rw [repeats.integer?] at count; cases count
  | multiple counts _ right =>
    cases also with
    | product again _ => rw [again.integer?] at counts; cases counts
    | multiple count again =>
      obtain ⟨same, rfl⟩ := right again
      exact ⟨same, by rw [Option.some.inj (counts.symm.trans count)]⟩
  | slice _ below above strides selects target =>
    cases also with
    | slice cuts low high step chosen =>
      obtain ⟨same, rfl⟩ := target cuts
      obtain rfl := below.unique low
      obtain rfl := above.unique high
      obtain rfl := strides.unique step
      exact ⟨same, Option.some.inj (selects.symm.trans chosen)⟩

/-- What the operations keep is what they started from. -/
theorem leading_of_keeps (denotes : expression.Denotes kind constants)
    (keeps : expression.Keeps) : expression.leading = constants := by
  induction denotes with
  | display _ literals => exact filterMap_literal? literals
  | sum _ joined kept _ =>
    cases keeps with
    | sum keeps nothing =>
      obtain ⟨-, rfl⟩ := nothing.unique joined
      rw [List.append_nil]
      exact kept keeps
  | product repeats counts kept =>
    cases keeps with
    | product keeps once =>
      obtain rfl := Option.some.inj (counts.symm.trans once)
      rw [leading, repeats.integer?, repeated_one]
      exact kept keeps
    | multiple once _ => rw [repeats.integer?] at once; cases once
  | multiple counts repeats kept =>
    cases keeps with
    | product keeps once => rw [repeats.integer?] at once; cases once
    | multiple once keeps =>
      obtain rfl := Option.some.inj (counts.symm.trans once)
      rw [leading, counts, repeated_one]
      exact kept keeps
  | slice cuts below above strides selects kept =>
    cases keeps with
    | slice keeps =>
      obtain rfl := below.eq_none
      obtain rfl := above.eq_none
      obtain rfl := strides.eq_none
      rw [Option.getD_none, sliced_everything] at selects
      exact (kept keeps).trans (Option.some.inj selects)

end Expression

namespace Engine

variable {engine : Engine} {reach : Reach} {environment : Environment} {before : Progress}

open Expression

/-- A literal has the value that it writes down. -/
theorem evaluate_of_literal? {expression : Expression} {constant : Constant}
    (literal : expression.literal? = some constant) :
    engine.evaluate reach expression environment before =
      .ok (Store.constantObject constant) before := by
  unfold literal? at literal
  split at literal
  · cases literal
    rfl
  · rename_i operator value inner _
    have proper : operator ≠ .not := by
      rintro rfl
      cases literal
    have known : (Store.constantObject value).isUnknown = false := rfl
    have folded : (Store.constantObject value).asConstant?.bind (foldUnary operator) =
        some constant := literal
    simp only [evaluate, applyUnary, bind_apply, pure_apply, store_apply, if_neg proper, known,
      folded, Bool.false_eq_true, if_false]
  · cases literal

/-- The items of a display of literals are their constants, up to the limit. -/
theorem evaluateItems_of_literals (limit : Nat) {items : List Expression}
    {constants : List Constant} (literals : items.map literal? = constants.map some) :
    engine.evaluateItems reach limit items environment before =
      .ok ((constants.take limit).map Store.constantObject) before := by
  induction items generalizing limit constants with
  | nil =>
    obtain rfl : constants = [] := by simpa using literals.symm
    cases limit <;> rfl
  | cons item rest inductionHypothesis =>
    cases constants with
    | nil => cases literals
    | cons constant others =>
      obtain ⟨first, further⟩ := List.cons.inj literals
      cases limit with
      | zero => rfl
      | succ limit =>
        simp only [evaluateItems, bind_apply, evaluate_of_literal? first,
          inductionHypothesis limit further, pure_apply, List.take_succ_cons, List.map_cons]

/-- The list or tuple that a display of constants gives. -/
def displayed (limit : Nat) (kind : DisplayKind) (constants : List Constant) : Value :=
  .object (Store.builtinType kind.builtin)
    (.sequence ⟨(constants.take limit).map Store.constantObject,
      decide (constants.length ≤ limit)⟩)

/-- The operators on builtin operands follow the rules for their types. -/
theorem applyBinary_of_builtins (knows : before.store.KnowsBuiltins) {operator : BinaryOperator}
    (arithmetic : operator.isLogical = false ∧ operator.isComparison = false)
    (first second : Builtin) (left right : Content) (span : Span) :
    engine.applyBinary operator (.object (Store.builtinType first) left)
        (.object (Store.builtinType second) right) span environment before =
      .ok (match OperationResult.of first operator second with
        | .objectOf builtin => before.store.builtinObject builtin
        | .left => .object (Store.builtinType first) left
        | .right => .object (Store.builtinType second) right
        | .unsupported | .unknown => .unknown) before := by
  have nature : ∀ builtin content, before.store.builtin?
      (before.store.typeOf (.object (Store.builtinType builtin) content)) = some builtin :=
    fun builtin _ => knows builtin
  simp only [applyBinary, bind_apply, store_apply, arithmetic.1, arithmetic.2, Value.isUnknown,
    Bool.or_self, Bool.false_eq_true, if_false, nature]
  cases OperationResult.of first operator second <;> rfl

/-- The sum of two lists or of two tuples is the first one. -/
theorem applyBinary_sum (knows : before.store.KnowsBuiltins) {kind : DisplayKind}
    (proper : kind ≠ .set) (limit : Nat) (first second : List Constant) (span : Span) :
    engine.applyBinary .add (displayed limit kind first) (displayed limit kind second) span
      environment before = .ok (displayed limit kind first) before := by
  rw [displayed, displayed, applyBinary_of_builtins knows ⟨rfl, rfl⟩]
  cases kind <;> first | rfl | exact absurd rfl proper

/-- The product of a list or a tuple with an integer is the list or the tuple. -/
theorem applyBinary_product (knows : before.store.KnowsBuiltins) {kind : DisplayKind}
    (proper : kind ≠ .set) (limit : Nat) (constants : List Constant) (count : Int64)
    (span : Span) :
    engine.applyBinary .multiply (displayed limit kind constants)
      (Store.constantObject (.int count)) span environment before =
        .ok (displayed limit kind constants) before := by
  rw [displayed, Store.constantObject, applyBinary_of_builtins knows ⟨rfl, rfl⟩]
  cases kind <;> first | rfl | exact absurd rfl proper

/-- And so it is the other way around. -/
theorem applyBinary_multiple (knows : before.store.KnowsBuiltins) {kind : DisplayKind}
    (proper : kind ≠ .set) (limit : Nat) (constants : List Constant) (count : Int64)
    (span : Span) :
    engine.applyBinary .multiply (Store.constantObject (.int count))
      (displayed limit kind constants) span environment before =
        .ok (displayed limit kind constants) before := by
  rw [displayed, Store.constantObject, applyBinary_of_builtins knows ⟨rfl, rfl⟩]
  cases kind <;> first | rfl | exact absurd rfl proper

/-- An integer that is written down is the value of its expression. -/
theorem evaluate_of_integer? (engine : Engine) (reach : Reach) (environment : Environment)
    (before : Progress) {expression : Expression} {count : Int}
    (counts : expression.integer? = some count) :
    ∃ value, engine.evaluate reach expression environment before =
      .ok (Store.constantObject (.int value)) before := by
  unfold integer? at counts
  split at counts
  · rename_i value literal
    exact ⟨value, evaluate_of_literal? literal⟩
  · cases counts

/-- An expression has the value of the display that it starts from. -/
theorem evaluate_of_denotes (knows : before.store.KnowsBuiltins) {expression : Expression}
    {kind : DisplayKind} {constants : List Constant}
    (denotes : expression.Denotes kind constants) :
    engine.evaluate reach expression environment before =
      .ok (displayed environment.options.maxCollectionSize kind expression.leading) before := by
  induction denotes with
  | @display kind items constants span proper literals =>
    have same : items.length = constants.length := by
      rw [← List.length_map literal?, literals, List.length_map]
    simp only [evaluate, bind_apply, options_apply, pure_apply, displayed, leading,
      evaluateItems_of_literals _ literals, filterMap_literal? literals, same]
  | sum joins joined first second =>
    simp only [evaluate, bind_apply, first, second, applyBinary_sum knows joins.proper, leading]
  | product repeats counts kept =>
    obtain ⟨count, value⟩ := evaluate_of_integer? engine reach environment before counts
    simp only [evaluate, bind_apply, kept, value, applyBinary_product knows repeats.proper,
      leading, repeats.integer?, Option.isSome_none, Bool.false_eq_true, if_false]
  | multiple counts repeats kept =>
    obtain ⟨count, value⟩ := evaluate_of_integer? engine reach environment before counts
    simp only [evaluate, bind_apply, kept, value, applyBinary_multiple knows repeats.proper,
      leading, counts, Option.isSome_some, if_true]
  | slice cuts below above strides selects kept =>
    simp only [evaluate, bind_apply, kept, displayed, Value.isUnknown, Bool.false_eq_true,
      if_false, store_apply, typeIndex, selectsMany, if_true, leading, pure_apply]
    rfl

/-- Different constants are different objects. -/
theorem constantObject_injective : Function.Injective Store.constantObject := by
  intro one other same
  injection same with _ contents
  injection contents

/-- Exact contents are complete if the display that an expression starts from is the whole of
what it denotes, and otherwise they are not. In every state the evaluation of the expression gives
a list or a tuple of its kind and changes nothing. Its contents are marked as exact if that
display is within the limit, and then they are what the expression denotes, constant by constant
and in order, exactly if the constants of that display are. Sums with nothing, products with one
and slices without bounds see to it that they are. -/
theorem exact_contents_complete_iff (engine : Engine) (reach : Reach) (environment : Environment)
    {before : Progress} (knows : before.store.KnowsBuiltins)
    {expression : Expression} {kind : DisplayKind} {constants : List Constant}
    (denotes : expression.Denotes kind constants) :
    ∃ content : SequenceContent,
      engine.evaluate reach expression environment before =
        .ok (.object (Store.builtinType kind.builtin) (.sequence content)) before ∧
      (content.exact = true ↔
        expression.leading.length ≤ environment.options.maxCollectionSize) ∧
      (content.exact = true →
        (content.items = constants.map Store.constantObject ↔
          expression.leading = constants)) ∧
      (expression.Keeps → expression.leading = constants) := by
  refine ⟨_, evaluate_of_denotes knows denotes, decide_eq_true_iff, ?_, leading_of_keeps denotes⟩
  intro isExact
  have short : expression.leading.length ≤ environment.options.maxCollectionSize :=
    of_decide_eq_true isExact
  rw [List.take_of_length_le short]
  exact (List.map_injective_iff.mpr constantObject_injective).eq_iff

end Engine

namespace Analyzer

/-- The display of two numbers. -/
def twoNumbers : Expression :=
  .display .list [.constant (.int 1) .unknown, .constant (.int 2) .unknown] .unknown

/-- The display of no items. -/
def noNumbers : Expression :=
  .display .list [] .unknown

/-- Two numbers after operations that leave them as they are. -/
def keptNumbers : Expression :=
  .index
    (.binary (.constant (.int 1) .unknown) .multiply
      (.binary twoNumbers .add noNumbers .unknown) .unknown)
    (.slice none none none .unknown) .unknown

/-- A slice from end to end of a product with one of a sum with nothing has exact contents, and
they are complete. -/
theorem exact_contents_complete_kept :
    Registry.start.store.KnowsBuiltins ∧ keptNumbers.Denotes .list [.int 1, .int 2] ∧
      ∃ content : SequenceContent,
        Engine.standard.evaluate .everything keptNumbers Registry.environment Registry.start =
          .ok (.object (Store.builtinType .list) (.sequence content)) Registry.start ∧
        content.exact = true ∧
        content.items = [.int 1, .int 2].map Store.constantObject := by
  have two : twoNumbers.Denotes .list [.int 1, .int 2] := .display (by decide) rfl
  have nothing : noNumbers.Denotes .list [] := .display (by decide) rfl
  have denotes : keptNumbers.Denotes .list [.int 1, .int 2] :=
    .slice (.multiple rfl (.sum two nothing)) (show Expression.IsBound none none from trivial)
      (show Expression.IsBound none none from trivial)
      (show Expression.IsBound none none from trivial) (sliced_everything _)
  have keeps : keptNumbers.Keeps := .slice (.multiple rfl (.sum .display nothing))
  have knows : Registry.start.store.KnowsBuiltins := Store.knowsBuiltins_standard
  obtain ⟨content, evaluated, short, complete, kept⟩ := Engine.exact_contents_complete_iff
    Engine.standard .everything Registry.environment knows denotes
  have isExact : content.exact = true := short.mpr (by decide)
  exact ⟨knows, denotes, content, evaluated, isExact, (complete isExact).mpr (kept keeps)⟩

/-- The sum of a list of one number and another one. -/
def sumOfLists : Expression :=
  .binary (.display .list [.constant (.int 1) .unknown] .unknown) .add
    (.display .list [.constant (.int 2) .unknown] .unknown) .unknown

/-- Exact contents need not be complete: the sum of two lists of one number each is given the
contents of the first one, and they are marked as exact. -/
theorem exact_sum_incomplete :
    sumOfLists.Denotes .list [.int 1, .int 2] ∧
      Engine.standard.evaluate .everything sumOfLists Registry.environment Registry.start =
        .ok (.object (Store.builtinType .list)
          (.sequence ⟨[Store.constantObject (.int 1)], true⟩)) Registry.start ∧
      [Store.constantObject (.int 1)] ≠ [.int 1, .int 2].map Store.constantObject := by
  have one : Expression.Denotes (.display .list [.constant (.int 1) .unknown] .unknown) .list
      [.int 1] := .display (by decide) rfl
  have other : Expression.Denotes (.display .list [.constant (.int 2) .unknown] .unknown) .list
      [.int 2] := .display (by decide) rfl
  have denotes : sumOfLists.Denotes .list [.int 1, .int 2] := .sum one other
  have knows : Registry.start.store.KnowsBuiltins := Store.knowsBuiltins_standard
  have evaluated : Engine.standard.evaluate .everything sumOfLists Registry.environment
      Registry.start = .ok (Engine.displayed 1000 .list [.int 1]) Registry.start :=
    Engine.evaluate_of_denotes knows denotes
  exact ⟨denotes, evaluated, fun same => absurd (congrArg List.length same) (by decide)⟩

end Analyzer

end TypeInference
