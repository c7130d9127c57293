import TypeInference.Proofs.Indexing

/-!
# Displays of mappings

A mapping that is displayed is made entry by entry. An entry whose key is a constant that is there
already replaces the value of that key, and every other entry is added. So keys stand in the order
of their first occurrence and have the value of their last one (`Engine.evaluate_dict_keeps_last`).
Sameness of constants is an equivalence, also for what is no number and for the two zeros.

The mapping can be made with an index of its constant keys, so that no entry has to be searched for.
The index says of each constant where the first entry of that key stands, and stays so with every
entry that is added.
-/

namespace TypeInference

open Analysis

namespace Constant

/-- The constant that stands for all that are the same. -/
def representative : Constant → Constant
  | .float number => .float ⟨number.representative⟩
  | constant => constant

theorem beq_iff {one other : Constant} :
    (one == other) = true ↔ one.representative = other.representative := by
  change same one other = true ↔ _
  cases one with
  | float number =>
    cases other with
    | float second =>
      change (number.representative == second.representative) = true ↔ _
      simp [representative]
    | _ => simp [same, representative]
  | _ => cases other <;> simp [same, representative]

instance : EquivBEq Constant where
  rfl := beq_iff.mpr rfl
  symm same := beq_iff.mpr (beq_iff.mp same).symm
  trans first second := beq_iff.mpr ((beq_iff.mp first).trans (beq_iff.mp second))

end Constant

/-- Whether two values are the same constant. -/
def Value.sameConstant (one other : Value) : Bool :=
  match one.asConstant? with
  | some constant => MappingContent.isKey constant other
  | none => false

namespace MappingContent

variable {one other : Value} {key : Constant}

theorem sameConstant_of_keyed (keyed : one.asConstant? = some key) (other : Value) :
    one.sameConstant other = isKey key other := by
  rw [Value.sameConstant, keyed]

/-- What is a key is a constant. -/
theorem exists_of_isKey (asked : isKey key one = true) :
    ∃ constant, one.asConstant? = some constant ∧ (constant == key) = true := by
  rw [isKey] at asked
  cases found : one.asConstant? with
  | none =>
    rw [found] at asked
    cases asked
  | some constant =>
    rw [found] at asked
    exact ⟨constant, rfl, asked⟩

/-- What are the same constant are constants. -/
theorem exists_of_sameConstant (same : one.sameConstant other = true) :
    ∃ first second, one.asConstant? = some first ∧ other.asConstant? = some second ∧
      (second == first) = true := by
  cases found : one.asConstant? with
  | none =>
    rw [Value.sameConstant, found] at same
    cases same
  | some first =>
    rw [sameConstant_of_keyed found] at same
    obtain ⟨second, keyed, equal⟩ := exists_of_isKey same
    exact ⟨first, second, rfl, keyed, equal⟩

/-- The same constants are the same key. -/
theorem isKey_congr (same : one.sameConstant other = true) : isKey key one = isKey key other := by
  obtain ⟨first, second, found, keyed, equal⟩ := exists_of_sameConstant same
  rw [isKey, isKey, found, keyed]
  exact BEq.congr_left (BEq.symm equal)

theorem isKey_of_same {other : Constant} (same : (key == other) = true) :
    isKey key = isKey other := by
  funext value
  unfold isKey
  cases value.asConstant? with
  | none => rfl
  | some constant => exact BEq.congr_right same

/-- What are the same key are the same constant. -/
theorem sameConstant_of_isKey (first : isKey key one = true) (second : isKey key other = true) :
    one.sameConstant other = true := by
  obtain ⟨constant, keyed, same⟩ := exists_of_isKey first
  rw [sameConstant_of_keyed keyed, isKey_of_same same, second]

end MappingContent

namespace Engine

open MappingContent

variable {known rest added : List (Value × Value)} {first entry : Value × Value}

/-- An entry replaces the value of the first key that is the same constant. -/
theorem addEntry_cons : addEntry (first :: rest) entry =
    if entry.1.sameConstant first.1 then (first.1, entry.2) :: rest
    else first :: addEntry rest entry := by
  rw [addEntry]
  unfold Value.sameConstant isKey
  cases entry.1.asConstant? <;> cases first.1.asConstant? <;> rfl

/-- An entry without a constant as key is added. -/
theorem addEntry_of_unkeyed (unkeyed : entry.1.asConstant? = none) :
    addEntry known entry = known ++ [entry] := by
  induction known with
  | nil => rfl
  | cons first rest inductionHypothesis =>
    rw [addEntry_cons, Value.sameConstant, unkeyed, inductionHypothesis]
    rfl

/-- An entry with a constant as key is put where that key stands first. -/
theorem addEntry_of_keyed {key : Constant} (keyed : entry.1.asConstant? = some key) :
    addEntry known entry = match (known.map (·.1)).findIdx? (isKey key) with
      | some place => known.modify place fun kept => (kept.1, entry.2)
      | none => known ++ [entry] := by
  induction known with
  | nil => rfl
  | cons first rest inductionHypothesis =>
    rw [addEntry_cons, sameConstant_of_keyed keyed, List.map_cons, List.findIdx?_cons,
      inductionHypothesis]
    cases isKey key first.1 with
    | true => rfl
    | false => cases (rest.map (·.1)).findIdx? (isKey key) <;> rfl

/-- Keys are added unless they are the same constant as one that is there. -/
theorem keys_addEntry : (addEntry known entry).map (·.1) =
    addNew Value.sameConstant (known.map (·.1)) entry.1 := by
  induction known with
  | nil => rfl
  | cons first rest inductionHypothesis =>
    rw [addEntry_cons, addNew, List.map_cons, List.any_cons]
    cases same : entry.1.sameConstant first.1 with
    | true => rfl
    | false =>
      simp only [Bool.false_eq_true, if_false, List.map_cons, inductionHypothesis, addNew,
        Bool.false_or]
      split <;> rfl

/-- An entry gives its key the value, and leaves the values of all other constants. -/
theorem find?_addEntry (key : Constant) (exact : Bool) :
    (⟨addEntry known entry, exact⟩ : MappingContent).find? key =
      if isKey key entry.1 then some entry.2
      else (⟨known, exact⟩ : MappingContent).find? key := by
  unfold find?
  induction known with
  | nil =>
    simp only [addEntry, List.find?_cons, List.find?_nil]
    cases isKey key entry.1 <;> rfl
  | cons first rest inductionHypothesis =>
    simp only [addEntry_cons]
    cases same : entry.1.sameConstant first.1 with
    | true =>
      simp only [if_true, List.find?_cons, isKey_congr same]
      cases isKey key first.1 <;> rfl
    | false =>
      simp only [Bool.false_eq_true, if_false, List.find?_cons]
      cases own : isKey key first.1 with
      | false => exact inductionHypothesis
      | true =>
        have other : ¬isKey key entry.1 = true := fun asked => by
          rw [sameConstant_of_isKey asked own] at same
          cases same
        rw [if_neg other]

/-- Whether an entry has a key that is no constant. -/
def isUnkeyed (entry : Value × Value) : Bool :=
  entry.1.asConstant?.isNone

/-- Entries without a constant as key are all added, and stay as they are. -/
theorem filter_addEntry : (addEntry known entry).filter isUnkeyed =
    known.filter isUnkeyed ++ [entry].filter isUnkeyed := by
  induction known with
  | nil => rfl
  | cons first rest inductionHypothesis =>
    rw [addEntry_cons]
    cases same : entry.1.sameConstant first.1 with
    | true =>
      obtain ⟨_, _, given, there, -⟩ := exists_of_sameConstant same
      simp only [if_true, List.filter_cons, isUnkeyed, given, there, Option.isNone_some,
        Bool.false_eq_true, if_false, List.filter_nil, List.append_nil]
    | false =>
      simp only [Bool.false_eq_true, if_false, List.filter_cons, inductionHypothesis]
      split <;> rfl

theorem keys_foldl_addEntry : (added.foldl addEntry known).map (·.1) =
    (added.map (·.1)).foldl (addNew Value.sameConstant) (known.map (·.1)) := by
  induction added generalizing known with
  | nil => rfl
  | cons first rest inductionHypothesis =>
    rw [List.foldl_cons, inductionHypothesis, keys_addEntry, List.map_cons, List.foldl_cons]

theorem filter_foldl_addEntry : (added.foldl addEntry known).filter isUnkeyed =
    known.filter isUnkeyed ++ added.filter isUnkeyed := by
  induction added generalizing known with
  | nil => exact (List.append_nil _).symm
  | cons first rest inductionHypothesis =>
    rw [List.foldl_cons, inductionHypothesis, filter_addEntry, List.append_assoc,
      ← List.filter_append, List.singleton_append]

/-- A constant has the value of the last entry with this key, if one was added. -/
theorem find?_foldl_addEntry (key : Constant) (exact : Bool) :
    (⟨added.foldl addEntry known, exact⟩ : MappingContent).find? key =
      ((added.filter fun entry => isKey key entry.1).getLast?.map (·.2)).or
        ((⟨known, exact⟩ : MappingContent).find? key) := by
  induction added generalizing known with
  | nil => rfl
  | cons first rest inductionHypothesis =>
    rw [List.foldl_cons, inductionHypothesis, find?_addEntry, List.filter_cons]
    cases isKey key first.1 with
    | false => rfl
    | true =>
      simp only [if_true, List.getLast?_cons]
      cases (rest.filter fun entry => isKey key entry.1).getLast? <;> rfl

end Engine

/-- Entries with an index of the places of their constant keys. -/
structure IndexedEntries where
  entries : List (Value × Value) := []
  places : List (Constant × Nat) := []

namespace IndexedEntries

open MappingContent

variable {indexed : IndexedEntries}

/-- The place of a key. -/
def place? (indexed : IndexedEntries) (key : Constant) : Option Nat :=
  (indexed.places.find? fun indexed => indexed.1 == key).map (·.2)

/-- Adds an entry. If its key is a constant in the index, the value at its place is replaced. -/
def add (indexed : IndexedEntries) (entry : Value × Value) : IndexedEntries :=
  match entry.1.asConstant? with
  | some key =>
    match indexed.place? key with
    | some place =>
      { indexed with entries := indexed.entries.modify place fun known => (known.1, entry.2) }
    | none =>
      ⟨indexed.entries ++ [entry], (key, indexed.entries.length) :: indexed.places⟩
  | none => { indexed with entries := indexed.entries ++ [entry] }

/-- Whether the index knows the first place of every constant key, and no other. -/
def Aligned (indexed : IndexedEntries) : Prop :=
  ∀ key, indexed.place? key = (indexed.entries.map (·.1)).findIdx? (isKey key)

/-- With an aligned index, an entry is added as it is without one. -/
theorem entries_add (aligned : indexed.Aligned) (entry : Value × Value) :
    (indexed.add entry).entries = Engine.addEntry indexed.entries entry := by
  unfold add
  cases keyed : entry.1.asConstant? with
  | none => exact (Engine.addEntry_of_unkeyed keyed).symm
  | some key =>
    rw [Engine.addEntry_of_keyed keyed, ← aligned key]
    dsimp only
    cases indexed.place? key <;> rfl

/-- A replaced value leaves the keys. -/
theorem keys_modify (known : List (Value × Value)) (place : Nat) (value : Value) :
    (known.modify place fun entry => (entry.1, value)).map (·.1) = known.map (·.1) := by
  apply List.ext_getElem?
  intro other
  rw [List.getElem?_map, List.getElem?_map, List.getElem?_modify]
  cases known[other]? with
  | none => rfl
  | some entry => by_cases here : place = other <;> simp [here]

theorem findIdx?_append_key (known : List (Value × Value)) (entry : Value × Value)
    (key : Constant) : ((known ++ [entry]).map (·.1)).findIdx? (isKey key) =
      ((known.map (·.1)).findIdx? (isKey key)).or
        (if isKey key entry.1 then some known.length else none) := by
  rw [List.map_append, List.findIdx?_append, List.length_map, List.map_singleton,
    List.findIdx?_singleton]
  cases isKey key entry.1 <;> simp

/-- The index stays aligned. -/
theorem aligned_add (aligned : indexed.Aligned) (entry : Value × Value) :
    (indexed.add entry).Aligned := by
  intro other
  unfold add
  cases keyed : entry.1.asConstant? with
  | none =>
    have unasked : isKey other entry.1 = false := by rw [isKey, keyed]
    rw [findIdx?_append_key, unasked, ← aligned other]
    exact Option.or_none.symm
  | some key =>
    cases found : indexed.place? key with
    | some place =>
      simp only [found, keys_modify]
      exact aligned other
    | none =>
      have asked : isKey other entry.1 = (key == other) := by rw [isKey, keyed]
      simp only [found]
      rw [findIdx?_append_key, asked, ← aligned other, place?, List.find?_cons]
      cases same : key == other with
      | false => exact Option.or_none.symm
      | true =>
        have before : indexed.place? other = none := by
          rw [aligned, ← isKey_of_same same, ← aligned, found]
        rw [before]
        rfl

/-- So all entries are added as they are without an index. -/
theorem entries_foldl (added : List (Value × Value)) : ∀ {indexed : IndexedEntries},
    indexed.Aligned → (added.foldl add indexed).Aligned ∧
      (added.foldl add indexed).entries = added.foldl Engine.addEntry indexed.entries := by
  induction added with
  | nil => exact fun aligned => ⟨aligned, rfl⟩
  | cons first rest inductionHypothesis =>
    intro indexed aligned
    obtain ⟨still, same⟩ := inductionHypothesis (aligned_add aligned first)
    rw [entries_add aligned] at same
    exact ⟨still, same⟩

theorem aligned_nothing : ({} : IndexedEntries).Aligned :=
  fun _ => rfl

end IndexedEntries

namespace Engine

open MappingContent

variable {engine : Engine} {reach : Reach} {environment : Environment} {before after : Progress}

/-- The values of a key and of what stands for it, one after the other. -/
def evaluateEntry (engine : Engine) (reach : Reach) (entry : Expression × Expression) :
    Analysis (Value × Value) := do
  let key ← engine.evaluate reach entry.1
  let value ← engine.evaluate reach entry.2
  return (key, value)

/-- The first entries are evaluated one after the other, up to the limit. -/
theorem evaluateEntries_eq_each (limit : Nat) (entries : List (Expression × Expression)) :
    engine.evaluateEntries reach limit entries =
      each (engine.evaluateEntry reach) (entries.take limit) := by
  induction entries generalizing limit with
  | nil => cases limit <;> rfl
  | cons entry rest inductionHypothesis =>
    cases limit with
    | zero => rfl
    | succ limit =>
      rw [List.take_succ_cons, each, evaluateEntry, ← inductionHypothesis, evaluateEntries]
      simp only [bind_assoc, pure_bind]

/-- A display of a mapping has the entries that the values of its first entries give, each added to
those before it. -/
theorem evaluate_dict_of_entries {entries : List (Expression × Expression)}
    {evaluated : List (Value × Value)}
    (visited : each (engine.evaluateEntry reach)
      (entries.take environment.options.maxCollectionSize) environment before =
        .ok evaluated after) (span : Span) :
    engine.evaluate reach (.dict entries span) environment before =
      .ok (.object (Store.builtinType .dict) (.mapping ⟨evaluated.foldl addEntry [],
        decide (entries.length ≤ environment.options.maxCollectionSize)⟩)) after := by
  rw [← evaluateEntries_eq_each] at visited
  rw [evaluate, bind_of_ok (options_apply environment before)]
  exact bind_eq_ok.mpr ⟨evaluated, after, visited, rfl⟩

/-- What a displayed mapping keeps of its entries. Whatever these are, once the first of them have
values, as many as the options allow, the display has a mapping, which is exact if these are all
entries. No two of its keys are the same constant. Its keys are those of the entries in the order
of their first occurrence, entries without a constant as key are all kept as they are, and a
constant has the value of the last entry with this key, if there is one. The same mapping is made
with an index of the constant keys that is kept along. -/
theorem evaluate_dict_keeps_last (engine : Engine) (reach : Reach) (environment : Environment)
    {before after : Progress} {entries : List (Expression × Expression)}
    {evaluated : List (Value × Value)}
    (visited : each (engine.evaluateEntry reach)
      (entries.take environment.options.maxCollectionSize) environment before =
        .ok evaluated after) (span : Span) :
    ∃ content : MappingContent,
      engine.evaluate reach (.dict entries span) environment before =
        .ok (.object (Store.builtinType .dict) (.mapping content)) after ∧
      (content.exact = true ↔ entries.length ≤ environment.options.maxCollectionSize) ∧
      content.entries.Pairwise (fun earlier later =>
        later.1.sameConstant earlier.1 = false) ∧
      content.keys = (evaluated.map (·.1)).eraseDupsBy Value.sameConstant ∧
      content.entries.filter isUnkeyed = evaluated.filter isUnkeyed ∧
      (∀ key, content.find? key =
        (evaluated.filter fun entry => isKey key entry.1).getLast?.map (·.2)) ∧
      (evaluated.foldl IndexedEntries.add {}).Aligned ∧
      content.entries = (evaluated.foldl IndexedEntries.add {}).entries := by
  have keys : (evaluated.foldl addEntry []).map (·.1) =
      (evaluated.map (·.1)).eraseDupsBy Value.sameConstant := by
    rw [keys_foldl_addEntry, List.map_nil, foldl_addNew_nil]
  have apart := pairwise_eraseDupsBy Value.sameConstant (evaluated.map (·.1))
  rw [← keys, List.pairwise_map] at apart
  obtain ⟨aligned, same⟩ := IndexedEntries.entries_foldl evaluated IndexedEntries.aligned_nothing
  refine ⟨_, evaluate_dict_of_entries visited span, decide_eq_true_iff, apart, keys,
    filter_foldl_addEntry, fun key => ?_, aligned, same.symm⟩
  rw [find?_foldl_addEntry]
  exact Option.or_none

end Engine

namespace Analyzer

/-- Entries with both zeros as keys and the same text as the second and the fourth key, between them
a key that is no constant. -/
def repeatedKeys : List (Expression × Expression) :=
  [(.constant (.float ⟨0⟩) .unknown, .constant (.int 1) .unknown),
    (.constant (.str "key") .unknown, .constant (.int 2) .unknown),
    (.yield none .unknown, .constant (.int 3) .unknown),
    (.constant (.float ⟨0x8000000000000000⟩) .unknown, .constant (.int 4) .unknown),
    (.constant (.str "key") .unknown, .constant (.int 5) .unknown)]

/-- The first four of these entries have values: the zeros are one key, which has the last value of
the two, and the text has the value that it has among these four. -/
theorem evaluate_dict_keeps_last_truncated :
    ∃ evaluated after,
      each (Engine.standard.evaluateEntry .everything) (repeatedKeys.take 4) (limitedTo 4)
        Registry.start = .ok evaluated after ∧
      ∃ content : MappingContent,
        Engine.standard.evaluate .everything (.dict repeatedKeys .unknown) (limitedTo 4)
          Registry.start = .ok (.object (Store.builtinType .dict) (.mapping content)) after ∧
        content.exact = false ∧ content.entries.length = 3 ∧
        content.find? (.float ⟨0⟩) = some (Store.constantObject (.int 4)) ∧
        content.find? (.str "key") = some (Store.constantObject (.int 2)) := by
  have visited : each (Engine.standard.evaluateEntry .everything) (repeatedKeys.take 4)
      (limitedTo 4) Registry.start = .ok _ Registry.start := rfl
  obtain ⟨content, displayed, exact, -, keys, -, values, -⟩ :=
    Engine.evaluate_dict_keeps_last Engine.standard .everything (limitedTo 4) visited .unknown
  refine ⟨_, _, visited, content, displayed, ?_, ?_, ?_, ?_⟩
  · exact Bool.eq_false_iff.mpr fun isExact => absurd (exact.mp isExact) (by decide)
  · rw [← List.length_map (·.1)]
    change content.keys.length = 3
    rw [keys]
    decide
  · rw [values]
    rfl
  · rw [values]
    rfl

end Analyzer

end TypeInference
