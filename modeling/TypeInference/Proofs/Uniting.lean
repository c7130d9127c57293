import TypeInference.Proofs.Normality

/-!
# Unions in parts

A union keeps the first of the alternatives that count as one (`Store.union_algebra`). So it makes
no difference whether values are united at once or in parts whose unions are united, and what is
obtained from a value that does not count again counts no more than that value.
-/

namespace TypeInference

namespace Store

variable {store : Store} {values known : List Value} {value : Value}

/-- Whether a value counts as one of some values. -/
def Counted (store : Store) (known : List Value) (value : Value) : Prop :=
  ∃ other ∈ known, store.unionKey other = store.unionKey value

theorem Counted.of_mem (listed : value ∈ known) : store.Counted known value :=
  ⟨value, listed, rfl⟩

theorem addAlternative_of_counted (counted : store.Counted known value) :
    store.addAlternative known value = known := by
  obtain ⟨other, listed, same⟩ := counted
  exact if_pos (List.any_eq_true.mpr ⟨other, listed, decide_eq_true same⟩)

theorem addAlternative_of_not_counted (fresh : ¬store.Counted known value) :
    store.addAlternative known value = known ++ [value] := by
  refine if_neg fun found => fresh ?_
  obtain ⟨other, listed, same⟩ := List.any_eq_true.mp found
  exact ⟨other, listed, of_decide_eq_true same⟩

/-- A value that is added counts from then on, as do those that counted. -/
theorem counted_addAlternative {added : Value} :
    store.Counted (store.addAlternative known added) value ↔
      store.Counted known value ∨ store.unionKey added = store.unionKey value := by
  by_cases counted : store.Counted known added
  · rw [addAlternative_of_counted counted]
    refine ⟨.inl, fun found => found.elim id fun same => ?_⟩
    obtain ⟨other, listed, equal⟩ := counted
    exact ⟨other, listed, equal.trans same⟩
  · rw [addAlternative_of_not_counted counted]
    simp only [Counted, List.mem_append, List.mem_singleton]
    constructor
    · rintro ⟨other, listed | rfl, same⟩
      · exact .inl ⟨other, listed, same⟩
      · exact .inr same
    · rintro (⟨other, listed, same⟩ | same)
      · exact ⟨other, .inl listed, same⟩
      · exact ⟨added, .inr rfl, same⟩

theorem counted_foldl {added : List Value} : ∀ {known : List Value},
    store.Counted (added.foldl store.addAlternative known) value ↔
      store.Counted known value ∨ store.Counted added value := by
  induction added with
  | nil =>
    intro known
    refine ⟨.inl, fun found => found.resolve_right ?_⟩
    rintro ⟨_, listed, -⟩
    cases listed
  | cons first rest inductionHypothesis =>
    intro known
    rw [List.foldl_cons, inductionHypothesis, counted_addAlternative, or_assoc]
    refine or_congr_right ?_
    simp only [Counted, List.mem_cons, exists_eq_or_imp]

/-- Values that count already are not added. -/
theorem foldl_of_counted {added : List Value}
    (counted : ∀ value ∈ added, store.Counted known value) :
    added.foldl store.addAlternative known = known := by
  induction added with
  | nil => rfl
  | cons first rest inductionHypothesis =>
    rw [List.forall_mem_cons] at counted
    rw [List.foldl_cons, addAlternative_of_counted counted.1, inductionHypothesis counted.2]

/-- It makes no difference whether values are added to others first. -/
theorem foldl_foldl {added : List Value} : ∀ {kept known : List Value},
    (added.foldl store.addAlternative kept).foldl store.addAlternative known =
      added.foldl store.addAlternative (kept.foldl store.addAlternative known) := by
  induction added with
  | nil => exact rfl
  | cons value rest inductionHypothesis =>
    intro kept known
    rw [List.foldl_cons, List.foldl_cons, inductionHypothesis]
    by_cases counted : store.Counted kept value
    · rw [addAlternative_of_counted counted,
        addAlternative_of_counted (counted_foldl.mpr (.inr counted))]
    · rw [addAlternative_of_not_counted counted, List.foldl_append]
      rfl

/-- Whether two values count once in a union. -/
def countAsOne (store : Store) (one other : Value) : Bool :=
  store.unionKey one = store.unionKey other

theorem addAlternative_eq (store : Store) : store.addAlternative = addNew store.countAsOne := by
  funext known value
  have same : store.countAsOne value =
      fun other => decide (store.unionKey other = store.unionKey value) := by
    funext other
    exact decide_eq_decide.mpr eq_comm
  rw [addAlternative, addNew, same]

/-- The first alternatives of each kind and type count, in order. -/
theorem distinctAlternatives_eq (store : Store) (values : List Value) :
    store.distinctAlternatives values =
      (values.flatMap Value.alternatives).eraseDupsBy store.countAsOne := by
  rw [distinctAlternatives, addAlternative_eq, foldl_addNew_nil]

/-- A value is well formed if it is no union, or one of several types and objects, no two of which
are of one kind and one type. -/
def IsWellFormed (store : Store) (value : Value) : Prop :=
  ∀ alternatives, value = .union alternatives → store.Separate alternatives

instance (store : Store) : DecidablePred store.IsWellFormed
  | .union alternatives => decidable_of_iff (store.Separate alternatives)
      ⟨fun separate _ same => Value.union.inj same ▸ separate, fun wellFormed => wellFormed _ rfl⟩
  | .unknown | .type _ | .object _ _ => .isTrue nofun

theorem IsNormal.isWellFormed (normal : store.IsNormal value) : store.IsWellFormed value := by
  rintro alternatives rfl
  exact normal.1

theorem isWellFormed_unknown : store.IsWellFormed .unknown := by
  intro alternatives same
  cases same

/-- A type or an object is well formed. -/
theorem isWellFormed_of_isSingle (single : value.isSingle = true) : store.IsWellFormed value := by
  rintro alternatives rfl
  cases single

/-- A known well-formed value stands for some types and objects. -/
theorem IsWellFormed.alternatives (wellFormed : store.IsWellFormed value)
    (isKnown : value.isUnknown = false) :
    value.alternatives ≠ [] ∧ ∀ alternative ∈ value.alternatives, alternative.isSingle = true := by
  cases value with
  | unknown => cases isKnown
  | type _ | object _ _ => exact ⟨List.cons_ne_nil _ _, by simp [Value.alternatives, Value.isSingle,
      Value.isType, Value.isObject]⟩
  | union alternatives =>
    have separate : store.Separate alternatives := wellFormed alternatives rfl
    refine ⟨?_, separate.single⟩
    rintro rfl
    exact absurd separate.several (by decide)

theorem isSingle_of_distinct (wellFormed : ∀ value ∈ values, store.IsWellFormed value)
    (isKnown : ∀ value ∈ values, value.isUnknown = false) :
    ∀ alternative ∈ store.distinctAlternatives values, alternative.isSingle = true := by
  intro alternative listed
  obtain ⟨value, among, alternate⟩ := List.mem_flatMap.mp (mem_distinctAlternatives listed)
  exact ((wellFormed value among).alternatives (isKnown value among)).2 alternative alternate

/-- Only one value is not known. -/
theorem isKnown_of_not_mem (known : .unknown ∉ values) :
    ∀ value ∈ values, value.isUnknown = false := by
  intro value listed
  cases value with
  | unknown => exact absurd listed known
  | type _ | object _ _ | union _ => rfl

theorem any_isUnknown (isKnown : ∀ value ∈ values, value.isUnknown = false) :
    values.any Value.isUnknown = false := by
  rw [List.any_eq_false]
  intro value listed
  rw [isKnown value listed]
  exact Bool.false_ne_true

/-- The unknown value absorbs all others. -/
theorem union_of_unknown (listed : value ∈ values) (unknown : value.isUnknown = true) :
    store.union values = .unknown :=
  if_pos (List.any_eq_true.mpr ⟨value, listed, unknown⟩)

/-- The union of known well-formed values is known, and its alternatives are theirs. -/
theorem alternatives_union (some_value : values ≠ [])
    (wellFormed : ∀ value ∈ values, store.IsWellFormed value)
    (isKnown : ∀ value ∈ values, value.isUnknown = false) :
    (store.union values).isUnknown = false ∧
      (store.union values).alternatives = store.distinctAlternatives values := by
  have none_unknown := any_isUnknown isKnown
  have single := isSingle_of_distinct wellFormed isKnown
  have some_alternative : store.distinctAlternatives values ≠ [] := by
    obtain ⟨value, listed⟩ := List.exists_mem_of_ne_nil values some_value
    obtain ⟨alternative, alternate⟩ := List.exists_mem_of_ne_nil _
      ((wellFormed value listed).alternatives (isKnown value listed)).1
    have counted : store.Counted (store.distinctAlternatives values) alternative :=
      counted_foldl.mpr (.inr (.of_mem (List.mem_flatMap.mpr ⟨value, listed, alternate⟩)))
    obtain ⟨other, kept, -⟩ := counted
    exact List.ne_nil_of_mem kept
  rw [union, none_unknown]
  change (wrap (store.distinctAlternatives values)).isUnknown = false ∧
    (wrap (store.distinctAlternatives values)).alternatives = store.distinctAlternatives values
  generalize store.distinctAlternatives values = distinct at single some_alternative
  rcases distinct with _ | ⟨value, _ | ⟨other, rest⟩⟩
  · exact absurd rfl some_alternative
  · have own := Value.alternatives_of_isSingle (single value List.mem_cons_self)
    refine ⟨?_, own⟩
    cases value with
    | unknown => cases single _ List.mem_cons_self
    | type _ | object _ _ | union _ => rfl
  · exact ⟨rfl, rfl⟩

/-- The union of well-formed values is well formed. -/
theorem isWellFormed_union (wellFormed : ∀ value ∈ values, store.IsWellFormed value) :
    store.IsWellFormed (store.union values) := by
  by_cases isKnown : ∀ value ∈ values, value.isUnknown = false
  · have none_unknown := any_isUnknown isKnown
    have single := isSingle_of_distinct wellFormed isKnown
    have distinct := nodup_distinctAlternatives store values
    rw [union, none_unknown]
    change store.IsWellFormed (wrap (store.distinctAlternatives values))
    generalize store.distinctAlternatives values = alternatives at single distinct
    rcases alternatives with _ | ⟨value, _ | ⟨other, rest⟩⟩
    · exact isWellFormed_unknown
    · exact isWellFormed_of_isSingle (single value List.mem_cons_self)
    · rintro alternatives same
      cases same
      exact ⟨Nat.le_add_left 2 rest.length, single, distinct⟩
  · rw [not_forall₂] at isKnown
    obtain ⟨value, listed, unknown⟩ := isKnown
    rw [union_of_unknown listed (Bool.not_eq_false _ ▸ unknown)]
    exact isWellFormed_unknown

/-- A union is unknown if one of the values is, and otherwise only if there are none. -/
theorem union_eq_unknown_iff (wellFormed : ∀ value ∈ values, store.IsWellFormed value) :
    store.union values = .unknown ↔ values = [] ∨ .unknown ∈ values := by
  constructor
  · intro unknown
    by_contra known
    rw [not_or] at known
    have isUnion := (alternatives_union known.1 wellFormed (isKnown_of_not_mem known.2)).1
    rw [unknown] at isUnion
    cases isUnion
  · rintro (rfl | listed)
    · rfl
    · exact union_of_unknown listed rfl

/-- A well-formed value is its own union. -/
theorem union_singleton (wellFormed : store.IsWellFormed value) : store.union [value] = value := by
  cases value with
  | unknown => rfl
  | type _ | object _ _ => rfl
  | union alternatives =>
    have separate : store.Separate alternatives := wellFormed alternatives rfl
    have own : [Value.union alternatives].flatMap Value.alternatives = alternatives :=
      List.append_nil _
    have kept : alternatives.foldl store.addAlternative [] = alternatives :=
      foldl_addAlternative_of_nodup separate.distinct
    rw [union, own, kept]
    exact wrap_of_several separate.several

/-- It makes no difference whether alternatives are made distinct in parts before. -/
theorem foldl_of_parts (parts : List (List Value)) (known : List Value) :
    (parts.flatMap store.distinctAlternatives).foldl store.addAlternative known =
      (parts.flatten.flatMap Value.alternatives).foldl store.addAlternative known := by
  induction parts generalizing known with
  | nil => rfl
  | cons part rest inductionHypothesis =>
    rw [List.flatMap_cons, List.flatten_cons, List.flatMap_append, List.foldl_append,
      List.foldl_append, inductionHypothesis, distinctAlternatives, foldl_foldl]
    rfl

/-- The unions of parts have the union of all values. -/
theorem union_flatten {parts : List (List Value)} (some_value : ∀ part ∈ parts, part ≠ [])
    (wellFormed : ∀ value ∈ parts.flatten, store.IsWellFormed value) :
    store.union (parts.map store.union) = store.union parts.flatten := by
  by_cases isKnown : ∀ value ∈ parts.flatten, value.isUnknown = false
  · have each : ∀ part ∈ parts, (store.union part).isUnknown = false ∧
        (store.union part).alternatives = store.distinctAlternatives part := fun part listed =>
      have inside {value : Value} (among : value ∈ part) : value ∈ parts.flatten :=
        List.mem_flatten.mpr ⟨part, listed, among⟩
      alternatives_union (some_value part listed) (fun value among => wellFormed value (inside among))
        fun value among => isKnown value (inside among)
    have none_in_parts : (parts.map store.union).any Value.isUnknown = false := by
      apply any_isUnknown
      intro value listed
      obtain ⟨part, among, rfl⟩ := List.mem_map.mp listed
      exact (each part among).1
    have alternatives : (parts.map store.union).flatMap Value.alternatives =
        parts.flatMap store.distinctAlternatives := by
      rw [List.flatMap_map]
      exact List.flatMap_congr fun part listed => (each part listed).2
    rw [union, union, none_in_parts, any_isUnknown isKnown, alternatives, foldl_of_parts]
  · rw [not_forall₂] at isKnown
    obtain ⟨value, listed, unknown⟩ := isKnown
    rw [Bool.not_eq_false] at unknown
    obtain ⟨part, among, inside⟩ := List.mem_flatten.mp listed
    have own : store.union part = .unknown := union_of_unknown inside unknown
    rw [union_of_unknown listed unknown]
    exact union_of_unknown (List.mem_map_of_mem among) (by rw [own]; rfl)

/-- The laws of unions. The union of well-formed values is well formed; it is unknown exactly if
there are no values or one of them is unknown, and otherwise its alternatives are the first of those
that are of one kind and one type, in order. A value is its own union, and values can be united in
parts none of which is empty. -/
theorem union_algebra (store : Store) :
    (∀ values : List Value, (∀ value ∈ values, store.IsWellFormed value) →
      store.IsWellFormed (store.union values) ∧
        (store.union values = .unknown ↔ values = [] ∨ .unknown ∈ values) ∧
        (store.union values ≠ .unknown → (store.union values).alternatives =
          (values.flatMap Value.alternatives).eraseDupsBy store.countAsOne)) ∧
    (∀ value, store.IsWellFormed value → store.union [value] = value) ∧
    ∀ parts : List (List Value), (∀ part ∈ parts, part ≠ []) →
      (∀ value ∈ parts.flatten, store.IsWellFormed value) →
        store.union (parts.map store.union) = store.union parts.flatten := by
  refine ⟨fun values wellFormed => ?_, fun _ => union_singleton, fun _ => union_flatten⟩
  have unknown := union_eq_unknown_iff wellFormed
  refine ⟨isWellFormed_union wellFormed, unknown, fun known => ?_⟩
  rw [Ne, unknown, not_or] at known
  rw [(alternatives_union known.1 wellFormed (isKnown_of_not_mem known.2)).2,
    distinctAlternatives_eq]

/-- An integer and its type, and apart from them the union of a text with that type. -/
def overlapping : List (List Value) :=
  [[.object (builtinType .int) .plain, .type (builtinType .int)],
    [.union [.object (builtinType .str) .plain, .type (builtinType .int)]]]

/-- United in parts or at once, the type of integers counts once. -/
theorem union_algebra_overlapping :
    (∀ part ∈ overlapping, part ≠ []) ∧
      (∀ value ∈ overlapping.flatten, Registry.standard.store.IsWellFormed value) ∧
      Registry.standard.store.union (overlapping.map Registry.standard.store.union) =
        Registry.standard.store.union overlapping.flatten ∧
      Registry.standard.store.IsWellFormed (Registry.standard.store.union overlapping.flatten) ∧
      (Registry.standard.store.union overlapping.flatten).alternatives.length = 3 := by
  have some_value : ∀ part ∈ overlapping, part ≠ [] := by simp [overlapping]
  have wellFormed : ∀ value ∈ overlapping.flatten, Registry.standard.store.IsWellFormed value := by
    decide +kernel
  obtain ⟨laws, -, inParts⟩ := union_algebra Registry.standard.store
  exact ⟨some_value, wellFormed, inParts overlapping some_value wellFormed,
    (laws overlapping.flatten wellFormed).1, by decide +kernel⟩

/-- What is obtained from values has the union of what is obtained from the distinct ones, where
the same is obtained from values that count as one. -/
theorem union_map_distinct {first : Store} {given : List Value} (obtain_from : Value → Value)
    (same : ∀ one ∈ given, ∀ other ∈ given, first.unionKey one = first.unionKey other →
      obtain_from one = obtain_from other) :
    store.union ((given.foldl first.addAlternative []).map obtain_from) =
      store.union (given.map obtain_from) := by
  have inFold (rest : List Value) : ∀ kept : List Value, (∀ value ∈ kept, value ∈ given) →
      (∀ value ∈ rest, value ∈ given) →
        (((rest.foldl first.addAlternative kept).map obtain_from).flatMap
            Value.alternatives).foldl store.addAlternative [] =
          ((rest.map obtain_from).flatMap Value.alternatives).foldl store.addAlternative
            (((kept.map obtain_from).flatMap Value.alternatives).foldl
              store.addAlternative []) := by
    induction rest with
    | nil => exact fun _ _ _ => rfl
    | cons value rest inductionHypothesis =>
      intro kept before after
      rw [List.forall_mem_cons] at after
      rw [List.foldl_cons, List.map_cons, List.flatMap_cons, List.foldl_append]
      by_cases counted : first.Counted kept value
      · obtain ⟨other, listed, equal⟩ := id counted
        have isKept : obtain_from value ∈ kept.map obtain_from :=
          same other (before other listed) value after.1 equal ▸ List.mem_map_of_mem listed
        rw [addAlternative_of_counted counted, inductionHypothesis kept before after.2]
        congr 1
        refine (foldl_of_counted fun alternative alternate => counted_foldl.mpr (.inr ?_)).symm
        exact .of_mem (List.mem_flatMap.mpr ⟨_, isKept, alternate⟩)
      · rw [addAlternative_of_not_counted counted, inductionHypothesis _ (List.forall_mem_append.mpr
          ⟨before, List.forall_mem_singleton.mpr after.1⟩) after.2, List.map_append,
          List.flatMap_append, List.foldl_append]
        simp only [List.map_cons, List.map_nil, List.flatMap_cons, List.flatMap_nil,
          List.append_nil]
  have unknowns : ((given.foldl first.addAlternative []).map obtain_from).any Value.isUnknown =
      (given.map obtain_from).any Value.isUnknown := by
    rw [Bool.eq_iff_iff, List.any_map, List.any_map, List.any_eq_true, List.any_eq_true]
    constructor
    · rintro ⟨value, kept, unknown⟩
      exact ⟨value, (mem_foldl_addAlternative kept).resolve_left List.not_mem_nil, unknown⟩
    · rintro ⟨value, listed, unknown⟩
      have counted : first.Counted (given.foldl first.addAlternative []) value :=
        counted_foldl.mpr (.inr (.of_mem listed))
      obtain ⟨other, kept, equal⟩ := counted
      have was := (mem_foldl_addAlternative kept).resolve_left List.not_mem_nil
      refine ⟨other, kept, ?_⟩
      rw [Function.comp_apply, same other was value listed equal]
      exact unknown
  rw [union, union, unknowns, inFold given [] (List.forall_mem_nil _) fun _ listed => listed]
  rfl

end Store

end TypeInference
