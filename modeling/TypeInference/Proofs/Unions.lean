import Mathlib.Data.List.Basic
import TypeInference.Proofs.Flow
import TypeInference.Proofs.Moves

/-!
# Unions

The union of some values is made of their distinct alternatives. If each of these is a type or an
object, they are separate: no two of them are of one kind and one type. They stay so, since types
that are in the store keep their identity whatever moves it makes.

What adds items one after the other, unless they count as one that is there, keeps the first
occurrences in order.
-/

namespace TypeInference

section FirstOccurrences

variable {α : Type} {same : α → α → Bool}

/-- Items with one more, unless it counts as one of them. -/
def addNew (same : α → α → Bool) (known : List α) (item : α) : List α :=
  if known.any (same item) then known else known ++ [item]

/-- Of items that do not count as known ones, the first occurrences are added. -/
theorem foldl_addNew {added : List α} : ∀ {known : List α},
    added.foldl (addNew same) known =
      known ++ (added.filter fun item => !known.any (same item)).eraseDupsBy same := by
  induction added with
  | nil => exact fun {known} => (List.append_nil known).symm
  | cons first rest inductionHypothesis =>
    intro known
    rw [List.foldl_cons, inductionHypothesis, List.filter_cons, addNew]
    cases counted : known.any (same first) with
    | true => rfl
    | false =>
      simp only [Bool.not_false, Bool.false_eq_true, if_false, if_true, List.eraseDupsBy_cons,
        List.filter_filter, List.any_append, List.any_cons, List.any_nil, Bool.or_false,
        Bool.not_or, List.append_assoc, List.singleton_append, Bool.and_comm,
        Bool.decide_eq_false]

theorem foldl_addNew_nil (added : List α) :
    added.foldl (addNew same) [] = added.eraseDupsBy same := by
  rw [foldl_addNew, List.nil_append]
  exact congrArg _ (List.filter_eq_self.mpr fun _ _ => rfl)

/-- No first occurrence counts as an earlier one. -/
theorem pairwise_eraseDupsBy (same : α → α → Bool) (items : List α) :
    (items.eraseDupsBy same).Pairwise fun earlier later => same later earlier = false := by
  have inFold (added : List α) : ∀ known : List α,
      known.Pairwise (fun earlier later => same later earlier = false) →
        (added.foldl (addNew same) known).Pairwise fun earlier later =>
          same later earlier = false := by
    induction added with
    | nil => exact fun _ apart => apart
    | cons first rest inductionHypothesis =>
      intro known apart
      apply inductionHypothesis
      unfold addNew
      split
      · exact apart
      · next fresh =>
        refine List.pairwise_append.mpr ⟨apart, List.pairwise_singleton _ _, ?_⟩
        rintro earlier listed later isLast
        rw [List.mem_singleton.mp isLast]
        exact Bool.eq_false_iff.mpr fun counted =>
          fresh (List.any_eq_true.mpr ⟨earlier, listed, counted⟩)
  rw [← foldl_addNew_nil]
  exact inFold items [] List.Pairwise.nil

end FirstOccurrences

/-- A type or an object stands for itself. -/
theorem Value.alternatives_of_isSingle {value : Value} (single : value.isSingle = true) :
    value.alternatives = [value] := by
  cases value with
  | type _ | object _ _ => rfl
  | unknown | union _ => cases single

namespace Store

variable {store next : Store}

/-- What is distinct among values was among them. -/
theorem mem_foldl_addAlternative {added : List Value} {value : Value} : ∀ {known : List Value},
    value ∈ added.foldl store.addAlternative known → value ∈ known ∨ value ∈ added := by
  induction added with
  | nil => exact .inl
  | cons first rest inductionHypothesis =>
    intro known listed
    rcases inductionHypothesis listed with before | later
    · unfold addAlternative at before
      split at before
      · exact .inl before
      · rw [List.mem_append, List.mem_singleton] at before
        exact before.imp_right fun same => List.mem_cons.mpr (.inl same)
    · exact .inr (List.mem_cons_of_mem _ later)

theorem mem_distinctAlternatives {values : List Value} {value : Value}
    (listed : value ∈ store.distinctAlternatives values) :
    value ∈ values.flatMap Value.alternatives :=
  (mem_foldl_addAlternative listed).resolve_left List.not_mem_nil

/-- Distinct alternatives do not count twice. -/
theorem nodup_distinctAlternatives (store : Store) (values : List Value) :
    ((store.distinctAlternatives values).map store.unionKey).Nodup := by
  have inFold (added kept : List Value) (distinct : (kept.map store.unionKey).Nodup) :
      ((added.foldl store.addAlternative kept).map store.unionKey).Nodup := by
    induction added generalizing kept with
    | nil => exact distinct
    | cons first rest inductionHypothesis =>
      refine inductionHypothesis _ ?_
      unfold addAlternative
      split
      · exact distinct
      · next fresh =>
        rw [List.map_append, List.nodup_append]
        refine ⟨distinct, by simp, fun key listed last isLast same => ?_⟩
        obtain ⟨other, among, rfl⟩ := List.mem_map.mp listed
        rw [List.mem_singleton.mp isLast] at same
        exact fresh (List.any_eq_true.mpr ⟨other, among, decide_eq_true same⟩)
  exact inFold _ [] List.nodup_nil

/-- Values that count apart from each other and from known ones are all added. -/
theorem foldl_addAlternative_of_nodup {added : List Value} : ∀ {known : List Value},
    ((known ++ added).map store.unionKey).Nodup →
      added.foldl store.addAlternative known = known ++ added := by
  induction added with
  | nil => exact fun _ => (List.append_nil _).symm
  | cons value rest inductionHypothesis =>
    intro known distinct
    have fresh : store.addAlternative known value = known ++ [value] := by
      refine if_neg fun counted => ?_
      obtain ⟨other, among, same⟩ := List.any_eq_true.mp counted
      rw [List.map_append, List.nodup_append] at distinct
      exact distinct.2.2 _ (List.mem_map_of_mem among) _ List.mem_cons_self (of_decide_eq_true same)
    rw [List.foldl_cons, fresh, inductionHypothesis (by rwa [List.append_assoc]), List.append_assoc]
    rfl

theorem distinctAlternatives_of_nodup {values : List Value}
    (single : ∀ value ∈ values, value.isSingle = true)
    (distinct : (values.map store.unionKey).Nodup) : store.distinctAlternatives values = values := by
  have own : values.flatMap Value.alternatives = values := by
    rw [List.flatMap_congr fun value listed => Value.alternatives_of_isSingle (single value listed)]
    exact List.flatMap_singleton' values
  rw [distinctAlternatives, own]
  exact foldl_addAlternative_of_nodup distinct

/-- Several values are wrapped as a union. -/
theorem wrap_of_several {values : List Value} (several : 2 ≤ values.length) :
    wrap values = .union values := by
  match values, several with
  | first :: second :: rest, _ => rfl

/-- What is separate is united as it is. -/
theorem union_of_separate {alternatives : List Value} (separate : store.Separate alternatives) :
    store.union alternatives = .union alternatives := by
  have known : alternatives.any Value.isUnknown = false := by
    refine List.any_eq_false.mpr fun value listed unknown => ?_
    have single := separate.single value listed
    cases value with
    | unknown => cases single
    | type _ | object _ _ | union _ => cases unknown
  rw [union, known]
  change wrap (store.distinctAlternatives alternatives) = _
  rw [distinctAlternatives_of_nodup separate.single separate.distinct]
  exact wrap_of_several separate.several

/-- The type of a type or an object does not depend on the store. -/
theorem typeOf_of_isSingle {value : Value} (single : value.isSingle = true) (one other : Store) :
    one.typeOf value = other.typeOf value := by
  cases value with
  | type | object => simp only [typeOf]
  | unknown | union => cases single

namespace LeadsTo

/-- Types stay in the store, and keep their identity. -/
theorem keepsType (leads : store.LeadsTo next) {ty : Ty} (given : store.HasType ty) :
    next.HasType ty ∧ next.typeHash ty = store.typeHash ty := by
  induction leads with
  | refl => exact ⟨given, rfl⟩
  | tail _ move inductionHypothesis =>
    exact ⟨move.hasType inductionHypothesis.1,
      (move.typeHash inductionHypothesis.1).trans inductionHypothesis.2⟩

/-- What counts apart in a union still does. -/
theorem separate (leads : store.LeadsTo next) {alternatives : List Value}
    (separate : store.Separate alternatives)
    (present : ∀ value ∈ alternatives, store.HasType (store.typeOf value)) :
    next.Separate alternatives ∧ ∀ value ∈ alternatives, next.HasType (next.typeOf value) := by
  have same (value : Value) (listed : value ∈ alternatives) :
      next.typeOf value = store.typeOf value :=
    typeOf_of_isSingle (separate.single value listed) next store
  have keys : alternatives.map next.unionKey = alternatives.map store.unionKey :=
    List.map_congr_left fun value listed => by
      rw [unionKey, unionKey, same value listed, (leads.keepsType (present value listed)).2]
  refine ⟨⟨separate.several, separate.single, keys ▸ separate.distinct⟩, fun value listed => ?_⟩
  rw [same value listed]
  exact (leads.keepsType (present value listed)).1

end LeadsTo

/-- A type that refers to what is in the store is there. -/
theorem hasType_of_within {known : References} (has : ∀ reference, known reference →
    store.Has reference) {ty : Ty} (within : Within known ty) : store.HasType ty := by
  cases ty with
  | cls id => exact has (.cls id) within
  | function id => exact has (.function id) within
  | unknown | parameter _ | marker _ => trivial

namespace LeadsTo

variable {known : References}

mutual

/-- Values have the types that they had. -/
theorem typeOf (leads : store.LeadsTo next)
    (has : ∀ reference, known reference → store.Has reference) : ∀ {value : Value},
      Within known value → next.typeOf value = store.typeOf value
  | .unknown, _ | .type _, _ | .object _ _, _ => by simp only [Store.typeOf]
  | .union alternatives, given => by
    have inside := ((within_union _).mp given).2
    have types : Within known (store.typesOf alternatives) := within_typesOf inside
    rw [Store.typeOf, Store.typeOf, leads.typesOf has inside]
    cases found : store.typesOf alternatives with
    | nil => rfl
    | cons first rest =>
      rw [found, within_cons] at types
      have kept {ty : Ty} (listed : Within known ty) : next.typeHash ty = store.typeHash ty :=
        (leads.keepsType (hasType_of_within has listed)).2
      have same : rest.all (next.sameType first) = rest.all (store.sameType first) := by
        rw [Bool.eq_iff_iff, List.all_eq_true, List.all_eq_true]
        refine forall₂_congr fun ty listed => ?_
        rw [sameType, sameType, kept types.1, kept (types.2 ty listed)]
      dsimp only
      rw [same]

theorem typesOf (leads : store.LeadsTo next)
    (has : ∀ reference, known reference → store.Has reference) : ∀ {values : List Value},
      Within known values → next.typesOf values = store.typesOf values
  | [], _ => by simp only [Store.typesOf]
  | value :: rest, given => by
    rw [within_cons] at given
    rw [Store.typesOf, Store.typesOf, leads.typeOf has given.1, leads.typesOf has given.2]

end

section Values

variable (leads : store.LeadsTo next) (has : ∀ reference, known reference → store.Has reference)

include leads has

/-- Values count once in a union where they did. -/
theorem unionKey {value : Value} (given : Within known value) :
    next.unionKey value = store.unionKey value := by
  rw [Store.unionKey, Store.unionKey, leads.typeOf has given,
    (leads.keepsType (hasType_of_within has (within_typeOf given))).2]

theorem distinctAlternatives {values : List Value} (given : Within known values) :
    next.distinctAlternatives values = store.distinctAlternatives values := by
  have inFold (added : List Value) : ∀ kept, Within known added → Within known kept →
      added.foldl next.addAlternative kept = added.foldl store.addAlternative kept := by
    induction added with
    | nil => exact fun _ _ _ => rfl
    | cons value rest inductionHypothesis =>
      intro kept fresh before
      rw [within_cons] at fresh
      have counted : (kept.any fun other => next.unionKey other = next.unionKey value) =
          kept.any fun other => store.unionKey other = store.unionKey value := by
        rw [Bool.eq_iff_iff, List.any_eq_true, List.any_eq_true]
        refine exists_congr fun other => and_congr_right fun listed => ?_
        rw [leads.unionKey has (before other listed), leads.unionKey has fresh.1]
      have step : next.addAlternative kept value = store.addAlternative kept value := by
        rw [addAlternative, addAlternative, counted]
      rw [List.foldl_cons, List.foldl_cons, step]
      refine inductionHypothesis _ fresh.2 ?_
      exact within_ite before ((within_append _ _).mpr
        ⟨before, (within_cons _ _).mpr ⟨fresh.1, within_nil⟩⟩)
  refine inFold _ [] (fun alternative listed => ?_) within_nil
  obtain ⟨value, among, alternate⟩ := List.mem_flatMap.mp listed
  exact within_alternatives (given value among) alternative alternate

/-- Values have the union that they had. -/
theorem union {values : List Value} (given : Within known values) :
    next.union values = store.union values := by
  have same := leads.distinctAlternatives has given
  rw [Store.distinctAlternatives, Store.distinctAlternatives] at same
  rw [Store.union, Store.union, same]

end Values

end LeadsTo

/-- The alternatives of what a store has are types and objects. -/
theorem isSingle_of_alternative {known : References} (has : ∀ reference, known reference →
    store.Has reference) {value alternative : Value} (within : Within known value)
    (isKnown : value.isUnknown = false) (listed : alternative ∈ value.alternatives) :
    alternative.isSingle = true := by
  cases value with
  | unknown => cases isKnown
  | type | object => exact List.mem_singleton.mp listed ▸ rfl
  | union alternatives =>
    exact (has _ ((within_union alternatives).mp within).1).1.single alternative listed

/-- All that a store has is closed under its unions. -/
theorem closedIn_references (store : Store)
    (builtin : ∀ builtin, store.HasClass (Store.builtinClass builtin)) :
    (store.references builtin).ClosedIn store := by
  intro values within
  refine within_unionOf within fun isKnown several => ⟨⟨several, ?_, ?_⟩, ?_⟩
  · intro alternative listed
    obtain ⟨value, among, alternate⟩ := List.mem_flatMap.mp (mem_distinctAlternatives listed)
    exact isSingle_of_alternative (fun _ => id) (within value among) (isKnown value among) alternate
  · exact nodup_distinctAlternatives store values
  · intro alternative listed
    exact hasType_of_within (fun _ => id)
      (within_typeOf (within_distinctAlternatives within alternative listed))

end Store

end TypeInference
