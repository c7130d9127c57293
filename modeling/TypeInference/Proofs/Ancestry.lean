import TypeInference.Proofs.Resting

/-!
# Open parameters among ancestors

The bases of a class, their bases and so on are its ancestors, and the class counts as one of them.
Bases may lead back to a class and may be shared, so the search for open parameters marks the
classes that it is looking into and leaves marked ones alone. That it misses no ancestor is not
obvious: a class that is left alone answers that nothing is found, although what it leads to may not
have been looked at yet. But then it is looked at on behalf of the class that was marked first.

The search is stated twice, with the marked classes handed down the bases and with marks that are
set on entering a class and taken away on leaving it. Both give the same answer, no mark stays, and
the answer is whether an ancestor has an open parameter (`Store.isGeneric_iff_ancestor`).
-/

namespace TypeInference.Store

variable {store : Store} {id ancestor : ClassId} {entered : List ClassId}

/-- Whether a class is a base of another one. -/
def DerivesFrom (store : Store) (id base : ClassId) : Prop :=
  base ∈ (store.classAt id).baseClasses

/-- Whether a class is reached from another one over bases, or is that class itself. -/
def HasAncestor (store : Store) : ClassId → ClassId → Prop :=
  Relation.ReflTransGen store.DerivesFrom

/-- Whether a class is reached over bases that are not among some classes. -/
def HasAncestorAround (store : Store) (entered : List ClassId) : ClassId → ClassId → Prop :=
  Relation.ReflTransGen fun id base => store.DerivesFrom id base ∧ base ∉ entered

/-- A mark for every class, set while the class is being looked into. -/
abbrev ClassMarks := ClassId → Bool

/-- No class is marked. -/
def ClassMarks.cleared : ClassMarks := fun _ => false

/-- Marks with that of one class set or taken away. -/
def ClassMarks.put (marks : ClassMarks) (id : ClassId) (mark : Bool) : ClassMarks :=
  fun other => if other = id then mark else marks other

/-- A search on behalf of a class. A marked class is left alone, which finds nothing; another one
has its mark for as long as the search takes. -/
def whileMarked (id : ClassId) (search : StateT ClassMarks Option Bool) :
    StateT ClassMarks Option Bool := do
  if (← get) id then return false
  modify fun marks => marks.put id true
  let found ← search
  modify fun marks => marks.put id false
  return found

/-- The search for open parameters with marks, in a class and then in its bases up to the first that
is generic. There is no answer if that goes deeper than allowed. -/
def searchMarked (store : Store) : Nat → ClassId → StateT ClassMarks Option Bool
  | 0, _ => failure
  | depth + 1, id => whileMarked id <|
    if (store.classAt id).openParameters.isEmpty then
      (store.classAt id).baseClasses.anyM (store.searchMarked depth)
    else pure true

/-- Only classes of the store have bases. -/
theorem DerivesFrom.hasClass {base : ClassId} (derives : store.DerivesFrom id base) :
    store.HasClass id := by
  by_contra absent
  rw [DerivesFrom, classAt_of_not_hasClass store id absent] at derives
  cases derives

/-- The search leaves a class alone that it is looking into. -/
theorem isGenericWithin_of_entered (depth : Nat) (looking : id ∈ entered) :
    store.isGenericWithin depth entered id = false := by
  cases depth with
  | zero => rfl
  | succ depth => rw [isGenericWithin, if_pos (List.contains_iff_mem.mpr looking)]

/-- The search looks for open parameters in the class itself and then in its bases. -/
theorem isGenericWithin_succ (depth : Nat) (fresh : id ∉ entered) :
    store.isGenericWithin (depth + 1) entered id =
      (!(store.classAt id).openParameters.isEmpty ||
        (store.classAt id).baseClasses.any (store.isGenericWithin depth (id :: entered))) := by
  rw [isGenericWithin, if_neg fun looking => fresh (List.contains_iff_mem.mp looking)]

/-- An ancestor is the class itself or an ancestor of a base, on a way that never comes back to the
class: what comes after the last time that it is there. -/
theorem hasAncestorAround_iff : store.HasAncestorAround entered id ancestor ↔
    ancestor = id ∨ ∃ base, store.DerivesFrom id base ∧ base ∉ id :: entered ∧
      store.HasAncestorAround (id :: entered) base ancestor := by
  constructor
  · intro reached
    induction reached with
    | refl => exact .inl rfl
    | @tail last next _ step inductionHypothesis =>
      by_cases back : next = id
      · exact .inl back
      · have fresh : next ∉ id :: entered := List.not_mem_cons_of_ne_of_not_mem back step.2
        rcases inductionHypothesis with rfl | ⟨base, derives, apart, reached⟩
        · exact .inr ⟨next, step.1, fresh, .refl⟩
        · exact .inr ⟨base, derives, apart, reached.tail ⟨step.1, fresh⟩⟩
  · rintro (rfl | ⟨base, derives, apart, reached⟩)
    · exact .refl
    · refine .head ⟨derives, fun among => apart (List.mem_cons_of_mem _ among)⟩ ?_
      exact reached.lift (fun id => id) fun _ _ step =>
        ⟨step.1, fun among => step.2 (List.mem_cons_of_mem _ among)⟩

/-- Room for one class more to be entered, once the depth and the entered classes exceed the store
together. -/
theorem exists_depth_of_deep {depth : Nat} (distinct : entered.Nodup)
    (inside : ∀ other ∈ entered, store.HasClass other)
    (deep : store.classes.size < depth + entered.length) : ∃ rest, depth = rest + 1 := by
  have few := length_le_of_nodup distinct inside
  exact Nat.exists_eq_add_one.mpr (by omega)

/-- The search finds an open parameter exactly in what is reached around the entered classes. The
induction is on the depth, where every class that is entered takes one off and is no longer to be
entered. -/
theorem isGenericWithin_iff (depth : Nat) : ∀ (entered : List ClassId) (id : ClassId),
    entered.Nodup → (∀ other ∈ entered, store.HasClass other) → id ∉ entered →
      store.classes.size < depth + entered.length →
        (store.isGenericWithin depth entered id = true ↔ ∃ ancestor,
          store.HasAncestorAround entered id ancestor ∧
            (store.classAt ancestor).openParameters ≠ []) := by
  induction depth with
  | zero =>
    intro entered _ distinct inside _ deep
    obtain ⟨_, impossible⟩ := exists_depth_of_deep distinct inside deep
    cases impossible
  | succ depth inductionHypothesis =>
    intro entered id distinct inside fresh deep
    have along (base : ClassId) (derives : store.DerivesFrom id base) :
        store.isGenericWithin depth (id :: entered) base = true ↔ base ∉ id :: entered ∧
          ∃ ancestor, store.HasAncestorAround (id :: entered) base ancestor ∧
            (store.classAt ancestor).openParameters ≠ [] := by
      by_cases looking : base ∈ id :: entered
      · rw [isGenericWithin_of_entered depth looking]
        exact iff_of_false Bool.false_ne_true fun reached => reached.1 looking
      · rw [inductionHypothesis (id :: entered) base (List.nodup_cons.mpr ⟨fresh, distinct⟩)
          (List.forall_mem_cons.mpr ⟨derives.hasClass, inside⟩) looking
          (by rw [List.length_cons]; omega)]
        exact (and_iff_right looking).symm
    rw [isGenericWithin_succ depth fresh, Bool.or_eq_true, Bool.not_eq_true',
      List.isEmpty_eq_false_iff, List.any_eq_true]
    constructor
    · rintro (here | ⟨base, listed, found⟩)
      · exact ⟨id, .refl, here⟩
      · obtain ⟨apart, ancestor, reached, isOpen⟩ := (along base listed).mp found
        exact ⟨ancestor, hasAncestorAround_iff.mpr (.inr ⟨base, listed, apart, reached⟩), isOpen⟩
    · rintro ⟨ancestor, reached, isOpen⟩
      rcases hasAncestorAround_iff.mp reached with rfl | ⟨base, derives, apart, reached⟩
      · exact .inl isOpen
      · exact .inr ⟨base, derives, (along base derives).mpr ⟨apart, ancestor, reached, isOpen⟩⟩

/-- The marks of some classes. -/
def ClassMarks.of (entered : List ClassId) : ClassMarks := fun id => decide (id ∈ entered)

theorem ClassMarks.put_true_of (entered : List ClassId) (id : ClassId) :
    (of entered).put id true = of (id :: entered) := by
  funext other
  by_cases same : other = id <;> simp [put, of, same]

theorem ClassMarks.put_false_of (fresh : id ∉ entered) :
    (of (id :: entered)).put id false = of entered := by
  funext other
  by_cases same : other = id
  · simp [put, of, same, fresh]
  · simp [put, of, same]

/-- Asking several classes in turn keeps a state that asking each of them keeps, and finds what one
of them finds. -/
theorem anyM_of_each {marks : ClassMarks} {search : ClassId → StateT ClassMarks Option Bool}
    {answer : ClassId → Bool} {ids : List ClassId}
    (each : ∀ id ∈ ids, search id marks = some (answer id, marks)) :
    ids.anyM search marks = some (ids.any answer, marks) := by
  induction ids with
  | nil => rfl
  | cons id rest inductionHypothesis =>
    obtain ⟨first, others⟩ := List.forall_mem_cons.mp each
    have asked : List.anyM search (id :: rest) marks =
        (search id marks).bind fun found =>
          (match found.1 with | true => pure true | false => rest.anyM search :
            StateT ClassMarks Option Bool) found.2 := rfl
    rw [asked, first, Option.bind_some, List.any_cons]
    cases answer id with
    | true => rfl
    | false => exact inductionHypothesis others

/-- Nothing is found on behalf of a marked class. -/
theorem whileMarked_of_marked {marks : ClassMarks} (marked : marks id = true)
    (search : StateT ClassMarks Option Bool) :
    whileMarked id search marks = some (false, marks) := by
  change (ite (marks id = true) _ _ : StateT ClassMarks Option Bool) marks = _
  rw [if_pos marked]
  rfl

/-- On behalf of another one the search is made with its mark. -/
theorem whileMarked_of_unmarked {marks : ClassMarks} (unmarked : marks id = false)
    (search : StateT ClassMarks Option Bool) :
    whileMarked id search marks =
      (search (marks.put id true)).bind fun found => some (found.1, found.2.put id false) := by
  change (ite (marks id = true) _ _ : StateT ClassMarks Option Bool) marks = _
  rw [if_neg (Bool.eq_false_iff.mp unmarked)]
  rfl

/-- The search with marks gives the answer of the one that hands the entered classes down, and takes
every mark away again that it sets. -/
theorem searchMarked_eq (depth : Nat) : ∀ (entered : List ClassId) (id : ClassId),
    entered.Nodup → (∀ other ∈ entered, store.HasClass other) →
      store.classes.size < depth + entered.length →
        store.searchMarked depth id (.of entered) =
          some (store.isGenericWithin depth entered id, .of entered) := by
  induction depth with
  | zero =>
    intro entered _ distinct inside deep
    obtain ⟨_, impossible⟩ := exists_depth_of_deep distinct inside deep
    cases impossible
  | succ depth inductionHypothesis =>
    intro entered id distinct inside deep
    rw [searchMarked]
    by_cases looking : id ∈ entered
    · rw [whileMarked_of_marked (decide_eq_true looking), isGenericWithin_of_entered _ looking]
    · rw [whileMarked_of_unmarked (decide_eq_false looking), isGenericWithin_succ depth looking,
        ClassMarks.put_true_of]
      cases (store.classAt id).openParameters.isEmpty with
      | false =>
        exact congrArg (fun marks => some (true, marks)) (ClassMarks.put_false_of looking)
      | true =>
        have each (base : ClassId) (derives : store.DerivesFrom id base) :=
          inductionHypothesis (id :: entered) base (List.nodup_cons.mpr ⟨looking, distinct⟩)
            (List.forall_mem_cons.mpr ⟨derives.hasClass, inside⟩)
            (by rw [List.length_cons]; omega)
        rw [if_pos rfl, anyM_of_each each, Option.bind_some, ClassMarks.put_false_of looking]
        rfl

/-- A class is generic exactly if one of its ancestors has an open parameter, itself included,
however the bases lead back and are shared. The search with marks ends with that answer once it may
go deep enough, and leaves no class marked.

Proof: what the search misses because a class is marked is found on behalf of that class, since a
way to an ancestor can start where it leaves that class for the last time. Every class that is
entered is a class of the store and is entered once on a way, so their number bounds the depth. -/
theorem isGeneric_iff_ancestor (store : Store) (id : ClassId) :
    (∀ depth, store.classes.size < depth →
      store.searchMarked depth id .cleared = some (store.isGeneric id, .cleared)) ∧
    (store.isGeneric id = true ↔
      ∃ ancestor, store.HasAncestor id ancestor ∧
        (store.classAt ancestor).openParameters ≠ []) := by
  constructor
  · intro depth deep
    have sameAnswer : store.isGenericWithin depth [] id = store.isGeneric id := by
      rw [Bool.eq_iff_iff, isGeneric,
        isGenericWithin_iff depth [] id List.nodup_nil (List.forall_mem_nil _)
          List.not_mem_nil deep,
        isGenericWithin_iff _ [] id List.nodup_nil (List.forall_mem_nil _)
          List.not_mem_nil (Nat.lt_succ_self _)]
    exact sameAnswer ▸ searchMarked_eq depth [] id List.nodup_nil (List.forall_mem_nil _) deep
  · rw [isGeneric, isGenericWithin_iff _ [] id List.nodup_nil (List.forall_mem_nil _)
      List.not_mem_nil (Nat.lt_succ_self _)]
    simp only [HasAncestorAround, HasAncestor, List.not_mem_nil, not_false_eq_true, and_true]

end TypeInference.Store
