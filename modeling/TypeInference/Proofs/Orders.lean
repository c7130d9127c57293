import TypeInference.Proofs.Bookkeeping
import TypeInference.Proofs.Operations
import TypeInference.Proofs.Phrases

/-!
# What resolution orders contain

The order of a class contains its bases and what their orders contain when it is
computed, whichever way they are merged, and nothing else; identities decide what
is the same class. An order is not computed again. So the order of a class lacks
what the order of a base got later, and nothing else. A specialization that is
made while one of its bases is still being made is ordered before that base.
-/

namespace TypeInference

namespace Store

/-- The identities of some classes. -/
def hashes (store : Store) (ids : List ClassId) : List TypeHash :=
  ids.map store.classHash

/-- The identities in the order of a class. -/
def orderHashes (store : Store) (id : ClassId) : List TypeHash :=
  store.hashes (store.classAt id).resolutionOrder

/-- An identity is that of a class, or one in its order. -/
def Reaches (store : Store) (id : ClassId) (hash : TypeHash) : Prop :=
  hash = store.classHash id ∨ hash ∈ store.orderHashes id

section Merging

variable (store : Store)

/-- The identities along the lineage of a class. -/
theorem mem_hashes_lineage (id : ClassId) (hash : TypeHash) :
    hash ∈ store.hashes (store.lineage id) ↔ store.Reaches id hash := by
  simp only [hashes, lineage, List.map_cons, List.mem_cons]
  rfl

/-- Dropping the head of a sequence loses no identity but that of the head. -/
theorem mem_hashes_dropHead (head : ClassId) (sequence : List ClassId) (hash : TypeHash) :
    hash = store.classHash head ∨ hash ∈ store.hashes (store.dropHead head sequence) ↔
      hash = store.classHash head ∨ hash ∈ store.hashes sequence := by
  cases sequence with
  | nil => rfl
  | cons first rest =>
    unfold dropHead
    by_cases same : store.classHash first = store.classHash head
    · simp [same, hashes]
    · simp [same]

/-- Dropping the head of a sequence adds nothing. -/
theorem dropHead_subset (head : ClassId) (sequence : List ClassId) :
    store.dropHead head sequence ⊆ sequence := by
  unfold dropHead
  split
  · exact List.Subset.refl _
  · split
    · exact List.subset_cons_self _ _
    · exact List.Subset.refl _

/-- The class that is taken next stands in a sequence. -/
theorem mem_of_nextInOrder? {sequences : List (List ClassId)} {head : ClassId}
    (next : store.nextInOrder? sequences = some head) :
    ∃ sequence ∈ sequences, head ∈ sequence := by
  obtain ⟨sequence, listed, first⟩ := List.mem_filterMap.mp (List.mem_of_find?_eq_some next)
  exact ⟨sequence, listed, List.mem_of_head? first⟩

/-- Sequences without classes have no identities. -/
theorem mem_hashes_remaining (sequences : List (List ClassId)) (hash : TypeHash) :
    (∃ sequence ∈ sequences.filter (fun sequence => !sequence.isEmpty),
        hash ∈ store.hashes sequence) ↔
      ∃ sequence ∈ sequences, hash ∈ store.hashes sequence := by
  constructor
  · rintro ⟨sequence, listed, found⟩
    exact ⟨sequence, (List.mem_filter.mp listed).1, found⟩
  · rintro ⟨sequence, listed, found⟩
    refine ⟨sequence, List.mem_filter.mpr ⟨listed, ?_⟩, found⟩
    cases sequence with
    | nil => cases found
    | cons first rest => rfl

/-- Taking a class that some sequence has loses no identity but its own. -/
theorem mem_hashes_taken {sequences : List (List ClassId)} {head : ClassId}
    (listed : ∃ sequence ∈ sequences, head ∈ sequence) (hash : TypeHash) :
    (hash = store.classHash head ∨
        ∃ sequence ∈ sequences.map (store.dropHead head), hash ∈ store.hashes sequence) ↔
      ∃ sequence ∈ sequences, hash ∈ store.hashes sequence := by
  constructor
  · rintro (rfl | ⟨dropped, taken, found⟩)
    · obtain ⟨sequence, among, here⟩ := listed
      exact ⟨sequence, among, List.mem_map_of_mem here⟩
    · obtain ⟨sequence, among, rfl⟩ := List.mem_map.mp taken
      rcases (store.mem_hashes_dropHead head sequence hash).mp (.inr found) with rfl | kept
      · obtain ⟨sequence, among, here⟩ := listed
        exact ⟨sequence, among, List.mem_map_of_mem here⟩
      · exact ⟨sequence, among, kept⟩
  · rintro ⟨sequence, among, found⟩
    refine ((store.mem_hashes_dropHead head sequence hash).mpr (.inr found)).imp_right
      fun kept => ?_
    exact ⟨_, List.mem_map_of_mem among, kept⟩

/-- A merge that ends has nothing left to take, or takes the class that comes next and then merges
what is left of the sequences. -/
theorem mergeOrders_cases {own : TypeHash} {bound : Nat} {sequences : List (List ClassId)}
    {order : List ClassId} (merged : store.mergeOrders own bound sequences = some order) :
    let remaining := sequences.filter fun sequence => !sequence.isEmpty
    remaining = [] ∧ order = [] ∨
      ∃ fewer head rest, bound = fewer + 1 ∧ store.nextInOrder? remaining = some head ∧
        store.mergeOrders own fewer (remaining.map (store.dropHead head)) = some rest ∧
        order = if store.classHash head = own then rest else head :: rest := by
  unfold mergeOrders at merged
  simp only at merged
  split at merged
  · next none =>
    cases merged
    exact .inl ⟨List.isEmpty_iff.mp none, rfl⟩
  · split at merged
    · next fewer head next =>
      obtain ⟨rest, mergedRest, rfl⟩ := Option.map_eq_some_iff.mp merged
      exact .inr ⟨fewer, head, rest, rfl, next, mergedRest, rfl⟩
    · cases merged

/-- A merged order has the identities of all sequences but the one that is left out.
The induction is on the bound, since every round takes one class. -/
theorem mem_hashes_mergeOrders (own : TypeHash) (bound : Nat) (sequences : List (List ClassId))
    {order : List ClassId} (merged : store.mergeOrders own bound sequences = some order)
    (hash : TypeHash) :
    hash ∈ store.hashes order ↔
      hash ≠ own ∧ ∃ sequence ∈ sequences, hash ∈ store.hashes sequence := by
  -- A round looks at the sequences that are left, so these are what is compared.
  rw [← store.mem_hashes_remaining sequences hash]
  induction bound using Nat.strongRecOn generalizing sequences order with
  | ind bound inductionHypothesis =>
    obtain ⟨none, rfl⟩ | ⟨fewer, head, rest, rfl, next, mergedRest, rfl⟩ :=
      store.mergeOrders_cases merged
    · simp [none, hashes]
    · -- What the sequences hold is the head that is taken and what is left after it.
      have others := inductionHypothesis fewer (Nat.lt_succ_self fewer) _ mergedRest
      rw [store.mem_hashes_remaining] at others
      rw [← store.mem_hashes_taken (store.mem_of_nextInOrder? next) hash]
      by_cases own : store.classHash head = own
      · rw [if_pos own, others]
        exact ⟨fun found => ⟨found.1, .inr found.2⟩, fun found =>
          ⟨found.1, found.2.resolve_left fun same => found.1 (same.trans own)⟩⟩
      · rw [if_neg own, hashes, List.map_cons, List.mem_cons, ← hashes, others]
        constructor
        · rintro (rfl | found)
          · exact ⟨own, .inl rfl⟩
          · exact ⟨found.1, .inr found.2⟩
        · rintro ⟨other, same | found⟩
          · exact .inl same
          · exact .inr ⟨other, found⟩

/-- Adding a class to an order adds its identity, unless that is left out. -/
theorem mem_hashes_addDistinctClass (own : TypeHash) (order : List ClassId) (id : ClassId)
    (hash : TypeHash) :
    hash ∈ store.hashes (store.addDistinctClass own order id) ↔
      hash ∈ store.hashes order ∨ hash ≠ own ∧ hash = store.classHash id := by
  unfold addDistinctClass
  split
  · next known =>
    refine ⟨.inl, fun found => found.elim (fun before => before) fun ⟨other, same⟩ => ?_⟩
    subst same
    simp only [Bool.or_eq_true, decide_eq_true_eq, List.any_eq_true] at known
    obtain ⟨member, listed, equal⟩ := known.resolve_left other
    exact List.mem_map.mpr ⟨member, listed, equal⟩
  · next unknown =>
    simp only [Bool.or_eq_true, decide_eq_true_eq, List.any_eq_true, not_or] at unknown
    simp only [hashes, List.map_append, List.map_cons, List.map_nil, List.mem_append,
      List.mem_singleton]
    refine ⟨fun found => found.imp_right fun same => ⟨?_, same⟩,
      fun found => found.imp_right And.right⟩
    rw [same]
    exact unknown.1

/-- The depth first order has the identities of the bases and their orders but the
one that is left out. -/
theorem mem_hashes_depthFirst (own : TypeHash) (bases : List ClassId) (hash : TypeHash) :
    hash ∈ store.hashes (store.depthFirst own bases) ↔
      hash ≠ own ∧ ∃ base ∈ bases, store.Reaches base hash := by
  -- The order so far is general here, as the fold starts with the empty one.
  have walked (ids order : List ClassId) :
      hash ∈ store.hashes (ids.foldl (store.addDistinctClass own) order) ↔
        hash ∈ store.hashes order ∨ hash ≠ own ∧ hash ∈ store.hashes ids := by
    induction ids generalizing order with
    | nil => simp [hashes]
    | cons first rest inductionHypothesis =>
      rw [List.foldl_cons, inductionHypothesis, mem_hashes_addDistinctClass, or_assoc,
        ← and_or_left]
      simp only [hashes, List.map_cons, List.mem_cons]
  rw [depthFirst, walked]
  simp only [← mem_hashes_lineage, hashes, List.map_nil, List.not_mem_nil, false_or,
    List.mem_map, List.mem_flatMap]
  constructor
  · rintro ⟨other, id, ⟨base, among, listed⟩, same⟩
    exact ⟨other, base, among, id, listed, same⟩
  · rintro ⟨other, base, among, id, listed, same⟩
    exact ⟨other, id, ⟨base, among, listed⟩, same⟩

/-- The order of some bases has the identities of the bases and their orders but
the one that is left out. -/
theorem mem_hashes_linearize (own : TypeHash) (bases : List ClassId) (hash : TypeHash) :
    hash ∈ store.hashes (store.linearize own bases) ↔
      hash ≠ own ∧ ∃ base ∈ bases, store.Reaches base hash := by
  unfold linearize
  simp only
  cases merged : store.mergeOrders own (bases.map store.lineage ++ [bases]).flatten.length
      (bases.map store.lineage ++ [bases]) with
  | none => exact store.mem_hashes_depthFirst own bases hash
  | some order =>
    rw [Option.getD_some, store.mem_hashes_mergeOrders own _ _ merged hash]
    refine and_congr_right fun _ => ?_
    simp only [List.mem_append, List.mem_map, List.mem_singleton, or_and_right, exists_or,
      exists_eq_left]
    -- The list of the bases themselves is merged as well, and adds nothing to their lineages.
    constructor
    · rintro (⟨_, ⟨base, among, rfl⟩, found⟩ | found)
      · exact ⟨base, among, (store.mem_hashes_lineage base hash).mp found⟩
      · obtain ⟨base, among, rfl⟩ := List.mem_map.mp found
        exact ⟨base, among, .inl rfl⟩
    · rintro ⟨base, among, reached⟩
      exact .inl ⟨_, ⟨base, among, rfl⟩, (store.mem_hashes_lineage base hash).mpr reached⟩

/-- A merged order has classes of the sequences only. The induction is on the bound. -/
theorem mergeOrders_subset (own : TypeHash) (bound : Nat) (sequences : List (List ClassId))
    {order : List ClassId} (merged : store.mergeOrders own bound sequences = some order)
    {id : ClassId} (listed : id ∈ order) : ∃ sequence ∈ sequences, id ∈ sequence := by
  induction bound generalizing sequences order with
  | zero =>
    unfold mergeOrders at merged
    simp only at merged
    split at merged <;> cases merged
    cases listed
  | succ bound inductionHypothesis =>
    unfold mergeOrders at merged
    simp only at merged
    split at merged
    · cases merged
      cases listed
    · split at merged
      · next count head same next =>
        cases same
        obtain ⟨rest, mergedRest, rfl⟩ := Option.map_eq_some_iff.mp merged
        have remaining {sequence : List ClassId} (among : sequence ∈
            sequences.filter fun sequence => !sequence.isEmpty) : sequence ∈ sequences :=
          (List.mem_filter.mp among).1
        have further (later : id ∈ rest) : ∃ sequence ∈ sequences, id ∈ sequence := by
          obtain ⟨dropped, taken, found⟩ := inductionHypothesis _ mergedRest later
          obtain ⟨sequence, among, rfl⟩ := List.mem_map.mp taken
          exact ⟨sequence, remaining among, store.dropHead_subset head sequence found⟩
        split at listed
        · exact further listed
        · rcases List.mem_cons.mp listed with rfl | later
          · obtain ⟨sequence, among, found⟩ := store.mem_of_nextInOrder? next
            exact ⟨sequence, remaining among, found⟩
          · exact further later
      · cases merged

/-- The depth first order has classes of the lineages only. -/
theorem depthFirst_subset (own : TypeHash) (bases : List ClassId) {id : ClassId}
    (listed : id ∈ store.depthFirst own bases) : ∃ base ∈ bases, id ∈ store.lineage base := by
  have walked (ids order : List ClassId)
      (listed : id ∈ ids.foldl (store.addDistinctClass own) order) : id ∈ order ∨ id ∈ ids := by
    induction ids generalizing order with
    | nil => exact .inl listed
    | cons first rest inductionHypothesis =>
      rcases inductionHypothesis _ listed with before | later
      · unfold addDistinctClass at before
        split at before
        · exact .inl before
        · exact (List.mem_append.mp before).imp_right fun last =>
            List.mem_cons.mpr (.inl (List.mem_singleton.mp last))
      · exact .inr (List.mem_cons_of_mem _ later)
  rcases walked _ _ listed with impossible | found
  · cases impossible
  · exact List.mem_flatMap.mp found

/-- A linearized order has bases and classes of their orders only. -/
theorem linearize_subset (own : TypeHash) (bases : List ClassId) {id : ClassId}
    (listed : id ∈ store.linearize own bases) : ∃ base ∈ bases, id ∈ store.lineage base := by
  unfold linearize at listed
  simp only at listed
  cases merged : store.mergeOrders own (bases.map store.lineage ++ [bases]).flatten.length
      (bases.map store.lineage ++ [bases]) with
  | none =>
    rw [merged] at listed
    exact store.depthFirst_subset own bases listed
  | some order =>
    rw [merged] at listed
    obtain ⟨sequence, among, found⟩ := store.mergeOrders_subset own _ _ merged listed
    rcases List.mem_append.mp among with lineages | itself
    · obtain ⟨base, ofBase, rfl⟩ := List.mem_map.mp lineages
      exact ⟨base, ofBase, found⟩
    · rw [List.mem_singleton.mp itself] at found
      exact ⟨id, found, List.mem_cons_self⟩

end Merging

/-- The events after a class was ordered last; all events if it was not. -/
def sinceOrdered (id : ClassId) (events : List Event) : List Event :=
  events.foldl (fun since event => if event = .ordered id then [] else since ++ [event]) []

/-- The events since a class was ordered go on until it is ordered again. -/
theorem sinceOrdered_append (id : ClassId) (events : List Event) (event : Event) :
    sinceOrdered id (events ++ [event]) =
      if event = .ordered id then [] else sinceOrdered id events ++ [event] := by
  simp [sinceOrdered, List.foldl_append]

/-- No class was created after it had been given to another one as a base. -/
def Grounded (store : Store) (events : List Event) : Prop :=
  ∀ id, ∀ base ∈ (store.classAt id).baseClasses, ∀ event ∈ sinceOrdered id events,
    event.createdClass? ≠ some base

/-- The order of a class has its bases and what their orders had when it was
computed; those that were not ordered before had none. -/
def Gathered (store : Store) (events : List Event) (id : ClassId) : Prop :=
  ∀ hash, hash ∈ store.orderHashes id ↔ hash ≠ store.classHash id ∧
    ∃ base ∈ (store.classAt id).baseClasses, hash = store.classHash base ∨
      .ordered base ∉ sinceOrdered id events ∧ hash ∈ store.orderHashes base

/-- The order of a class has its bases and everything in their orders. -/
def OrderComplete (store : Store) (id : ClassId) : Prop :=
  ∀ base ∈ (store.classAt id).baseClasses, ∀ hash, store.Reaches base hash →
    hash ≠ store.classHash id → hash ∈ store.orderHashes id

/-- A class that is in the store, or that some class has as a base. -/
def Mentions (store : Store) (id : ClassId) : Prop :=
  store.HasClass id ∨ ∃ derived, id ∈ (store.classAt derived).baseClasses

namespace Step

variable {confined : Prop} {store next : Store} {event : Event} {events : List Event}

/-- Bases change only where a class is ordered. -/
theorem baseClasses (step : Step confined store event next) (id : ClassId)
    (other : event ≠ .ordered id) :
    (next.classAt id).baseClasses = (store.classAt id).baseClasses := by
  unfold ClassRecord.baseClasses
  rw [(step.derivation id other).1]

/-- A class that is ordered had no base before. -/
theorem baseClasses_before {id : ClassId} (step : Step confined store (.ordered id) next) :
    (store.classAt id).baseClasses = [] := by
  unfold ClassRecord.baseClasses
  rw [step.ordered.2.1.bases]
  rfl

/-- The order of a class that is ordered, and that of every other one. -/
theorem resolutionOrder_ordered {id : ClassId} (step : Step confined store (.ordered id) next) :
    (next.classAt id).resolutionOrder =
        store.linearize (store.classHash id) (next.classAt id).baseClasses ∧
      ∀ other, next.classHash other = store.classHash other := by
  obtain ⟨present, _, bases, rfl⟩ := step.ordered
  refine ⟨?_, fun other => ?_⟩
  · rw [classAt_setBases, if_pos ⟨rfl, present⟩]
    rfl
  · unfold classHash
    rw [classAt_setBases]
    split <;> rfl

/-- Classes that are mentioned stay so. -/
theorem mentions (step : Step confined store event next) {id : ClassId}
    (mentioned : store.Mentions id) : next.Mentions id := by
  rcases mentioned with present | ⟨derived, base⟩
  · exact .inl (step.hasClass present)
  · refine .inr ⟨derived, ?_⟩
    by_cases ordered : event = .ordered derived
    · subst ordered
      rw [step.baseClasses_before] at base
      cases base
    · rw [step.baseClasses derived ordered]
      exact base

/-- Orders have only classes that are mentioned. -/
theorem ordersKnown (step : Step confined store event next)
    (known : ∀ id, ∀ listed ∈ (store.classAt id).resolutionOrder, store.Mentions listed) :
    ∀ id, ∀ listed ∈ (next.classAt id).resolutionOrder, next.Mentions listed := by
  intro id listed found
  by_cases ordered : event = .ordered id
  · subst ordered
    rw [step.resolutionOrder_ordered.1] at found
    obtain ⟨base, among, along⟩ := store.linearize_subset _ _ found
    rcases List.mem_cons.mp along with rfl | earlier
    · exact .inr ⟨id, among⟩
    · exact step.mentions (known base listed earlier)
  · rw [(step.derivation id ordered).2] at found
    exact step.mentions (known id listed found)

/-- What was grounded after a step was grounded before. -/
theorem grounded (step : Step confined store event next)
    (grounded : next.Grounded (events ++ [event])) : store.Grounded events := by
  intro id base among earlier since
  by_cases ordered : event = .ordered id
  · subst ordered
    rw [step.baseClasses_before] at among
    cases among
  · rw [← step.baseClasses id ordered] at among
    refine grounded id base among earlier ?_
    rw [sinceOrdered_append, if_neg ordered]
    exact List.mem_append_left _ since

/-- A class that is mentioned keeps its identity, since it was not created later. -/
theorem classHash (step : Step confined store event next)
    (grounded : next.Grounded (events ++ [event])) {id : ClassId}
    (mentioned : store.Mentions id) : next.classHash id = store.classHash id := by
  by_cases present : store.HasClass id
  · exact (step.sameIdentity present).hash
  · have absent : ¬next.HasClass id := by
      intro appeared
      have created := step.createdClass present appeared
      obtain ⟨derived, base⟩ := mentioned.resolve_left present
      have other : event ≠ .ordered derived := by
        rintro rfl
        cases created
      rw [← step.baseClasses derived other] at base
      refine grounded derived id base event ?_ created
      rw [sinceOrdered_append, if_neg other]
      exact List.mem_append_right _ (List.mem_singleton.mpr rfl)
    unfold Store.classHash
    rw [classAt_of_not_hasClass next id absent, classAt_of_not_hasClass store id present]

/-- Classes that are mentioned keep the identities in their orders. -/
theorem orderHashes (step : Step confined store event next)
    (grounded : next.Grounded (events ++ [event]))
    (known : ∀ id, ∀ listed ∈ (store.classAt id).resolutionOrder, store.Mentions listed)
    {id : ClassId} (other : event ≠ .ordered id) :
    next.orderHashes id = store.orderHashes id := by
  unfold Store.orderHashes hashes
  rw [(step.derivation id other).2]
  exact List.map_congr_left fun listed found => step.classHash grounded (known id listed found)

/-- A class that is ordered gathers what is there. -/
theorem gathered_ordered {id : ClassId} (step : Step confined store (.ordered id) next) :
    next.Gathered (events ++ [.ordered id]) id := by
  obtain ⟨order, same⟩ := step.resolutionOrder_ordered
  have unordered : store.orderHashes id = [] := by
    rw [Store.orderHashes, step.ordered.2.1.resolutionOrder]
    rfl
  have others {base : ClassId} (apart : base ≠ id) :
      next.orderHashes base = store.orderHashes base := by
    have kept : Event.ordered id ≠ .ordered base := fun equal => apart (by cases equal; rfl)
    unfold Store.orderHashes hashes
    rw [(step.derivation base kept).2]
    exact List.map_congr_left fun listed _ => same listed
  -- The order was computed from the store before, in which this class had none itself.
  have computed (hash : TypeHash) : hash ∈ next.orderHashes id ↔
      hash ≠ store.classHash id ∧
        ∃ base ∈ (next.classAt id).baseClasses, store.Reaches base hash := by
    rw [Store.orderHashes, order, ← store.mem_hashes_linearize]
    unfold hashes
    rw [List.map_congr_left fun listed _ => same listed]
  intro hash
  rw [sinceOrdered_append, if_pos rfl, same]
  constructor
  · intro found
    obtain ⟨apart, base, among, reached⟩ := (computed hash).mp found
    refine ⟨apart, base, among, ?_⟩
    rw [same]
    refine reached.imp_right fun along => ⟨List.not_mem_nil, ?_⟩
    by_cases itself : base = id
    · rw [itself, unordered] at along
      cases along
    · rw [others itself]
      exact along
  · rintro ⟨apart, base, among, reached⟩
    by_cases itself : base = id
    · subst itself
      rcases reached with equal | ⟨_, along⟩
      · exact absurd (equal.trans (same base)) apart
      · exact along
    · rw [same, others itself] at reached
      exact (computed hash).mpr ⟨apart, base, among, reached.imp_right And.right⟩

/-- What a class has gathered stays so. The order of a base that is ordered only
now does not count any more, and it was empty before. -/
theorem gathered (step : Step confined store event next)
    (grounded : next.Grounded (events ++ [event]))
    (known : ∀ id, ∀ listed ∈ (store.classAt id).resolutionOrder, store.Mentions listed)
    {id : ClassId} (gathered : store.Gathered events id) (there : store.Mentions id) :
    next.Gathered (events ++ [event]) id := by
  by_cases ordered : event = .ordered id
  · subst ordered
    exact step.gathered_ordered
  · intro hash
    rw [step.orderHashes grounded known ordered, step.classHash grounded there, gathered hash,
      step.baseClasses id ordered, sinceOrdered_append, if_neg ordered]
    refine and_congr_right fun _ => exists_congr fun base => and_congr_right fun among => ?_
    rw [step.classHash grounded (.inr ⟨id, among⟩)]
    refine or_congr_right ?_
    rw [List.mem_append, List.mem_singleton, not_or]
    -- A base that is ordered by this very step drops out of what counts, and its order was
    -- empty when this class was ordered.
    by_cases late : event = .ordered base
    · have unordered : store.orderHashes base = [] := by
        subst late
        rw [Store.orderHashes, step.ordered.2.1.resolutionOrder]
        rfl
      simp [late, unordered]
    · rw [step.orderHashes grounded known late]
      simp [Ne.symm late]

end Step

/-- A class that is not in the store has gathered nothing. -/
theorem gathered_of_not_hasClass {store : Store} {id : ClassId} (absent : ¬store.HasClass id)
    (events : List Event) : store.Gathered events id := by
  intro hash
  unfold orderHashes
  rw [classAt_of_not_hasClass store id absent]
  constructor
  · intro impossible
    cases impossible
  · rintro ⟨_, _, impossible, _⟩
    cases impossible

/-- Along a course every class that it created has gathered its bases and their
orders. The induction is on the course; orders mention no class that is created
later. -/
theorem Course.gathered {confined : Prop} {start store : Store} {events : List Event}
    (course : Course confined start events store)
    (known : ∀ id, ∀ listed ∈ (start.classAt id).resolutionOrder, start.Mentions listed)
    (grounded : store.Grounded events) :
    (∀ id, ∀ listed ∈ (store.classAt id).resolutionOrder, store.Mentions listed) ∧
      ∀ id, ¬start.HasClass id → store.Gathered events id := by
  induction course with
  | still => exact ⟨known, fun id absent => gathered_of_not_hasClass absent []⟩
  | @advance events store next event before step inductionHypothesis =>
    obtain ⟨ordersKnown, gathered⟩ := inductionHypothesis (step.grounded grounded)
    refine ⟨step.ordersKnown ordersKnown, fun id absent => ?_⟩
    -- A class that appears by this step has neither bases nor an order yet.
    by_cases present : store.HasClass id
    · exact step.gathered grounded ordersKnown (gathered id absent) (.inl present)
    · have unordered : event ≠ .ordered id := by
        rintro rfl
        exact present step.ordered.1
      intro hash
      have bases : (next.classAt id).baseClasses = [] := by
        rw [step.baseClasses id unordered, classAt_of_not_hasClass store id present]
        rfl
      have order : next.orderHashes id = [] := by
        unfold orderHashes
        rw [(step.derivation id unordered).2, classAt_of_not_hasClass store id present]
        rfl
      simp [bases, order]

/-- What a course creates was not there when it started. -/
theorem Course.not_hasClass_created {confined : Prop} {start store : Store}
    {events : List Event} (course : Course confined start events store) {event : Event}
    (listed : event ∈ events) {id : ClassId} (created : event.createdClass? = some id) :
    ¬start.HasClass id := by
  induction course with
  | still => cases listed
  | advance before step inductionHypothesis =>
    rcases List.mem_append.mp listed with earlier | last
    · exact inductionHypothesis earlier
    · rw [List.mem_singleton.mp last] at created
      exact fun registered => step.not_hasClass_created created (before.hasClass registered)

/-- The events since a class was ordered are events. -/
theorem mem_of_mem_sinceOrdered {id : ClassId} {events : List Event} {event : Event}
    (since : event ∈ sinceOrdered id events) : event ∈ events := by
  have walked (events before : List Event) (since : event ∈ events.foldl
      (fun since event => if event = .ordered id then [] else since ++ [event]) before) :
      event ∈ before ∨ event ∈ events := by
    induction events generalizing before with
    | nil => exact .inl since
    | cons first rest inductionHypothesis =>
      rcases inductionHypothesis _ since with earlier | later
      · dsimp only at earlier
        split at earlier
        · cases earlier
        · exact (List.mem_append.mp earlier).imp_right fun last =>
            List.mem_cons.mpr (.inl (List.mem_singleton.mp last))
      · exact .inr (List.mem_cons_of_mem _ later)
  exact (walked events [] since).resolve_left List.not_mem_nil

/-- A course in which all bases were there before is grounded. -/
theorem Course.grounded {confined : Prop} {start store : Store} {events : List Event}
    (course : Course confined start events store)
    (bases : ∀ id, ∀ base ∈ (store.classAt id).baseClasses, start.HasClass base) :
    store.Grounded events :=
  fun id base among _ since created =>
    course.not_hasClass_created (mem_of_mem_sinceOrdered since) created (bases id base among)

/-- The store after lists of integers were asked for. -/
def listsMade : Store :=
  (Operation.performAll 1 Registry.environment Registry.start
    [.specialize (builtinClass .list) (.ofTypes [builtinType .int] .unknown)]).store

/-- Every class has registered bases then. -/
theorem bases_listsMade (id : ClassId) {base : ClassId}
    (among : base ∈ (listsMade.classAt id).baseClasses) :
    Registry.standard.store.HasClass base := by
  have every := Registry.classAt_of_all listsMade
    (fun record => record.baseClasses.all fun base =>
      decide (base.index < Registry.standard.store.classes.size))
    (by decide +kernel) rfl id
  exact of_decide_eq_true (List.all_eq_true.mp every base among)

/-- A generic class whose constructor names a class that derives from a class that
derives from it. -/
def knotModule : Module :=
  ⟨[.typeVariable "T",
    .defineClass 1 "B" [.indexed "Generic" "T"]
      [.setter 2 "__init__"
        [{ name := .ofName "x", typeHint := some (.constant (.str "X") .unknown) }] "x"
        (.ofName "x")],
    .defineClass 3 "A" [.ofName "B"] [.pass .unknown],
    .defineClass 4 "X" [.ofName "A"] [.pass .unknown],
    .define "a" (.indexed "A" "int")]⟩

end Store

end TypeInference
