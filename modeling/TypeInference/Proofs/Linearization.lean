import TypeInference.Proofs.Orders

/-!
# Orders that respect all sequences

The order of some bases is merged by taking one class after the other. What is taken
has no identity twice and has every sequence in order, and the merge gets stuck only
if there is no such list: along one that there is, the first identity that starts a
sequence stands behind the start of none. So the bases are taken depth first only
where the orders contradict each other.
-/

namespace TypeInference

namespace Store

/-- The sequences that the order of some bases is merged from. -/
def sequencesOf (store : Store) (bases : List ClassId) : List (List ClassId) :=
  bases.map store.lineage ++ [bases]

/-- The sequences that still have a class. -/
def remaining (sequences : List (List ClassId)) : List (List ClassId) :=
  sequences.filter fun sequence => !sequence.isEmpty

/-- A list of identities that has none twice and has all sequences in order. -/
structure Respects (store : Store) (sequences : List (List ClassId)) (order : List TypeHash) :
    Prop where
  distinct : order.Nodup
  inOrder : ∀ sequence ∈ sequences, (store.hashes sequence).Sublist order

/-- The classes that are taken one after the other until nothing remains. -/
inductive Merging (store : Store) : List (List ClassId) → List ClassId → Prop
  | done {sequences : List (List ClassId)} (nothing : remaining sequences = []) :
      Merging store sequences []
  | take {sequences : List (List ClassId)} {head : ClassId} {taken : List ClassId}
      (next : store.nextInOrder? (remaining sequences) = some head)
      (rest : Merging store ((remaining sequences).map (store.dropHead head)) taken) :
      Merging store sequences (head :: taken)

section Merging

variable {store : Store} {sequences : List (List ClassId)} {head : ClassId}

theorem mem_remaining {sequence : List ClassId} :
    sequence ∈ remaining sequences ↔ sequence ∈ sequences ∧ sequence ≠ [] := by
  simp [remaining]

theorem remaining_eq_nil_iff : remaining sequences = [] ↔ ∀ sequence ∈ sequences, sequence = [] := by
  simp [remaining, List.filter_eq_nil_iff]

/-- Leaving out sequences without classes leaves out no class. -/
theorem length_remaining : (remaining sequences).flatten.length = sequences.flatten.length := by
  induction sequences with
  | nil => rfl
  | cons first others inductionHypothesis =>
    cases first with
    | nil => exact inductionHypothesis
    | cons member rest =>
      change (((member :: rest) :: remaining others).flatten).length = _
      rw [List.flatten_cons, List.flatten_cons, List.length_append, List.length_append,
        inductionHypothesis]

/-- The class that is taken stands behind the start of no sequence. -/
theorem not_mem_tail (next : store.nextInOrder? sequences = some head) {sequence : List ClassId}
    (listed : sequence ∈ sequences) : store.classHash head ∉ store.hashes sequence.tail := by
  have free : store.inSomeTail sequences head = false := by simpa using List.find?_some next
  intro found
  obtain ⟨other, behind, same⟩ := List.mem_map.mp found
  have blocked : store.inSomeTail sequences head = true :=
    List.any_eq_true.mpr ⟨sequence, listed, List.any_eq_true.mpr
      ⟨other, behind, decide_eq_true same⟩⟩
  exact absurd (blocked.symm.trans free) (by decide)

/-- Once a class is taken, nothing with its identity is left. -/
theorem not_mem_taken (next : store.nextInOrder? sequences = some head) {sequence : List ClassId}
    (listed : sequence ∈ sequences.map (store.dropHead head)) :
    store.classHash head ∉ store.hashes sequence := by
  obtain ⟨original, among, rfl⟩ := List.mem_map.mp listed
  have free := not_mem_tail next among
  cases original with
  | nil => exact List.not_mem_nil
  | cons first rest =>
    by_cases same : store.classHash first = store.classHash head
    · rw [dropHead, if_pos same]
      exact free
    · rw [dropHead, if_neg same, hashes, List.map_cons, List.mem_cons, not_or]
      exact ⟨fun equal => same equal.symm, free⟩

/-- A sequence without the head that is taken is in order after that head. -/
theorem sublist_cons_of_dropHead {sequence : List ClassId} {order : List TypeHash}
    (inOrder : (store.hashes (store.dropHead head sequence)).Sublist order) :
    (store.hashes sequence).Sublist (store.classHash head :: order) := by
  cases sequence with
  | nil => exact List.nil_sublist _
  | cons first rest =>
    by_cases same : store.classHash first = store.classHash head
    · rw [dropHead, if_pos same] at inOrder
      rw [hashes, List.map_cons, same]
      exact inOrder.cons_cons _
    · rw [dropHead, if_neg same] at inOrder
      exact inOrder.cons _

theorem sublist_dropHead (sequence : List ClassId) :
    (store.dropHead head sequence).Sublist sequence := by
  cases sequence with
  | nil => exact List.Sublist.refl _
  | cons first rest =>
    unfold dropHead
    simp only
    split
    · exact List.sublist_cons_self _ _
    · exact List.Sublist.refl _

/-- Every round leaves fewer classes. -/
theorem length_taken (next : store.nextInOrder? sequences = some head) :
    (sequences.map (store.dropHead head)).flatten.length < sequences.flatten.length := by
  -- Dropping makes no sequence longer, and makes the one that starts with the head shorter.
  have shrinks (others : List (List ClassId)) :
      (others.map (store.dropHead head)).flatten.length ≤ others.flatten.length := by
    induction others with
    | nil => exact Nat.le_refl _
    | cons first others inductionHypothesis =>
      have shorter : (store.dropHead head first).length ≤ first.length :=
        (sublist_dropHead first).length_le
      simp only [List.map_cons, List.flatten_cons, List.length_append]
      omega
  obtain ⟨sequence, listed, first⟩ := List.mem_filterMap.mp (List.mem_of_find?_eq_some next)
  obtain ⟨rest, rfl⟩ := List.head?_eq_some_iff.mp first
  obtain ⟨before, after, rfl⟩ := List.append_of_mem listed
  have shorter_before := shrinks before
  have shorter_after := shrinks after
  simp only [List.map_append, List.map_cons, List.flatten_append, List.flatten_cons,
    List.length_append, dropHead, if_true, List.length_cons]
  omega

end Merging

namespace Merging

variable {store : Store} {sequences : List (List ClassId)} {taken : List ClassId}

/-- Only classes of the sequences are taken. -/
theorem subset (merging : store.Merging sequences taken) {hash : TypeHash}
    (found : hash ∈ store.hashes taken) : ∃ sequence ∈ sequences, hash ∈ store.hashes sequence := by
  induction merging with
  | done _ => cases found
  | @take sequences head taken next rest inductionHypothesis =>
    rw [← store.mem_hashes_remaining sequences hash]
    exact (store.mem_hashes_taken (store.mem_of_nextInOrder? next) hash).mp
      ((List.mem_cons.mp found).imp_right inductionHypothesis)

/-- No identity is taken twice. -/
theorem nodup (merging : store.Merging sequences taken) : (store.hashes taken).Nodup := by
  induction merging with
  | done _ => exact List.nodup_nil
  | take next rest inductionHypothesis =>
    refine List.nodup_cons.mpr ⟨fun again => ?_, inductionHypothesis⟩
    obtain ⟨sequence, left, found⟩ := rest.subset again
    exact not_mem_taken next left found

/-- Every sequence is taken in order. -/
theorem sublist (merging : store.Merging sequences taken) {sequence : List ClassId}
    (listed : sequence ∈ sequences) : (store.hashes sequence).Sublist (store.hashes taken) := by
  induction merging generalizing sequence with
  | done nothing =>
    obtain rfl := remaining_eq_nil_iff.mp nothing sequence listed
    exact List.Sublist.refl _
  | @take sequences head taken next rest inductionHypothesis =>
    by_cases left : sequence = []
    · rw [left]
      exact List.nil_sublist _
    · exact sublist_cons_of_dropHead
        (inductionHypothesis (List.mem_map_of_mem (mem_remaining.mpr ⟨listed, left⟩)))

/-- What a merge takes respects all sequences. -/
theorem respects (merging : store.Merging sequences taken) :
    store.Respects sequences (store.hashes taken) :=
  ⟨merging.nodup, fun _ listed => merging.sublist listed⟩

/-- A bound of as many rounds as there are classes is enough for a merge that ends. -/
theorem mergeOrders (merging : store.Merging sequences taken) (own : TypeHash) {bound : Nat}
    (enough : sequences.flatten.length ≤ bound) :
    store.mergeOrders own bound sequences =
      some (taken.filter fun id => store.classHash id ≠ own) := by
  induction merging generalizing bound with
  | done nothing =>
    unfold Store.mergeOrders
    rw [remaining] at nothing
    simp [nothing]
  | @take sequences head taken next rest inductionHypothesis =>
    have fewer := length_taken next
    rw [length_remaining] at fewer
    obtain _ | bound := bound
    · exact absurd (Nat.lt_of_lt_of_le fewer enough) (Nat.not_lt_zero _)
    have several : (remaining sequences).isEmpty = false := by
      rw [List.isEmpty_eq_false_iff]
      intro none
      rw [none] at next
      cases next
    unfold Store.mergeOrders
    rw [remaining] at next several inductionHypothesis fewer
    simp only [several, next, inductionHypothesis (Nat.lt_succ_iff.mp
      (Nat.lt_of_lt_of_le fewer enough)), List.filter_cons, Option.map_some]
    by_cases same : store.classHash head = own <;> simp [same]

end Merging

section Completeness

variable {store : Store} {sequences : List (List ClassId)} {order : List TypeHash}

/-- What is merged within some bound was taken one after the other, and lacks the
identity that is left out. -/
theorem merging_of_mergeOrders {own : TypeHash} {bound : Nat} {merged : List ClassId}
    (given : store.mergeOrders own bound sequences = some merged) :
    ∃ taken, store.Merging sequences taken ∧
      merged = taken.filter fun id => store.classHash id ≠ own := by
  induction bound using Nat.strongRecOn generalizing sequences merged with
  | ind bound inductionHypothesis =>
    obtain ⟨nothing, rfl⟩ | ⟨fewer, head, rest, rfl, next, mergedRest, rfl⟩ :=
      store.mergeOrders_cases given
    · exact ⟨[], .done nothing, rfl⟩
    · obtain ⟨taken, merging, rfl⟩ := inductionHypothesis fewer (Nat.lt_succ_self fewer) mergedRest
      refine ⟨head :: taken, .take next merging, ?_⟩
      by_cases own : store.classHash head = own <;> simp [own]

/-- Where some list respects the sequences, the first of its identities that starts
one of them can be taken. The induction is on that list. -/
theorem Respects.next (respects : store.Respects sequences order)
    (nonempty : ∀ sequence ∈ sequences, sequence ≠ []) (some_sequence : sequences ≠ []) :
    ∃ head, store.nextInOrder? sequences = some head := by
  obtain ⟨distinct, inOrder⟩ := respects
  induction order with
  | nil =>
    obtain ⟨sequence, listed⟩ := List.exists_mem_of_ne_nil _ some_sequence
    exact absurd (List.map_eq_nil_iff.mp (List.sublist_nil.mp (inOrder sequence listed)))
      (nonempty sequence listed)
  | cons hash later inductionHypothesis =>
    rw [List.nodup_cons] at distinct
    by_cases starts : ∃ sequence ∈ sequences, ∃ head, sequence.head? = some head ∧
        store.classHash head = hash
    · obtain ⟨sequence, listed, head, first, rfl⟩ := starts
      -- Behind the start of a sequence stand only identities that come later.
      have free : store.inSomeTail sequences head = false := by
        refine List.any_eq_false.mpr fun other among => ?_
        rw [List.any_eq_true]
        rintro ⟨id, behind, same⟩
        have there : store.classHash head ∈ store.hashes other.tail :=
          List.mem_map.mpr ⟨id, behind, of_decide_eq_true same⟩
        have after : (store.hashes other.tail).Sublist later := by
          have tail := (inOrder other among).tail
          rwa [hashes, ← List.map_tail] at tail
        exact distinct.1 (after.subset there)
      refine Option.isSome_iff_exists.mp (List.find?_isSome.mpr ⟨head, ?_, ?_⟩)
      · exact List.mem_filterMap.mpr ⟨sequence, listed, first⟩
      · rw [free]
        rfl
    · refine inductionHypothesis distinct.2 fun sequence listed => ?_
      obtain ⟨head, rest, rfl⟩ := List.exists_cons_of_ne_nil (nonempty sequence listed)
      refine (List.sublist_cons_iff.mp (inOrder _ listed)).resolve_right ?_
      rintro ⟨_, same, -⟩
      exact starts ⟨_, listed, head, rfl, (List.cons.inj same).1⟩

/-- What respects the sequences respects what is left after a round. -/
theorem Respects.taken (respects : store.Respects sequences order) (head : ClassId) :
    store.Respects ((remaining sequences).map (store.dropHead head)) order := by
  refine ⟨respects.distinct, fun sequence listed => ?_⟩
  obtain ⟨original, left, rfl⟩ := List.mem_map.mp listed
  exact ((sublist_dropHead original).map _).trans
    (respects.inOrder original (mem_remaining.mp left).1)

/-- The merge ends where some list respects the sequences. The induction is on the
number of classes that are left. -/
theorem Respects.merging (respects : store.Respects sequences order) :
    ∃ taken, store.Merging sequences taken := by
  induction size : sequences.flatten.length using Nat.strongRecOn generalizing sequences with
  | _ size inductionHypothesis =>
    by_cases nothing : remaining sequences = []
    · exact ⟨[], .done nothing⟩
    · have respected : store.Respects (remaining sequences) order :=
        ⟨respects.distinct, fun sequence left => respects.inOrder _ (mem_remaining.mp left).1⟩
      obtain ⟨head, next⟩ :=
        respected.next (fun sequence left => (mem_remaining.mp left).2) nothing
      have fewer := length_taken next
      rw [length_remaining, size] at fewer
      obtain ⟨taken, rest⟩ := inductionHypothesis _ fewer (respects.taken head) rfl
      exact ⟨head :: taken, .take next rest⟩

/-- The bound decides nothing if there are as many rounds as classes. -/
theorem mergeOrders_of_enough (own : TypeHash) {bound : Nat}
    (enough : sequences.flatten.length ≤ bound) :
    store.mergeOrders own bound sequences =
      store.mergeOrders own sequences.flatten.length sequences := by
  refine Option.ext fun merged => ⟨fun given => ?_, fun given => ?_⟩
  · obtain ⟨taken, merging, rfl⟩ := merging_of_mergeOrders given
    exact merging.mergeOrders own (Nat.le_refl _)
  · obtain ⟨taken, merging, rfl⟩ := merging_of_mergeOrders given
    exact merging.mergeOrders own enough

/-- The merge gives no order exactly where no list respects the sequences. -/
theorem mergeOrders_eq_none_iff (own : TypeHash) :
    store.mergeOrders own sequences.flatten.length sequences = none ↔
      ¬∃ order, store.Respects sequences order := by
  refine ⟨fun stuck respected => ?_, fun contradiction => ?_⟩
  · obtain ⟨order, respects⟩ := respected
    obtain ⟨taken, merging⟩ := respects.merging
    rw [merging.mergeOrders own (Nat.le_refl _)] at stuck
    cases stuck
  · refine Option.eq_none_iff_forall_ne_some.mpr fun merged given => contradiction ?_
    obtain ⟨taken, merging, -⟩ := merging_of_mergeOrders given
    exact ⟨_, merging.respects⟩

end Completeness

section Linearization

variable (store : Store) (own : TypeHash) (bases : List ClassId)

/-- Adding classes that have other identities keeps the identities distinct. -/
theorem nodup_depthFirst : (store.hashes (store.depthFirst own bases)).Nodup := by
  have walked (ids order : List ClassId) (distinct : (store.hashes order).Nodup) :
      (store.hashes (ids.foldl (store.addDistinctClass own) order)).Nodup := by
    induction ids generalizing order with
    | nil => exact distinct
    | cons first rest inductionHypothesis =>
      refine inductionHypothesis _ ?_
      unfold addDistinctClass
      split
      · exact distinct
      · next unknown =>
        simp only [Bool.or_eq_true, decide_eq_true_eq, List.any_eq_true, not_or] at unknown
        rw [hashes, List.map_append, List.map_singleton]
        refine List.nodup_append.mpr ⟨distinct, List.nodup_cons.mpr
          ⟨List.not_mem_nil, List.nodup_nil⟩, fun hash known other added same => ?_⟩
        obtain ⟨id, listed, rfl⟩ := List.mem_map.mp known
        exact unknown.2 ⟨id, listed, same.trans (List.mem_singleton.mp added)⟩
  exact walked _ _ List.nodup_nil

/-- The identities that are left after one is left out. -/
theorem hashes_filter (ids : List ClassId) :
    store.hashes (ids.filter fun id => store.classHash id ≠ own) =
      (store.hashes ids).filter fun hash => hash ≠ own := by
  rw [hashes, hashes, List.filter_map]
  rfl

/-- An order has no identity twice, also if the bases are taken depth first. -/
theorem nodup_linearize : (store.hashes (store.linearize own bases)).Nodup := by
  unfold linearize
  simp only
  cases given : store.mergeOrders own (bases.map store.lineage ++ [bases]).flatten.length
      (bases.map store.lineage ++ [bases]) with
  | none => exact store.nodup_depthFirst own bases
  | some merged =>
    obtain ⟨taken, merging, rfl⟩ := merging_of_mergeOrders given
    rw [Option.getD_some, hashes_filter]
    exact merging.nodup.filter _

/-- Where a list respects the sequences, the order is merged and respects them too. -/
theorem linearize_of_respects {order : List TypeHash}
    (respects : store.Respects (store.sequencesOf bases) order) :
    store.mergeOrders own (store.sequencesOf bases).flatten.length (store.sequencesOf bases) =
        some (store.linearize own bases) ∧
      ∀ sequence ∈ store.sequencesOf bases,
        ((store.hashes sequence).filter fun hash => hash ≠ own).Sublist
          (store.hashes (store.linearize own bases)) := by
  obtain ⟨taken, merging⟩ := respects.merging
  have merged := merging.mergeOrders own (Nat.le_refl _)
  have linearized : store.linearize own bases =
      taken.filter fun id => store.classHash id ≠ own := by
    rw [linearize, ← sequencesOf, merged]
    rfl
  rw [linearized]
  refine ⟨merged, fun sequence listed => ?_⟩
  rw [hashes_filter]
  exact (merging.sublist listed).filter _

end Linearization

/-- A class that is given bases gets an order of its bases and of what their orders
contain, each identity once and its own left out; no bound cuts the merge. Where a
list respects the lineage of every base and the bases themselves, the order respects
them too, and the bases are taken depth first exactly where there is no such list. -/
theorem resolutionOrder_setBases_respects {store : Store} {id : ClassId} (types : List Ty)
    (present : store.HasClass id) :
    let own := store.classHash id
    let bases := types.filterMap Ty.asClass?
    let sequences := store.sequencesOf bases
    let merged := store.mergeOrders own sequences.flatten.length sequences
    let order := ((store.setBases id types).classAt id).resolutionOrder
    (∀ bound, sequences.flatten.length ≤ bound →
        store.mergeOrders own bound sequences = merged) ∧
      order = merged.getD (store.depthFirst own bases) ∧
      (store.hashes order).Nodup ∧
      (∀ hash, hash ∈ store.hashes order ↔
        hash ≠ own ∧ ∃ base ∈ bases, store.Reaches base hash) ∧
      (∀ linear, store.Respects sequences linear → ∀ sequence ∈ sequences,
        ((store.hashes sequence).filter fun hash => hash ≠ own).Sublist (store.hashes order)) ∧
      (merged = none ↔ ¬∃ linear, store.Respects sequences linear) := by
  have computed : ((store.setBases id types).classAt id).resolutionOrder =
      store.linearize (store.classHash id) (types.filterMap Ty.asClass?) := by
    rw [classAt_setBases, if_pos ⟨rfl, present⟩]
  simp only [computed]
  exact ⟨fun _ enough => mergeOrders_of_enough _ enough, rfl, store.nodup_linearize _ _,
    store.mem_hashes_linearize _ _,
    fun _ respects => (store.linearize_of_respects _ _ respects).2, mergeOrders_eq_none_iff _⟩

/-- Two classes with one base, and a class with these as its bases. -/
def diamondModule : Module :=
  ⟨[.defineClass 1 "A" [] [.pass .unknown],
    .defineClass 2 "B" [.ofName "A"] [.pass .unknown],
    .defineClass 3 "C" [.ofName "A"] [.pass .unknown],
    .defineClass 4 "D" [.ofName "B", .ofName "C"] [.pass .unknown]]⟩

/-- The class at the bottom gets an order in which both of its bases come before theirs. -/
theorem resolutionOrder_setBases_diamond :
    let store := Analyzer.storeAfter {} diamondModule
    let order := ((store.setBases ⟨24⟩ [.cls ⟨22⟩, .cls ⟨23⟩]).classAt ⟨24⟩).resolutionOrder
    order = [⟨22⟩, ⟨23⟩, ⟨21⟩, builtinClass .object] ∧
      ∀ sequence ∈ store.sequencesOf [⟨22⟩, ⟨23⟩],
        ((store.hashes sequence).filter fun hash => hash ≠ store.classHash ⟨24⟩).Sublist
          (store.hashes order) := by
  have present : (Analyzer.storeAfter {} diamondModule).HasClass ⟨24⟩ := by decide +kernel
  have respects : (Analyzer.storeAfter {} diamondModule).Respects
      ((Analyzer.storeAfter {} diamondModule).sequencesOf [⟨22⟩, ⟨23⟩])
      ((Analyzer.storeAfter {} diamondModule).hashes
        [⟨22⟩, ⟨23⟩, ⟨21⟩, builtinClass .object]) :=
    ⟨by decide +kernel, by decide +kernel⟩
  obtain ⟨_, _, _, _, kept, _⟩ :=
    resolutionOrder_setBases_respects [.cls ⟨22⟩, .cls ⟨23⟩] present
  exact ⟨by decide +kernel, kept _ respects⟩

end Store

end TypeInference
