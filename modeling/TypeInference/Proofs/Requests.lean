import Mathlib.Data.Set.Finite.List
import TypeInference.Proofs.Evidence
import TypeInference.Proofs.Placeholder
import TypeInference.Proofs.Remaining

/-!
# Requests that could begin

A specialization begins only for a class that is no specialization itself, and only if none
is being made for the same signature. There are finitely many classes, and a signature lists
identities, of which there are finitely many, for parameters that the class has. So at any
time only finitely many requests could begin, and one less while one of them is being made.

An analysis is quiet if it declares and evaluates nothing and leaves the classes that are no
specializations as they are, up to members and finished specializations. What it creates are
specializations, so after a quiet analysis the same requests could begin as before.
-/

namespace TypeInference

instance : Finite TypeHash :=
  Finite.of_injective (fun hash : TypeHash => hash.value.toFin) fun first second same => by
    cases first
    cases second
    exact congrArg TypeHash.mk (UInt64.toFin_inj.mp same)

/-- How many parameters a class may have: as many as a marker lists, or else no more than
there are identities. -/
noncomputable def ClassRecord.mostParameters (record : ClassRecord) : Nat :=
  max (Nat.card TypeHash) ((record.explicitParameters?.getD []).length)

theorem length_typeParameters_le (store : Store) (id : ClassId) :
    (store.typeParameters id).length ≤ (store.classAt id).mostParameters := by
  have distinct (parameters known : List TypeParameter) (nodup : (known.map (·.hash)).Nodup) :
      ((parameters.foldl Bindings.addDistinct known).map (·.hash)).Nodup := by
    induction parameters generalizing known with
    | nil => exact nodup
    | cons parameter rest inductionHypothesis =>
      refine inductionHypothesis _ ?_
      unfold Bindings.addDistinct
      split
      · exact nodup
      · next absent =>
        rw [List.map_append, List.map_singleton]
        refine List.nodup_append.mpr ⟨nodup, List.nodup_singleton _, ?_⟩
        intro hash listed last isLast same
        obtain ⟨other, among, rfl⟩ := List.mem_map.mp listed
        refine absent (List.any_eq_true.mpr ⟨other, among, decide_eq_true ?_⟩)
        exact same.trans (List.mem_singleton.mp isLast)
  unfold Store.typeParameters ClassRecord.mostParameters
  dsimp only
  cases (store.classAt id).explicitParameters? with
  | some listed => exact le_max_right _ _
  | none =>
    have := Fintype.ofFinite TypeHash
    have few := List.Nodup.length_le_card (distinct ((store.classAt id).baseClasses.flatMap
      (fun base => (store.classAt base).openParameters) ++ (store.classAt id).openParameters) []
      List.nodup_nil)
    rw [List.length_map, ← Nat.card_eq_fintype_card] at few
    exact few.trans (le_max_left _ _)

namespace Store

/-- The specializations that could begin. -/
def requests (store : Store) : Set (ClassId × ResolvedSignature) :=
  {request | store.HasClass request.1 ∧ (store.classAt request.1).template = none ∧
    request.2.hashes.length ≤ (store.classAt request.1).mostParameters ∧
      Engine.unfinished? store request.1 request.2 = none}

/-- Only finitely many specializations could begin. -/
theorem finite_requests (store : Store) : store.requests.Finite := by
  have index : Set.InjOn ClassId.index {id | store.HasClass id} :=
    fun _ _ _ _ same => ClassId.eq_of_index same
  have classes : {id | store.HasClass id}.Finite := by
    refine Set.Finite.of_finite_image ?_ index
    refine (Set.finite_lt_nat store.classes.size).subset ?_
    rintro _ ⟨id, present, rfl⟩
    exact present
  have signatures (bound : Nat) :
      {signature : ResolvedSignature | signature.hashes.length ≤ bound}.Finite := by
    refine ((List.finite_length_le TypeHash bound).image ResolvedSignature.mk).subset ?_
    rintro ⟨hashes⟩ few
    exact ⟨hashes, few, rfl⟩
  refine (classes.biUnion fun id _ =>
    (signatures (store.classAt id).mostParameters).image (Prod.mk id)).subset ?_
  rintro ⟨id, signature⟩ ⟨present, -, few, -⟩
  exact Set.mem_biUnion present ⟨signature, few, rfl⟩

/-- While a specialization is made, another one of the same signature cannot begin. -/
theorem ncard_requests_begin_lt {store : Store} {template : ClassId} {bindings : Bindings}
    (requested : (template, store.signature bindings) ∈ store.requests) :
    (store.begin template bindings).requests.ncard < store.requests.ncard := by
  obtain ⟨present, original, few, idle⟩ := requested
  have classAt := fun id => classAt_begin store template id bindings present idle
  refine Set.ncard_lt_ncard ⟨?_, fun all => ?_⟩ (finite_requests store)
  · rintro ⟨id, signature⟩ ⟨there, unmade, short, free⟩
    have apart : id ≠ store.nextClass := by
      rintro rfl
      have made := classAt store.nextClass
      rw [if_pos rfl] at made
      rw [made] at unmade
      cases unmade
    have before := (((hasClass_begin store template id bindings).mp there).resolve_right apart)
    have record := classAt id
    rw [if_neg apart] at record
    unfold Engine.unfinished? at free
    dsimp only at unmade short free
    split at record
    · next own =>
      subst own
      rw [record] at unmade short free
      refine ⟨before, unmade, short, ?_⟩
      unfold UnfinishedStack.find? at free
      rw [Option.map_eq_none_iff, List.find?_cons] at free
      split at free
      · cases free
      · exact Option.map_eq_none_iff.mpr free
    · rw [record] at unmade short free
      exact ⟨before, unmade, short, free⟩
  · obtain ⟨-, -, -, free⟩ := all ⟨present, original, few, idle⟩
    have record := classAt template
    rw [if_neg (ne_nextClass present), if_pos rfl] at record
    unfold Engine.unfinished? at free
    rw [record] at free
    simp [UnfinishedStack.find?] at free

end Store

/-- What requests for specializations read of a class is the same. -/
def ClassRecord.SameRequests (before after : ClassRecord) : Prop :=
  after.template = before.template ∧ (before.template = none →
    after.hash = before.hash ∧ after.bases = before.bases ∧ after.unfinished = before.unfinished)

/-- Nothing was declared, nothing evaluated, and nothing created but specializations, and the
same specializations could begin as before. -/
structure Progress.Quiet (before after : Progress) : Prop where
  declared : after.symbols.functions = before.symbols.functions
  functions : after.store.functions = before.store.functions
  hasClass : ∀ id, before.store.HasClass id → after.store.HasClass id
  kept : ∀ id, before.store.HasClass id →
    (before.store.classAt id).SameRequests (after.store.classAt id)
  created : ∀ id, after.store.HasClass id → ¬before.store.HasClass id →
    (after.store.classAt id).template ≠ none

namespace Progress.Quiet

variable {first second third : Progress}

theorem refl (progress : Progress) : progress.Quiet progress :=
  ⟨rfl, rfl, fun _ => id, fun _ _ => ⟨rfl, fun _ => ⟨rfl, rfl, rfl⟩⟩,
    fun _ present absent => absurd present absent⟩

theorem trans (one : first.Quiet second) (other : second.Quiet third) : first.Quiet third where
  declared := other.declared.trans one.declared
  functions := other.functions.trans one.functions
  hasClass id present := other.hasClass id (one.hasClass id present)
  kept id present := by
    obtain ⟨template, same⟩ := one.kept id present
    obtain ⟨again, still⟩ := other.kept id (one.hasClass id present)
    refine ⟨again.trans template, fun original => ?_⟩
    obtain ⟨hash, bases, unfinished⟩ := same original
    obtain ⟨hash', bases', unfinished'⟩ := still (template.trans original)
    exact ⟨hash'.trans hash, bases'.trans bases, unfinished'.trans unfinished⟩
  created id present absent := by
    by_cases between : second.store.HasClass id
    · rw [(other.kept id between).1]
      exact one.created id between absent
    · exact other.created id present between

/-- What remains is a matter of functions. -/
theorem remaining (quiet : first.Quiet second) (nodes : List NodeId) :
    second.remaining nodes = first.remaining nodes := by
  have same (id : FunctionId) : second.store.functionAt id = first.store.functionAt id := by
    unfold Store.functionAt
    rw [quiet.functions]
  exact remaining_of_alike quiet.declared (fun id => by rw [same]) fun id => by rw [same]

/-- The same specializations could begin as before. -/
theorem requests (quiet : first.Quiet second) : second.store.requests = first.store.requests := by
  have unfinished {id : ClassId} (signature : ResolvedSignature)
      (present : first.store.HasClass id) (original : (first.store.classAt id).template = none) :
      Engine.unfinished? second.store id signature = Engine.unfinished? first.store id signature ∧
        (second.store.classAt id).mostParameters = (first.store.classAt id).mostParameters := by
    obtain ⟨hash, bases, unfinished⟩ := (quiet.kept id present).2 original
    unfold Engine.unfinished? ClassRecord.mostParameters ClassRecord.explicitParameters?
    dsimp only
    rw [hash, bases, unfinished]
    exact ⟨rfl, rfl⟩
  refine Set.ext fun ⟨id, signature⟩ => ⟨?_, ?_⟩
  · rintro ⟨present, original, few, free⟩
    have before : first.store.HasClass id := by
      refine Decidable.byContradiction fun absent => ?_
      exact quiet.created id present absent original
    have originally := (quiet.kept id before).1.symm.trans original
    obtain ⟨stack, most⟩ := unfinished signature before originally
    exact ⟨before, originally, few.trans_eq most, stack.symm.trans free⟩
  · rintro ⟨present, original, few, free⟩
    obtain ⟨stack, most⟩ := unfinished signature present original
    exact ⟨quiet.hasClass id present, (quiet.kept id present).1.trans original,
      few.trans_eq most.symm, stack.trans free⟩

/-- A change of one class is quiet if requests read the same of it. -/
theorem modifyClass (progress : Progress) {id : ClassId} {change : ClassRecord → ClassRecord}
    (same : (progress.store.classAt id).SameRequests (change (progress.store.classAt id))) :
    progress.Quiet { progress with store := progress.store.modifyClass id change } where
  declared := rfl
  functions := rfl
  hasClass other := (Store.hasClass_modifyClass progress.store id other change).mpr
  kept other _ := by
    dsimp only
    rw [Store.classAt_modifyClass_eq]
    split
    · next reached => exact reached.1 ▸ same
    · exact ⟨rfl, fun _ => ⟨rfl, rfl, rfl⟩⟩
  created other present absent :=
    absurd ((Store.hasClass_modifyClass progress.store id other change).mp present) absent

/-- A specialization is quiet as a whole if it was so after it had begun. -/
theorem finish {before made : Progress} {template : ClassId} {bindings : Bindings}
    (present : before.store.HasClass template)
    (original : (before.store.classAt template).template = none)
    (idle : Engine.unfinished? before.store template (before.store.signature bindings) = none)
    (quiet : Quiet { before with store := before.store.begin template bindings } made)
    (signature : ResolvedSignature) (placeholder : ClassId) :
    before.Quiet { made with store := made.store.finish template signature placeholder } := by
  have classAt := fun id => Store.classAt_begin before.store template id bindings present idle
  have hasClass := fun id => Store.hasClass_begin before.store template id bindings
  refine ⟨quiet.declared, quiet.functions, fun id there => ?_, fun id there => ?_,
    fun id there absent => ?_⟩
  · rw [Store.hasClass_finish]
    exact quiet.hasClass id ((hasClass id).mpr (.inl there))
  · dsimp only
    have kept := quiet.kept id ((hasClass id).mpr (.inl there))
    have begun := classAt id
    rw [if_neg (Store.ne_nextClass there)] at begun
    dsimp only at kept
    rw [begun] at kept
    rw [Store.classAt_finish]
    by_cases own : id = template
    · subst own
      rw [if_pos rfl] at kept
      have stays : made.store.HasClass id := quiet.hasClass id ((hasClass id).mpr (.inl there))
      rw [if_pos ⟨rfl, stays⟩]
      obtain ⟨again, same⟩ := kept
      obtain ⟨hash, bases, unfinished⟩ := same original
      refine ⟨again, fun _ => ⟨hash, bases, ?_⟩⟩
      dsimp only
      rw [unfinished]
      rfl
    · rw [if_neg own] at kept
      rw [if_neg fun reached => own reached.1]
      exact kept
  · rw [Store.hasClass_finish] at there
    have apart : id ≠ template := by
      rintro rfl
      exact absent present
    dsimp only
    rw [Store.classAt_finish, if_neg fun reached => apart reached.1]
    by_cases created : id = before.store.nextClass
    · have between := (hasClass id).mpr (.inr created)
      rw [(quiet.kept id between).1]
      dsimp only
      rw [classAt, if_pos created]
      exact Option.some_ne_none template
    · refine quiet.created id there fun between => ?_
      exact absent (((hasClass id).mp between).resolve_right created)

end Progress.Quiet

end TypeInference
