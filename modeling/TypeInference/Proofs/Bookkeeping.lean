import TypeInference.Proofs.Placeholder
import TypeInference.Proofs.Standard

/-!
# Unfinished and stored specializations

The placeholders on the stack of a template were made for that template, each
stands there once, and what a template has stored was made for it and is finished.
Every step keeps this, so a class is a specialization of one template only and is
never unfinished again once it is stored.
-/

namespace TypeInference

namespace OrderedTable

universe u v

/-- The values in the order in which their keys were first put. -/
def values {κ : Type u} {α : Type v} (table : OrderedTable κ α) : List α :=
  table.entries.map (·.2)

variable {κ : Type u} {α : Type v} [DecidableEq κ]

/-- An entry after a put was there before or is the one that was put. -/
theorem mem_entries_put {table : OrderedTable κ α} {key : κ} {value : α} {entry : κ × α}
    (listed : entry ∈ (table.put key value).entries) :
    entry ∈ table.entries ∨ entry = (key, value) := by
  have inEntries (entries : List (κ × α)) (listed : entry ∈ putIn key value entries) :
      entry ∈ entries ∨ entry = (key, value) := by
    induction entries with
    | nil => exact .inr (List.mem_singleton.mp listed)
    | cons first rest inductionHypothesis =>
      rw [putIn] at listed
      split at listed
      · next here =>
        rcases List.mem_cons.mp listed with rfl | later
        · exact .inr (by rw [here])
        · exact .inl (List.mem_cons_of_mem _ later)
      · rcases List.mem_cons.mp listed with rfl | later
        · exact .inl List.mem_cons_self
        · exact (inductionHypothesis later).imp_left (List.mem_cons_of_mem _)
  exact inEntries table.entries listed

/-- An entry after a put of a new key was there before or is the one that was put. -/
theorem mem_entries_putNew {table : OrderedTable κ α} {key : κ} {value : α} {entry : κ × α}
    (listed : entry ∈ (table.putNew key value).entries) :
    entry ∈ table.entries ∨ entry = (key, value) := by
  unfold putNew at listed
  split at listed
  · exact .inl listed
  · exact mem_entries_put listed

/-- A value after a put was there before or is the one that was put. -/
theorem mem_values_put {table : OrderedTable κ α} {key : κ} {value found : α}
    (listed : found ∈ (table.put key value).values) : found ∈ table.values ∨ found = value := by
  obtain ⟨entry, among, rfl⟩ := List.mem_map.mp listed
  rcases mem_entries_put among with before | rfl
  · exact .inl (List.mem_map_of_mem before)
  · exact .inr rfl

/-- A value after a put of a new key was there before or is the one that was put. -/
theorem mem_values_putNew {table : OrderedTable κ α} {key : κ} {value found : α}
    (listed : found ∈ (table.putNew key value).values) :
    found ∈ table.values ∨ found = value := by
  obtain ⟨entry, among, rfl⟩ := List.mem_map.mp listed
  rcases mem_entries_putNew among with before | rfl
  · exact .inl (List.mem_map_of_mem before)
  · exact .inr rfl

end OrderedTable

namespace Store

/-- A class that a template has stored. -/
def Stores (store : Store) (template specialized : ClassId) : Prop :=
  specialized ∈ (store.classAt template).specializations.values

instance (store : Store) (template specialized : ClassId) :
    Decidable (store.Stores template specialized) :=
  inferInstanceAs (Decidable (_ ∈ _))

/-- The unfinished and the stored specializations are kept in order. -/
structure Orderly (store : Store) : Prop where
  begun : ∀ template, ∀ entry ∈ (store.classAt template).unfinished.entries,
    store.HasClass entry.placeholder ∧
      (store.classAt entry.placeholder).template = some template
  once : ∀ template, ((store.classAt template).unfinished.entries.map (·.placeholder)).Nodup
  stored : ∀ {template specialized}, store.Stores template specialized →
    store.HasClass specialized ∧ (store.classAt specialized).template = some template ∧
      ¬store.IsUnfinished specialized

namespace Step

variable {confined : Prop} {store next : Store} {event : Event}

/-- An unfinished specialization was unfinished before or has just begun. -/
theorem mem_unfinished (step : Step confined store event next) {template : ClassId}
    {entry : Unfinished} (listed : entry ∈ (next.classAt template).unfinished.entries) :
    entry ∈ (store.classAt template).unfinished.entries ∨
      event = .begun template entry.signature entry.placeholder := by
  rw [step.unfinished template] at listed
  unfold Event.stackAfter at listed
  split at listed
  · split at listed
    · next reached =>
      subst reached
      rcases List.mem_cons.mp listed with rfl | before
      · exact .inr rfl
      · exact .inl before
    · exact .inl listed
  · split at listed
    · exact .inl (List.mem_of_mem_tail listed)
    · exact .inl listed
  · split at listed
    · exact .inl (List.mem_of_mem_tail listed)
    · exact .inl listed
  · exact .inl listed

/-- A stored specialization was stored before or has just finished. -/
theorem stores (step : Step confined store event next) {template specialized : ClassId}
    (stored : next.Stores template specialized) :
    store.Stores template specialized ∨
      ∃ signature, event = .finished template signature specialized := by
  unfold Stores at stored
  rw [step.specializations template] at stored
  unfold Event.cacheAfter at stored
  split at stored
  · next template signature placeholder =>
    split at stored
    · next reached =>
      subst reached
      rcases OrderedTable.mem_values_putNew stored with before | rfl
      · exact .inl before
      · exact .inr ⟨signature, rfl⟩
    · exact .inl stored
  · exact .inl stored

/-- Only a specialization that begins makes its placeholder an unfinished one. -/
theorem isUnfinished (step : Step confined store event next) {placeholder : ClassId}
    (unfinished : next.IsUnfinished placeholder) :
    store.IsUnfinished placeholder ∨ event.createdClass? = some placeholder := by
  obtain ⟨template, entry, listed, rfl⟩ := unfinished
  rcases step.mem_unfinished listed with before | rfl
  · exact .inl ⟨template, entry, before, rfl⟩
  · exact .inr rfl

/-- A specialization that finishes is not unfinished any more: it stood once on the
stack of its template, and on no other stack. -/
theorem finished_not_isUnfinished {template placeholder : ClassId}
    {signature : ResolvedSignature}
    (step : Step confined store (.finished template signature placeholder) next)
    (orderly : store.Orderly) : ¬next.IsUnfinished placeholder := by
  rintro ⟨other, entry, listed, same⟩
  obtain ⟨rest, entries⟩ := (step.isCurrent_of_ends .finished).entries
  have leading : ⟨(store.classAt template).hash, signature, placeholder⟩ ∈
      (store.classAt template).unfinished.entries := by
    rw [entries]
    exact List.mem_cons_self
  have before : entry ∈ (store.classAt other).unfinished.entries :=
    (step.mem_unfinished listed).resolve_right fun impossible => nomatch impossible
  -- A placeholder knows its template, so no other stack may have it.
  have itself : other = template := by
    have first := (orderly.begun other entry before).2
    rw [same, (orderly.begun template _ leading).2] at first
    exact (Option.some.inj first).symm
  subst itself
  have once := orderly.once other
  rw [entries, List.map_cons, List.nodup_cons] at once
  rw [step.unfinished other] at listed
  simp only [Event.stackAfter, if_true, entries, List.tail_cons] at listed
  exact once.1 (List.mem_map.mpr ⟨entry, listed, same⟩)

/-- Every step keeps the order. -/
theorem orderly (step : Step confined store event next) (orderly : store.Orderly) :
    next.Orderly where
  begun template entry listed := by
    rcases step.mem_unfinished listed with before | rfl
    · obtain ⟨present, made⟩ := orderly.begun template entry before
      exact ⟨step.hasClass present, by rw [(step.sameIdentity present).template, made]⟩
    · refine ⟨step.hasClass_created rfl, ?_⟩
      rcases step.template_created rfl with ⟨impossible, _⟩ | ⟨_, _, same, made⟩
      · cases impossible
      · cases same
        exact made
  once template := by
    rw [step.unfinished template]
    unfold Event.stackAfter
    have tail : ((store.classAt template).unfinished.entries.tail.map (·.placeholder)).Nodup := by
      rw [List.map_tail]
      exact (orderly.once template).sublist (List.tail_sublist _)
    split
    · next other signature placeholder =>
      split
      · -- A placeholder that begins is new, while all on the stack are in the store.
        refine List.nodup_cons.mpr ⟨fun listed => ?_, orderly.once template⟩
        obtain ⟨entry, before, same⟩ := List.mem_map.mp listed
        have present := (orderly.begun template entry before).1
        rw [same] at present
        exact step.not_hasClass_created rfl present
      · exact orderly.once template
    · split
      · exact tail
      · exact orderly.once template
    · split
      · exact tail
      · exact orderly.once template
    · exact orderly.once template
  stored {template specialized} stored := by
    rcases step.stores stored with before | ⟨signature, rfl⟩
    · obtain ⟨present, made, finished⟩ := orderly.stored before
      refine ⟨step.hasClass present, by rw [(step.sameIdentity present).template, made],
        fun unfinished => ?_⟩
      rcases step.isUnfinished unfinished with still | created
      · exact finished still
      · exact step.not_hasClass_created created present
    · obtain ⟨rest, entries⟩ := (step.isCurrent_of_ends .finished).entries
      obtain ⟨present, made⟩ := orderly.begun template
        ⟨(store.classAt template).hash, signature, specialized⟩
        (by rw [entries]; exact List.mem_cons_self)
      exact ⟨step.hasClass present, by rw [(step.sameIdentity present).template, made],
        step.finished_not_isUnfinished orderly⟩

end Step

end Store

namespace Registry

/-- The registered classes are in order, since none is specialized yet. -/
theorem orderly_standard : standard.store.Orderly where
  begun template entry listed := by
    rw [unfinished_standard] at listed
    cases listed
  once template := by
    rw [unfinished_standard]
    exact List.nodup_nil
  stored {template specialized} stored := by
    rw [Store.Stores, OrderedTable.values, specializations_standard] at stored
    cases stored

end Registry

end TypeInference
