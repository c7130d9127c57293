import Mathlib.Logic.Relation
import TypeInference.Proofs.References

/-!
# Specializations are well formed

An analysis changes the store in moves: it creates a class or a function, or it changes one of
them. Moves are smaller than steps. A specialization is drafted first, which creates its class;
then it is put on the stack of its template, taken off again, and stored. A move says what it is
made with, and the analyses respect this: only classes that are no specializations are drafted
from, what a draft is bound to is in the store, and no specialization gets a marker for a base
or a member that every class has by nature.

So a specialization stays what it was drafted as, whatever else happens to its template in
between, and what a template lists under a signature was drafted for this signature. This holds
of half-made classes as well: it is kept by every single move.
-/

namespace TypeInference

namespace ClassRecord

/-- What a specialization for a signature has of its template. -/
structure NamedAfter (specialized template : ClassRecord) (signature : ResolvedSignature) :
    Prop where
  name : specialized.name = template.name
  qualifiedName : specialized.qualifiedName = template.qualifiedName
  hash : specialized.hash = .ofSpecialization template.hash signature.hashes
  builtin : specialized.builtin = template.builtin
  flags : specialized.flags = template.flags.union { specialized := true }
  node : specialized.node = template.node

/-- A class without specializations, without markers among its bases, and without members that
every class has by nature. -/
structure IsPlain (record : ClassRecord) : Prop where
  unspecialized : record.specializations.entries = []
  idle : record.unfinished.entries = []
  unmarked : ∀ base ∈ record.bases, base.asMarker? = none
  proper : ∀ name ∈ Engine.structuralMembers, name ∉ record.members.keys

/-- What no move changes about a class, and about a specialization in particular. -/
structure SameNature (before after : ClassRecord) : Prop where
  name : after.name = before.name
  qualifiedName : after.qualifiedName = before.qualifiedName
  hash : after.hash = before.hash
  builtin : after.builtin = before.builtin
  flags : after.flags = before.flags
  node : after.node = before.node
  template : after.template = before.template
  parameters : before.template ≠ none → after.parameters = before.parameters

theorem SameNature.refl (record : ClassRecord) : record.SameNature record :=
  ⟨rfl, rfl, rfl, rfl, rfl, rfl, rfl, fun _ => rfl⟩

/-- A class that is made from a template with what the template is known by. -/
theorem namedAfter_withTemplate (record : ClassRecord) (template : ClassId)
    (parameters : Bindings) {signature : ResolvedSignature} {hash : TypeHash}
    (same : hash = .ofSpecialization record.hash signature.hashes) :
    NamedAfter (withTemplate
      { name := record.name, qualifiedName := record.qualifiedName, hash,
        builtin := record.builtin, flags := record.flags, node := record.node,
        parameters } template) record signature :=
  ⟨rfl, rfl, same, rfl, rfl, rfl⟩

/-- A specialization and its template keep what they have in common. -/
theorem NamedAfter.keep {specialized template laterSpecialized laterTemplate : ClassRecord}
    {signature : ResolvedSignature} (named : specialized.NamedAfter template signature)
    (one : specialized.SameNature laterSpecialized) (other : template.SameNature laterTemplate) :
    laterSpecialized.NamedAfter laterTemplate signature where
  name := one.name.trans (named.name.trans other.name.symm)
  qualifiedName := one.qualifiedName.trans (named.qualifiedName.trans other.qualifiedName.symm)
  hash := by rw [one.hash, named.hash, other.hash]
  builtin := one.builtin.trans (named.builtin.trans other.builtin.symm)
  flags := by rw [one.flags, named.flags, other.flags]
  node := one.node.trans (named.node.trans other.node.symm)

end ClassRecord

namespace Store

/-- A class that was drafted from a template, with types of some signature. -/
structure DraftedFrom (store : Store) (template : ClassId) (signature : ResolvedSignature)
    (drafted : ClassId) : Prop where
  present : store.HasClass drafted
  made : (store.classAt drafted).template = some template
  bound : store.signature (store.classAt drafted).parameters = signature

/-- A single change of a store by an analysis. -/
inductive Move : Store → Store → Prop
  | createFunction (store : Store) (record : FunctionRecord) :
      Move store (store.addFunction record).2
  | changeFunction (store : Store) (id : FunctionId) {change : FunctionRecord → FunctionRecord}
      (same : ∀ record : FunctionRecord, record.SameIdentity (change record)) :
      Move store (store.modifyFunction id change)
  | createClass (store : Store) {record : ClassRecord} (blank : record.Blank)
      (original : record.template = none) : Move store (store.addClass record).2
  | parametrize (store : Store) {id : ClassId} (parameters : Bindings)
      (original : (store.classAt id).template = none) :
      Move store (store.modifyClass id fun record => { record with parameters })
  | setBases (store : Store) {id : ClassId} {bases : List Ty}
      (unmarked : (store.classAt id).template ≠ none → ∀ base ∈ bases, base.asMarker? = none) :
      Move store (store.setBases id bases)
  | setMember (store : Store) {id : ClassId} {name : String} (value : Value) (overwrite : Bool)
      (proper : (store.classAt id).template ≠ none → name ∉ Engine.structuralMembers) :
      Move store (store.addMember id name value overwrite).2
  | draft (store : Store) {template : ClassId} {bindings : Bindings}
      (present : store.HasClass template)
      (original : (store.classAt template).template = none)
      (given : ∀ ty ∈ bindings.types, store.HasType ty) :
      Move store (store.addClass (Engine.placeholderRecord store template bindings)).2
  | begin (store : Store) {template placeholder : ClassId} {signature : ResolvedSignature}
      (drafted : store.DraftedFrom template signature placeholder) :
      Move store (Engine.beginSpecialization store template signature placeholder).2
  | endLast (store : Store) (template : ClassId) :
      Move store (Engine.endSpecialization store template)
  | finish (store : Store) {template placeholder : ClassId} {signature : ResolvedSignature}
      (drafted : store.DraftedFrom template signature placeholder) :
      Move store (Engine.storeSpecialization store template signature placeholder).2

/-- A class that is well formed as the specialization of a template for a signature. -/
structure IsSpecialization (store : Store) (template : ClassId) (signature : ResolvedSignature)
    (specialized : ClassId) : Prop where
  original : (store.classAt template).template = none
  made : (store.classAt specialized).template = some template
  bound : store.signature (store.classAt specialized).parameters = signature
  named : (store.classAt specialized).NamedAfter (store.classAt template) signature
  plain : (store.classAt specialized).IsPlain

/-- Every specialization that a class lists, be it finished or not, is well formed, and those
that are being made of one class have different signatures. -/
structure WellFormed (store : Store) : Prop where
  finished : ∀ template, ∀ entry ∈ (store.classAt template).specializations.entries,
    store.IsSpecialization template entry.1 entry.2
  unfinished : ∀ template, ∀ entry ∈ (store.classAt template).unfinished.entries,
    store.IsSpecialization template entry.signature entry.placeholder
  distinct : ∀ template,
    ((store.classAt template).unfinished.entries.map (·.signature)).Nodup

/-- Only the classes of the store list anything. -/
theorem wellFormed_iff (store : Store) : store.WellFormed ↔ ∀ place < store.classes.size,
    (∀ entry ∈ (store.classAt ⟨place⟩).specializations.entries,
      store.IsSpecialization ⟨place⟩ entry.1 entry.2) ∧
    (∀ entry ∈ (store.classAt ⟨place⟩).unfinished.entries,
      store.IsSpecialization ⟨place⟩ entry.signature entry.placeholder) ∧
    ((store.classAt ⟨place⟩).unfinished.entries.map (·.signature)).Nodup := by
  constructor
  · exact fun ⟨finished, unfinished, distinct⟩ place _ =>
      ⟨finished ⟨place⟩, unfinished ⟨place⟩, distinct ⟨place⟩⟩
  · intro inside
    have all (template : ClassId) := (Decidable.em (store.HasClass template)).imp
      (inside template.index) (classAt_of_not_hasClass store template)
    refine ⟨fun template => ?_, fun template => ?_, fun template => ?_⟩
    · rcases all template with ⟨finished, -, -⟩ | absent
      · exact finished
      · rw [absent]
        exact fun _ impossible => nomatch impossible
    · rcases all template with ⟨-, unfinished, -⟩ | absent
      · exact unfinished
      · rw [absent]
        exact fun _ impossible => nomatch impossible
    · rcases all template with ⟨-, -, distinct⟩ | absent
      · exact distinct
      · rw [absent]
        exact List.nodup_nil

section Decisions

instance (specialized template : ClassRecord) (signature : ResolvedSignature) :
    Decidable (specialized.NamedAfter template signature) :=
  decidable_of_iff (specialized.name = template.name ∧
      specialized.qualifiedName = template.qualifiedName ∧
      specialized.hash = .ofSpecialization template.hash signature.hashes ∧
      specialized.builtin = template.builtin ∧
      specialized.flags = template.flags.union { specialized := true } ∧
      specialized.node = template.node)
    ⟨fun ⟨name, qualifiedName, hash, builtin, flags, node⟩ =>
        ⟨name, qualifiedName, hash, builtin, flags, node⟩,
      fun named => ⟨named.name, named.qualifiedName, named.hash, named.builtin, named.flags,
        named.node⟩⟩

instance (record : ClassRecord) : Decidable record.IsPlain :=
  decidable_of_iff (record.specializations.entries = [] ∧ record.unfinished.entries = [] ∧
      (∀ base ∈ record.bases, base.asMarker? = none) ∧
      ∀ name ∈ Engine.structuralMembers, name ∉ record.members.keys)
    ⟨fun ⟨unspecialized, idle, unmarked, proper⟩ => ⟨unspecialized, idle, unmarked, proper⟩,
      fun plain => ⟨plain.unspecialized, plain.idle, plain.unmarked, plain.proper⟩⟩

instance (store : Store) (template : ClassId) (signature : ResolvedSignature)
    (specialized : ClassId) : Decidable (store.IsSpecialization template signature specialized) :=
  decidable_of_iff ((store.classAt template).template = none ∧
      (store.classAt specialized).template = some template ∧
      store.signature (store.classAt specialized).parameters = signature ∧
      (store.classAt specialized).NamedAfter (store.classAt template) signature ∧
      (store.classAt specialized).IsPlain)
    ⟨fun ⟨original, made, bound, named, plain⟩ => ⟨original, made, bound, named, plain⟩,
      fun made => ⟨made.original, made.made, made.bound, made.named, made.plain⟩⟩

instance (store : Store) : Decidable store.WellFormed :=
  decidable_of_iff _ store.wellFormed_iff.symm

end Decisions

/-- The stack of a class that is the same, or loses what was begun last, or gets a placeholder
for a signature that it has none for. -/
def MayStack (store : Store) (id : ClassId) (before after : List Unfinished) : Prop :=
  after = before ∨ after = before.tail ∨ ∃ signature placeholder,
    store.DraftedFrom id signature placeholder ∧
      (∀ entry ∈ before, entry.template = (store.classAt id).hash →
        entry.signature ≠ signature) ∧
      after = ⟨(store.classAt id).hash, signature, placeholder⟩ :: before

/-- What a move may make of the record of a class. -/
structure MayBecome (store : Store) (id : ClassId) (before after : ClassRecord) : Prop where
  same : before.SameNature after
  unmarked : before.template ≠ none → (∀ base ∈ before.bases, base.asMarker? = none) →
    ∀ base ∈ after.bases, base.asMarker? = none
  proper : before.template ≠ none → ∀ name ∈ Engine.structuralMembers,
    name ∉ before.members.keys → name ∉ after.members.keys
  finished : ∀ entry ∈ after.specializations.entries,
    entry ∈ before.specializations.entries ∨ store.DraftedFrom id entry.1 entry.2
  unfinished : store.MayStack id before.unfinished.entries after.unfinished.entries

theorem MayBecome.refl (store : Store) (id : ClassId) (record : ClassRecord) :
    store.MayBecome id record record :=
  ⟨.refl _, fun _ unmarked => unmarked, fun _ _ _ absent => absent, fun _ => .inl, .inl rfl⟩

/-- What a move may create a class as. -/
structure MayCreate (store : Store) (record : ClassRecord) : Prop where
  bases : record.bases = []
  members : record.members = {}
  unspecialized : record.specializations = {}
  idle : record.unfinished = {}
  drafted : record.template ≠ none → ∃ template bindings, store.HasClass template ∧
    (store.classAt template).template = none ∧ (∀ ty ∈ bindings.types, store.HasType ty) ∧
      record = Engine.placeholderRecord store template bindings

namespace Move

variable {store next : Store}

/-- A move creates or changes one function or one class. -/
theorem cases (move : Move store next) :
    (∃ record, next = (store.addFunction record).2) ∨
      (∃ id change, (∀ record : FunctionRecord, record.SameIdentity (change record)) ∧
        next = store.modifyFunction id change) ∨
      (∃ record, store.MayCreate record ∧ next = (store.addClass record).2) ∨
      ∃ id change, store.MayBecome id (store.classAt id) (change (store.classAt id)) ∧
        next = store.modifyClass id change := by
  have nature (before : ClassRecord) : before.SameNature before := .refl before
  cases move with
  | createFunction record => exact .inl ⟨record, rfl⟩
  | changeFunction id same => exact .inr (.inl ⟨id, _, same, rfl⟩)
  | createClass blank original =>
    refine .inr (.inr (.inl ⟨_, ?_, rfl⟩))
    exact ⟨blank.bases, blank.members, blank.specializations, blank.unfinished,
      fun made => absurd original made⟩
  | draft present original given =>
    refine .inr (.inr (.inl ⟨_, ⟨rfl, rfl, rfl, rfl, fun _ => ?_⟩, rfl⟩))
    exact ⟨_, _, present, original, given, rfl⟩
  | @parametrize owner parameters original =>
    refine .inr (.inr (.inr ⟨owner, _, ?_, rfl⟩))
    exact ⟨{ nature _ with parameters := fun made => absurd original made },
      fun _ => id, fun _ _ _ => id, fun _ => .inl, .inl rfl⟩
  | @setBases owner bases unmarked =>
    refine .inr (.inr (.inr ⟨owner, _, ?_, rfl⟩))
    exact ⟨{ nature _ with }, fun made _ => unmarked made, fun _ _ _ => id, fun _ => .inl, .inl rfl⟩
  | @setMember owner name value overwrite proper =>
    refine .inr (.inr (.inr ⟨owner, _, ?_, addMember_eq store owner name value overwrite⟩))
    refine ⟨{ nature _ with }, fun _ => id, fun made other structural absent => ?_,
      fun _ => .inl, .inl rfl⟩
    dsimp only
    rw [MemberTable.keys_insert]
    split
    · exact absent
    · intro listed
      rcases List.mem_append.mp listed with before | last
      · exact absent before
      · exact proper made (List.mem_singleton.mp last ▸ structural)
  | @begin template placeholder signature drafted =>
    refine .inr (.inr (.inr ⟨template, _, ⟨{ nature _ with }, fun _ => id, fun _ _ _ => id,
      fun _ => .inl, ?_⟩, rfl⟩))
    dsimp only [UnfinishedStack.push]
    split
    · exact .inl rfl
    · next idle =>
      refine .inr (.inr ⟨signature, placeholder, drafted, fun entry listed own same => ?_, rfl⟩)
      have apart := List.find?_eq_none.mp (Option.map_eq_none_iff.mp idle) entry listed
      exact apart (by simp [own, same])
  | endLast template =>
    refine .inr (.inr (.inr ⟨template, _, ⟨{ nature _ with }, fun _ => id, fun _ _ _ => id,
      fun _ => .inl, ?_⟩, rfl⟩))
    dsimp only [UnfinishedStack.pop]
    split
    · exact .inl rfl
    · next entries => exact .inr (.inl (by rw [entries, List.tail_cons]))
  | @finish template placeholder signature drafted =>
    refine .inr (.inr (.inr ⟨template, _, ⟨{ nature _ with }, fun _ => id, fun _ _ _ => id,
      fun entry listed => ?_, .inl rfl⟩, rfl⟩))
    rcases OrderedTable.mem_entries_putNew listed with before | rfl
    · exact .inl before
    · exact .inr drafted

/-- What a move makes of every class: it changes it as it may, or creates it. -/
theorem classAt (move : Move store next) (id : ClassId) :
    store.MayBecome id (store.classAt id) (next.classAt id) ∨
      ¬store.HasClass id ∧ store.MayCreate (next.classAt id) := by
  rcases move.cases with ⟨record, rfl⟩ | ⟨function, change, -, rfl⟩ | ⟨record, creates, rfl⟩ |
    ⟨changed, change, becomes, rfl⟩
  · exact .inl (.refl _ _ _)
  · exact .inl (.refl _ _ _)
  · rw [classAt_addClass_eq]
    split
    · next created =>
      subst created
      exact .inr ⟨store.not_hasClass_nextClass, creates⟩
    · exact .inl (.refl _ _ _)
  · rw [classAt_modifyClass_eq]
    split
    · next reached =>
      obtain ⟨rfl, -⟩ := reached
      exact .inl becomes
    · exact .inl (.refl _ _ _)

/-- Classes stay in the store. -/
theorem hasClass (move : Move store next) {id : ClassId} (present : store.HasClass id) :
    next.HasClass id := by
  rcases move.cases with ⟨_, rfl⟩ | ⟨_, _, -, rfl⟩ | ⟨_, -, rfl⟩ | ⟨_, _, -, rfl⟩
  · exact present
  · exact present
  · exact (store.hasClass_addClass _ id).mpr (.inl present)
  · exact (store.hasClass_modifyClass _ id _).mpr present

/-- Classes keep their nature. -/
theorem sameNature (move : Move store next) {id : ClassId} (present : store.HasClass id) :
    (store.classAt id).SameNature (next.classAt id) := by
  rcases move.classAt id with becomes | ⟨absent, -⟩
  · exact becomes.same
  · exact absurd present absent

/-- Functions stay in the store, and keep their identity. -/
theorem keepsFunction (move : Move store next) {id : FunctionId}
    (present : store.HasFunction id) :
    next.HasFunction id ∧ (next.functionAt id).hash = (store.functionAt id).hash := by
  rcases move.cases with ⟨record, rfl⟩ | ⟨changed, change, same, rfl⟩ | ⟨_, -, rfl⟩ |
    ⟨_, _, -, rfl⟩
  · have old : id ≠ store.nextFunction := by
      rintro rfl
      exact Nat.lt_irrefl _ present
    refine ⟨(store.hasFunction_addFunction record id).mpr (.inl present), ?_⟩
    rw [functionAt_addFunction_eq, if_neg old]
  · refine ⟨(store.hasFunction_modifyFunction changed id change).mpr present, ?_⟩
    rw [functionAt_modifyFunction_eq]
    split
    · exact (same _).hash
    · rfl
  · exact ⟨present, rfl⟩
  · exact ⟨present, rfl⟩

/-- Types stay in the store. -/
theorem hasType (move : Move store next) {ty : Ty} (given : store.HasType ty) :
    next.HasType ty := by
  cases ty with
  | cls id => exact move.hasClass given
  | function id => exact (move.keepsFunction given).1
  | unknown | parameter _ | marker _ => trivial

/-- Types keep their identity. -/
theorem typeHash (move : Move store next) {ty : Ty} (given : store.HasType ty) :
    next.typeHash ty = store.typeHash ty := by
  cases ty with
  | cls id => exact (move.sameNature given).hash
  | function id => exact (move.keepsFunction given).2
  | unknown | parameter _ | marker _ => rfl

/-- Signatures stay the same. -/
theorem signature (move : Move store next) {bindings : Bindings}
    (given : ∀ ty ∈ bindings.types, store.HasType ty) :
    next.signature bindings = store.signature bindings :=
  congrArg ResolvedSignature.mk (List.map_congr_left fun ty listed =>
    move.typeHash (given ty listed))

end Move

/-- Stores in which no class has two members of one name. -/
def DistinctMembers (store : Store) : Prop :=
  ∀ id, (store.classAt id).members.keys.Nodup

/-- Members with different names keep them. -/
theorem Move.distinctMembers {store next : Store} (move : Move store next)
    (distinct : store.DistinctMembers) : next.DistinctMembers := by
  have added {record : ClassRecord} (none : record.members = {}) :
      (store.addClass record).2.DistinctMembers := by
    intro id
    rw [classAt_addClass_eq]
    split
    · rw [none]
      exact List.nodup_nil
    · exact distinct id
  have changed (id : ClassId) {change : ClassRecord → ClassRecord}
      (keeps : (change (store.classAt id)).members.keys.Nodup) :
      (store.modifyClass id change).DistinctMembers := by
    intro other
    rw [classAt_modifyClass_eq]
    split
    · next reached => exact reached.1 ▸ keeps
    · exact distinct other
  cases move with
  | createFunction | changeFunction => exact distinct
  | createClass blank => exact added blank.members
  | draft => exact added rfl
  | @setMember id name value overwrite =>
    rw [addMember_eq]
    exact changed id (MemberTable.nodup_keys_insert _ name value overwrite (distinct id))
  | parametrize | setBases | begin | endLast | finish => exact changed _ (distinct _)

/-- What holds of a specialization and its template from its draft on. -/
structure IsDerived (store : Store) (template drafted : ClassId) : Prop where
  present : store.HasClass template
  original : (store.classAt template).template = none
  given : ∀ ty ∈ (store.classAt drafted).parameters.types, store.HasType ty
  named : (store.classAt drafted).NamedAfter (store.classAt template)
    (store.signature (store.classAt drafted).parameters)
  plain : (store.classAt drafted).IsPlain

/-- What every move keeps: specializations are derived from their templates, and listed under
the signatures that they were drafted for. -/
structure Tidy (store : Store) : Prop where
  derived : ∀ {drafted template}, (store.classAt drafted).template = some template →
    store.IsDerived template drafted
  finished : ∀ template, ∀ entry ∈ (store.classAt template).specializations.entries,
    store.DraftedFrom template entry.1 entry.2
  unfinished : ∀ template, ∀ entry ∈ (store.classAt template).unfinished.entries,
    store.DraftedFrom template entry.signature entry.placeholder ∧
      entry.template = (store.classAt template).hash
  distinct : ∀ template,
    ((store.classAt template).unfinished.entries.map (·.signature)).Nodup

namespace Tidy

variable {store next : Store} {template drafted : ClassId} {signature : ResolvedSignature}

/-- What is listed in a tidy store is well formed. -/
theorem isSpecialization (tidy : store.Tidy)
    (listed : store.DraftedFrom template signature drafted) :
    store.IsSpecialization template signature drafted := by
  have derived := tidy.derived listed.made
  exact ⟨derived.original, listed.made, listed.bound, listed.bound ▸ derived.named, derived.plain⟩

theorem wellFormed (tidy : store.Tidy) : store.WellFormed where
  finished template entry listed := tidy.isSpecialization (tidy.finished template entry listed)
  unfinished template entry listed :=
    tidy.isSpecialization (tidy.unfinished template entry listed).1
  distinct := tidy.distinct

/-- Nothing is drafted from a specialization. -/
theorem not_draftedFrom (tidy : store.Tidy)
    (specialized : (store.classAt template).template ≠ none) :
    ¬store.DraftedFrom template signature drafted :=
  fun impossible => specialized (tidy.derived impossible.made).original

end Tidy

section Drafts

variable (store : Store) (template : ClassId) (bindings : Bindings)

theorem namedAfter_placeholderRecord :
    (Engine.placeholderRecord store template bindings).NamedAfter (store.classAt template)
      (store.signature bindings) :=
  ClassRecord.namedAfter_withTemplate (store.classAt template) template bindings rfl

theorem isPlain_placeholderRecord :
    (Engine.placeholderRecord store template bindings).IsPlain where
  unspecialized := rfl
  idle := rfl
  unmarked _ impossible := nomatch impossible
  proper _ _ impossible := nomatch impossible

end Drafts

namespace Move

variable {store next : Store} {template drafted : ClassId} {signature : ResolvedSignature}

/-- What was drafted from a template stays so. -/
theorem draftedFrom (move : Move store next) (tidy : store.Tidy)
    (listed : store.DraftedFrom template signature drafted) :
    next.DraftedFrom template signature drafted := by
  have same := move.sameNature listed.present
  have specialized : (store.classAt drafted).template ≠ none := by
    rw [listed.made]
    exact Option.some_ne_none template
  refine ⟨move.hasClass listed.present, same.template.trans listed.made, ?_⟩
  rw [same.parameters specialized, move.signature (tidy.derived listed.made).given, listed.bound]

/-- A specialization gets no specializations, markers or members that every class has. -/
theorem plain (tidy : store.Tidy) {id : ClassId} {after : ClassRecord}
    (becomes : store.MayBecome id (store.classAt id) after)
    (specialized : (store.classAt id).template ≠ none) (plain : (store.classAt id).IsPlain) :
    after.IsPlain where
  unspecialized := by
    refine List.eq_nil_iff_forall_not_mem.mpr fun entry listed => ?_
    rcases becomes.finished entry listed with before | drafted
    · rw [plain.unspecialized] at before
      cases before
    · exact tidy.not_draftedFrom specialized drafted
  idle := by
    rcases becomes.unfinished with same | tail | ⟨_, _, drafted, -, -⟩
    · rw [same, plain.idle]
    · rw [tail, plain.idle, List.tail_nil]
    · exact absurd drafted (tidy.not_draftedFrom specialized)
  unmarked := becomes.unmarked specialized plain.unmarked
  proper name structural :=
    becomes.proper specialized name structural (plain.proper name structural)

/-- A specialization stays derived from its template, and a draft is derived from it at once. -/
theorem derived (move : Move store next) (tidy : store.Tidy)
    (made : (next.classAt drafted).template = some template) :
    next.IsDerived template drafted := by
  rcases move.classAt drafted with becomes | ⟨absent, creates⟩
  · have before : (store.classAt drafted).template = some template :=
      becomes.same.template.symm.trans made
    have specialized : (store.classAt drafted).template ≠ none := by
      rw [before]
      exact Option.some_ne_none template
    have derived := tidy.derived before
    have other := move.sameNature derived.present
    have parameters := becomes.same.parameters specialized
    refine ⟨move.hasClass derived.present, other.template.trans derived.original, ?_, ?_,
      plain tidy becomes specialized derived.plain⟩
    · rw [parameters]
      exact fun ty listed => move.hasType (derived.given ty listed)
    · rw [parameters, move.signature derived.given]
      exact derived.named.keep becomes.same other
  · obtain ⟨origin, bindings, present, original, given, record⟩ :=
      creates.drafted (by rw [made]; exact Option.some_ne_none template)
    rw [record] at made
    cases made
    have other := move.sameNature present
    have bound : (next.classAt drafted).parameters = bindings := by
      rw [record]
      rfl
    refine ⟨move.hasClass present, other.template.trans original, ?_, ?_, ?_⟩
    · rw [bound]
      exact fun ty listed => move.hasType (given ty listed)
    · rw [bound, move.signature given, record]
      exact (namedAfter_placeholderRecord store template bindings).keep (.refl _) other
    · rw [record]
      exact isPlain_placeholderRecord store template bindings

/-- Every move keeps the store tidy. -/
theorem tidy (move : Move store next) (tidy : store.Tidy) : next.Tidy where
  derived made := move.derived tidy made
  finished template entry listed := by
    rcases move.classAt template with becomes | ⟨-, creates⟩
    · rcases becomes.finished entry listed with before | drafted
      · exact move.draftedFrom tidy (tidy.finished template entry before)
      · exact move.draftedFrom tidy drafted
    · rw [creates.unspecialized] at listed
      cases listed
  unfinished template entry listed := by
    have old (before : entry ∈ (store.classAt template).unfinished.entries)
        (same : (next.classAt template).hash = (store.classAt template).hash) :
        next.DraftedFrom template entry.signature entry.placeholder ∧
          entry.template = (next.classAt template).hash := by
      obtain ⟨drafted, own⟩ := tidy.unfinished template entry before
      exact ⟨move.draftedFrom tidy drafted, own.trans same.symm⟩
    rcases move.classAt template with becomes | ⟨-, creates⟩
    · have hash := becomes.same.hash
      rcases becomes.unfinished with same | tail | ⟨signature, placeholder, drafted, -, pushed⟩
      · exact old (same ▸ listed) hash
      · exact old (List.mem_of_mem_tail (tail ▸ listed)) hash
      · rw [pushed] at listed
        rcases List.mem_cons.mp listed with rfl | before
        · exact ⟨move.draftedFrom tidy drafted, hash.symm⟩
        · exact old before hash
    · rw [creates.idle] at listed
      cases listed
  distinct template := by
    rcases move.classAt template with becomes | ⟨-, creates⟩
    · have distinct := tidy.distinct template
      rcases becomes.unfinished with same | tail | ⟨signature, placeholder, -, idle, pushed⟩
      · rwa [same]
      · rw [tail, List.map_tail]
        exact distinct.sublist (List.tail_sublist _)
      · rw [pushed]
        refine List.nodup_cons.mpr ⟨fun listed => ?_, distinct⟩
        obtain ⟨entry, before, same⟩ := List.mem_map.mp listed
        exact idle entry before (tidy.unfinished template entry before).2 same
    · rw [creates.idle]
      exact List.nodup_nil

end Move

/-- The stores that moves lead to. -/
def LeadsTo : Store → Store → Prop :=
  Relation.ReflTransGen Move

namespace LeadsTo

variable {store next last : Store}

theorem refl (store : Store) : store.LeadsTo store :=
  Relation.ReflTransGen.refl

theorem trans (one : store.LeadsTo next) (other : next.LeadsTo last) : store.LeadsTo last :=
  Relation.ReflTransGen.trans one other

theorem move (leads : store.LeadsTo next) (move : Move next last) : store.LeadsTo last :=
  leads.tail move

theorem tidy (leads : store.LeadsTo next) (tidy : store.Tidy) : next.Tidy := by
  induction leads with
  | refl => exact tidy
  | tail _ move inductionHypothesis => exact move.tidy inductionHypothesis

theorem distinctMembers (leads : store.LeadsTo next) (distinct : store.DistinctMembers) :
    next.DistinctMembers := by
  induction leads with
  | refl => exact distinct
  | tail _ move inductionHypothesis => exact move.distinctMembers inductionHypothesis

theorem hasClass (leads : store.LeadsTo next) {id : ClassId} (present : store.HasClass id) :
    next.HasClass id := by
  induction leads with
  | refl => exact present
  | tail _ move inductionHypothesis => exact move.hasClass inductionHypothesis

theorem hasFunction (leads : store.LeadsTo next) {id : FunctionId}
    (present : store.HasFunction id) : next.HasFunction id := by
  induction leads with
  | refl => exact present
  | tail _ move inductionHypothesis => exact (move.keepsFunction inductionHypothesis).1

theorem template (leads : store.LeadsTo next) {id : ClassId} (present : store.HasClass id) :
    (next.classAt id).template = (store.classAt id).template := by
  induction leads with
  | refl => rfl
  | tail earlier move inductionHypothesis =>
    exact (move.sameNature (hasClass earlier present)).template.trans inductionHypothesis

theorem draftedFrom (leads : store.LeadsTo next) (tidy : store.Tidy)
    {template drafted : ClassId} {signature : ResolvedSignature}
    (listed : store.DraftedFrom template signature drafted) :
    next.DraftedFrom template signature drafted := by
  induction leads with
  | refl => exact listed
  | tail earlier move inductionHypothesis =>
    exact move.draftedFrom (LeadsTo.tidy earlier tidy) inductionHypothesis

end LeadsTo

end Store

namespace Registry

/-- Nothing is specialized before any analysis. -/
theorem tidy_standard : standard.store.Tidy where
  derived {drafted template} made := by
    rw [template_standard] at made
    cases made
  finished template entry listed := by
    rw [specializations_standard] at listed
    cases listed
  unfinished template entry listed := by
    rw [unfinished_standard] at listed
    cases listed
  distinct template := by
    rw [unfinished_standard]
    exact List.nodup_nil

end Registry

end TypeInference
