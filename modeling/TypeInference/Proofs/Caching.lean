import TypeInference.Proofs.Contents
import TypeInference.Proofs.Inferring
import TypeInference.Proofs.Specializations

/-!
# Specializing fills caches

Where no overload is pending, a specialization changes nothing that was there but caches, whether it
gives a result or fails. In its course it creates placeholders, gives them bases and members and
puts them on the stacks of their templates, substitutes in what they are made from and specializes
other classes for that. But a placeholder was not there before, and it is off the stack in the end.
What caches gain are classes that are made meanwhile, and none for a signature that was being made.
-/

namespace TypeInference

open Analysis

/-- A record that differs from an earlier one in its finished specializations at most. The earlier
ones are all there, further ones stand at a place or behind it, and none is for a signature that is
being made. -/
structure ClassRecord.Gains (fresh : Nat) (before after : ClassRecord) : Prop where
  kept : after = { before with specializations := after.specializations }
  gained : ∃ entries, after.specializations.entries = before.specializations.entries ++ entries ∧
    ∀ entry ∈ entries, fresh ≤ entry.2.index
  reserved : ∀ signature, (before.unfinished.find? before.hash signature).isSome = true →
    after.specializations.find? signature = before.specializations.find? signature

namespace ClassRecord.Gains

variable {fresh later : Nat} {before middle after : ClassRecord}

theorem refl (record : ClassRecord) : record.Gains fresh record :=
  ⟨rfl, ⟨[], (List.append_nil _).symm, nofun⟩, fun _ _ => rfl⟩

theorem trans (first : before.Gains fresh middle) (ordered : fresh ≤ later)
    (second : middle.Gains later after) : before.Gains fresh after where
  kept := by
    rw [second.kept, first.kept]
  gained := by
    obtain ⟨one, entries, fromOne⟩ := first.gained
    obtain ⟨other, further, fromOther⟩ := second.gained
    refine ⟨one ++ other, by rw [further, entries, List.append_assoc], fun entry listed => ?_⟩
    rcases List.mem_append.mp listed with earlier | last
    · exact fromOne entry earlier
    · exact Nat.le_trans ordered (fromOther entry last)
  reserved signature making := by
    have still : (middle.unfinished.find? middle.hash signature).isSome = true := by
      rw [first.kept]
      exact making
    rw [second.reserved signature still, first.reserved signature making]

end ClassRecord.Gains

/-- A record that differs from an earlier one at most in what a placeholder is given after it was
drafted, and in its finished specializations. -/
def ClassRecord.Drafts (before after : ClassRecord) : Prop :=
  after = { before with
    bases := after.bases
    resolutionOrder := after.resolutionOrder
    members := after.members
    specializations := after.specializations }

theorem ClassRecord.Gains.drafts {fresh : Nat} {before after : ClassRecord}
    (gains : before.Gains fresh after) : before.Drafts after := by
  rw [Drafts, gains.kept]

theorem ClassRecord.Drafts.builtin {before after : ClassRecord} (drafts : before.Drafts after) :
    after.builtin = before.builtin := by
  rw [drafts]

theorem ClassRecord.Drafts.flags {before after : ClassRecord} (drafts : before.Drafts after) :
    after.flags = before.flags := by
  rw [drafts]

theorem ClassRecord.Drafts.trans {before middle after : ClassRecord} (first : before.Drafts middle)
    (second : middle.Drafts after) : before.Drafts after :=
  Eq.trans second (congrArg (fun record : ClassRecord => { record with
    bases := after.bases
    resolutionOrder := after.resolutionOrder
    members := after.members
    specializations := after.specializations }) first)

/-- A stored specialization is appended, if there is none for its signature. -/
theorem SpecializationCache.entries_store (cache : SpecializationCache)
    (signature : ResolvedSignature) (specialized : ClassId) :
    ∃ entries, (cache.store signature specialized).entries = cache.entries ++ entries ∧
      ∀ entry ∈ entries, entry.2 = specialized := by
  have appended (entries : List (ResolvedSignature × ClassId))
      (unknown : OrderedTable.findIn signature entries = none) :
      OrderedTable.putIn signature specialized entries = entries ++ [(signature, specialized)] := by
    induction entries with
    | nil => rfl
    | cons first rest inductionHypothesis =>
      unfold OrderedTable.findIn at unknown
      split at unknown
      · cases unknown
      · next other =>
        rw [OrderedTable.putIn, if_neg other, inductionHypothesis unknown, List.cons_append]
  unfold SpecializationCache.store OrderedTable.putNew
  split
  · exact ⟨[], (List.append_nil _).symm, fun _ none => absurd none List.not_mem_nil⟩
  · next unknown =>
    rw [OrderedTable.contains, Bool.not_eq_true, Option.isSome_eq_false_iff,
      Option.isNone_iff_eq_none] at unknown
    refine ⟨_, appended cache.entries unknown, fun entry listed => ?_⟩
    rw [List.mem_singleton.mp listed]

/-- Functions are as they were, and so are the classes that were there, but for what caches have
gained and for one that may be in the making, which may have been given bases and members. -/
structure Store.Caches (making : Option ClassId) (before after : Store) : Prop where
  functions : after.functions = before.functions
  grown : before.classes.size ≤ after.classes.size
  gains : ∀ id, making ≠ some id → before.HasClass id →
    (before.classAt id).Gains before.classes.size (after.classAt id)
  drafts : ∀ id, before.HasClass id → (before.classAt id).Drafts (after.classAt id)

namespace Store.Caches

variable {making : Option ClassId} {before middle after : Store}

theorem refl (store : Store) : store.Caches making store :=
  ⟨rfl, Nat.le_refl _, fun _ _ _ => .refl _, fun _ _ => rfl⟩

theorem trans (first : before.Caches making middle) (second : middle.Caches making after) :
    before.Caches making after where
  functions := second.functions.trans first.functions
  grown := Nat.le_trans first.grown second.grown
  gains id apart present :=
    (first.gains id apart present).trans first.grown
      (second.gains id apart (Nat.lt_of_lt_of_le present first.grown))
  drafts id present :=
    (first.drafts id present).trans (second.drafts id (Nat.lt_of_lt_of_le present first.grown))

/-- Where no class is in the making, all that were there are as they were but for their caches. -/
theorem of_gains (functions : after.functions = before.functions)
    (grown : before.classes.size ≤ after.classes.size)
    (gains : ∀ id, before.HasClass id →
      (before.classAt id).Gains before.classes.size (after.classAt id)) :
    before.Caches none after :=
  ⟨functions, grown, fun id _ => gains id, fun id present => (gains id present).drafts⟩

theorem all (caches : before.Caches none after) {id : ClassId} (present : before.HasClass id) :
    (before.classAt id).Gains before.classes.size (after.classAt id) :=
  caches.gains id (Option.some_ne_none id).symm present

theorem relax (caches : before.Caches none after) : before.Caches making after :=
  { caches with gains := fun _ _ => caches.all }

theorem settled (caches : before.Caches making after) {state : OverloadState}
    (idle : before.NoOverloadIs state) : after.NoOverloadIs state := by
  rw [NoOverloadIs, caches.functions]
  exact idle

/-- The class in the making is given bases or members. -/
theorem modifyClass (store : Store) (id : ClassId) {change : ClassRecord → ClassRecord}
    (drafts : ∀ record : ClassRecord, record.Drafts (change record)) :
    store.Caches (some id) (store.modifyClass id change) where
  functions := rfl
  grown := by simp
  gains asked apart _ := by
    rw [store.classAt_modifyClass_of_ne id asked change fun same => apart (same ▸ rfl)]
    exact .refl _
  drafts asked _ := by
    rw [classAt_modifyClass_eq]
    split
    · exact drafts _
    · rfl

/-- A specialization that begins and ends leaves all classes that were there as they were, if what
is done in between changes its placeholder and caches only. -/
theorem bracket {store made : Store} {template : ClassId} {bindings : Bindings}
    (present : store.HasClass template)
    (idle : Engine.unfinished? store template (store.signature bindings) = none)
    (caches : (store.begin template bindings).Caches (some store.nextClass) made) :
    store.Caches none (Engine.endSpecialization made template) := by
  refine .of_gains caches.functions ?_ fun id old => ?_
  · have more : store.classes.size < (store.begin template bindings).classes.size := by
      simp [Store.begin, Engine.beginSpecialization, Store.addClass]
    have same : (Engine.endSpecialization made template).classes.size = made.classes.size := by
      simp [Engine.endSpecialization]
    exact same ▸ Nat.le_of_lt (Nat.lt_of_lt_of_le more caches.grown)
  · have begun := store.classAt_begin template id bindings present idle
    rw [if_neg (ne_nextClass old)] at begun
    have still : (store.begin template bindings).HasClass id :=
      (store.hasClass_begin template id bindings).mpr (.inl old)
    have more : store.classes.size ≤ (store.begin template bindings).classes.size := by
      simp [Store.begin, Engine.beginSpecialization, Store.addClass]
    have gains := caches.gains id (fun same => ne_nextClass old (Option.some.inj same).symm) still
    obtain ⟨entries, further, new⟩ := gains.gained
    have standing : made.HasClass id := Nat.lt_of_lt_of_le still caches.grown
    rw [classAt_endSpecialization]
    by_cases reached : id = template
    · subst reached
      rw [if_pos rfl] at begun
      rw [if_pos ⟨rfl, standing⟩]
      -- The stack gets the placeholder and loses it.
      rw [begun] at gains further
      refine ⟨?_, ⟨entries, further, fun entry listed => Nat.le_trans more (new entry listed)⟩,
        fun signature making => ?_⟩
      · rw [gains.kept]
        rfl
      · refine gains.reserved signature ?_
        rw [find?_cons _ _ _ _ rfl]
        split
        · rfl
        · exact making
    · rw [if_neg reached] at begun
      rw [if_neg fun both => reached both.1]
      rw [begun] at gains further
      exact ⟨gains.kept, ⟨entries, further, fun entry listed =>
        Nat.le_trans more (new entry listed)⟩, gains.reserved⟩

/-- The specialization that was made is one more in the cache of its template. -/
theorem finish {store made : Store} {template : ClassId} {bindings : Bindings}
    (present : store.HasClass template)
    (idle : Engine.unfinished? store template (store.signature bindings) = none)
    (caches : (store.begin template bindings).Caches (some store.nextClass) made) :
    store.Caches none (made.finish template (store.signature bindings) store.nextClass) := by
  have bracketed := bracket present idle caches
  refine .of_gains bracketed.functions ?_ fun id old => ?_
  · simpa [Store.finish, Engine.storeSpecialization] using bracketed.grown
  · have ended := bracketed.all old
    rw [classAt_endSpecialization] at ended
    rw [classAt_finish]
    split
    · next reached =>
      obtain ⟨rfl, standing⟩ := reached
      rw [if_pos ⟨rfl, standing⟩] at ended
      obtain ⟨entries, further, new⟩ := ended.gained
      obtain ⟨last, appended, itself⟩ := (made.classAt id).specializations.entries_store
        (store.signature bindings) store.nextClass
      refine ⟨?_, ⟨entries ++ last, ?_, fun entry listed => ?_⟩, fun signature making => ?_⟩
      · exact congrArg (fun record : ClassRecord => { record with
          specializations := (made.classAt id).specializations.store (store.signature bindings)
            store.nextClass }) ended.kept
      · rw [appended, further, List.append_assoc]
      · rcases List.mem_append.mp listed with earlier | added
        · exact new entry earlier
        · rw [itself entry added]
          exact Nat.le_refl _
      · have other : store.signature bindings ≠ signature := by
          rintro rfl
          rw [Engine.unfinished?] at idle
          rw [idle] at making
          cases making
        rw [find?_store, if_neg other]
        exact ended.reserved signature making
    · next elsewhere =>
      rwa [if_neg elsewhere] at ended

end Store.Caches

/-- Nothing but the store is different, and that in caches only. -/
structure Progress.Caches (making : Option ClassId) (before after : Progress) : Prop where
  stores : before.store.Caches making after.store
  scopes : after.scopes = before.scopes
  symbols : after.symbols = before.symbols
  log : after.log = before.log

namespace Progress.Caches

variable {making : Option ClassId} {before middle after : Progress}

theorem refl (progress : Progress) : progress.Caches making progress :=
  ⟨.refl _, rfl, rfl, rfl⟩

theorem trans (first : before.Caches making middle) (second : middle.Caches making after) :
    before.Caches making after where
  stores := first.stores.trans second.stores
  scopes := second.scopes.trans first.scopes
  symbols := second.symbols.trans first.symbols
  log := second.log.trans first.log

theorem relax (caches : before.Caches none after) : before.Caches making after :=
  { caches with stores := caches.stores.relax }

/-- The class in the making is given a member. -/
theorem addMember (progress : Progress) (target : ClassId) (name : String) (value : Value)
    (overwrite : Bool) : progress.Caches (some target)
      { progress with store := (progress.store.addMember target name value overwrite).2 } where
  stores := by
    rw [Store.addMember_eq]
    exact .modifyClass progress.store target fun _ => rfl
  scopes := rfl
  symbols := rfl
  log := rfl

end Progress.Caches

/-- An analysis that fills caches and changes nothing else where no overload is pending, whether it
gives a result or fails. -/
def Analysis.Caches {α : Type} (making : Option ClassId) (analysis : Analysis α) : Prop :=
  ∀ (environment : Environment) (before : Progress), before.store.NoOverloadIs .pending →
    before.Caches making (analysis.after environment before)

namespace Analysis.Caches

variable {α β : Type} {making : Option ClassId}

theorem of_ok {analysis : Analysis α} (caches : analysis.Caches making)
    {environment : Environment} {before after : Progress} {result : α}
    (settled : before.store.NoOverloadIs .pending)
    (returned : analysis environment before = .ok result after) : before.Caches making after :=
  after_of_ok returned ▸ caches environment before settled

theorem pure (result : α) : (Pure.pure result : Analysis α).Caches making :=
  fun _ before _ => .refl before

theorem throw (failure : Failure) : (throw failure : Analysis α).Caches making :=
  fun _ before _ => .refl before

theorem bind {first : Analysis α} {next : α → Analysis β} (caches : first.Caches making)
    (onwards : ∀ result, (next result).Caches making) : (first >>= next).Caches making := by
  intro environment before settled
  have earlier := caches environment before settled
  rcases after_bind_cases first next environment before with ⟨_, stops⟩ | ⟨result, _, goesOn⟩
  · exact stops ▸ earlier
  · rw [goesOn]
    exact earlier.trans (onwards result environment _ (earlier.stores.settled settled))

theorem reads {next : Store → Analysis α} (caches : ∀ store, (next store).Caches making) :
    (Analysis.store >>= next).Caches making :=
  fun environment before => caches before.store environment before

theorem modifyStore {change : Store → Store}
    (caches : ∀ store : Store, store.Caches making (change store)) :
    (Analysis.modifyStore change).Caches making :=
  fun _ before _ => ⟨caches before.store, rfl, rfl, rfl⟩

theorem relax {analysis : Analysis α} (caches : analysis.Caches none) : analysis.Caches making :=
  fun environment before settled => (caches environment before settled).relax

end Analysis.Caches

/-- To fill caches only, also in case of failure. -/
def Judgement.caching (making : Option ClassId) : Judgement where
  Index := Unit
  World := Unit
  Later _ _ := True
  later_refl _ := trivial
  later_trans _ _ := trivial
  Near _ _ := True
  near_of_later _ := trivial
  near_trans _ _ := trivial
  Known _ := .every
  known_later _ _ known := known
  Holds _ _ _ analyses := (analyses ()).Caches making
  pure _ := .pure _
  bind begins continues := .bind begins fun result =>
    @continues () trivial result (within_every result)
  reads continues := .reads fun store =>
    @continues () trivial store (within_every store) (.of_union (fun _ => trivial) store)

/-- An engine whose specializations fill caches only, and whose evaluations do. -/
abbrev Engine.Caching (engine : Engine) : Prop :=
  (Judgement.caching none).Follows (fun _ => engine) ()

namespace Engine

variable {engine : Engine}

/-- Substitutions fill caches, also while a class is in the making. -/
theorem substitutes_caching (caching : engine.Caching) (making : Option ClassId)
    (bindings : Bindings) :
    (Judgement.caching making).Substitutes (fun _ => engine) () bindings where
  within := within_every _
  substituteClass _ _ known :=
    Caches.relax ((substitutes caching (within_every bindings)).substituteClass
      ((Judgement.caching none).later_refl ()) known)

/-- A placeholder gets its bases and members, and no other class that is there does. -/
theorem materialize_caches (caching : engine.Caching) (template placeholder : ClassId)
    (evidence : Evidence) :
    (engine.materialize template placeholder evidence).Caches (some placeholder) := by
  refine materialize_holds (substitutes_caching caching (some placeholder) evidence.bindings)
    template placeholder (fun _ _ _ _ => ?_) fun _ name _ value _ => ?_
  · exact .modifyStore fun store => .modifyClass store placeholder fun _ => rfl
  · exact fun _ before _ => .addMember before placeholder name value true

theorem makeSpecialization_caches (caching : engine.Caching) {template : ClassId}
    {evidence : Evidence} (environment : Environment) {before : Progress}
    (settled : before.store.NoOverloadIs .pending) (present : before.store.HasClass template)
    (idle : unfinished? before.store template (before.store.signature evidence.bindings) = none) :
    before.Caches none
      ((engine.makeSpecialization template evidence).after environment before) := by
  have made := materialize_caches caching template before.store.nextClass evidence environment
    { before with store := before.store.begin template evidence.bindings } settled
  rcases engine.after_makeSpecialization_cases template evidence environment before with
    finished | abandoned
  · rw [finished]
    exact ⟨.finish present idle made.stores, made.scopes, made.symbols, made.log⟩
  · rw [abandoned]
    exact ⟨.bracket present idle made.stores, made.scopes, made.symbols, made.log⟩

/-- A request is answered, or makes what it asks for. -/
theorem specializeConstructed_caches (caching : engine.Caching) (id : ClassId)
    (arguments : Arguments) : (engine.specializeConstructed id arguments).Caches none := by
  intro environment before settled
  rcases engine.specializeConstructed_outcomes id arguments environment before with
    ⟨-, done⟩ | ⟨_, -, -, done⟩ | ⟨_, -, -, -, done⟩ | ⟨resolved, -, idle, made⟩
  · rw [after_of_ok done]
    exact .refl before
  · rw [after_of_ok done]
    exact .refl before
  · rw [after_of_ok done]
    exact .refl before
  · rw [after_congr made]
    exact makeSpecialization_caches caching environment settled
      (hasClass_of_typeParameters resolved) idle

theorem specializeClass_caches (caching : engine.Caching) (id : ClassId) (arguments : Arguments) :
    (engine.specializeClass id arguments).Caches none := by
  refine .reads fun store => ?_
  split
  · exact caching.specialize trivial (within_every arguments)
  · exact .bind (ensureConstructed_holds caching id) fun _ =>
      specializeConstructed_caches caching id arguments

/-- The engine of every depth fills caches only, since there is nothing to evaluate. -/
theorem atDepth_caching (depth : Nat) : (Engine.atDepth depth).Caching := by
  induction depth with
  | zero => exact ⟨fun _ _ _ => .throw _, fun _ _ _ _ _ => .throw _⟩
  | succ depth inductionHypothesis =>
    refine ⟨fun {_} _ {function} _ environment before settled => ?_,
      fun {_} _ {id arguments} _ _ => specializeClass_caches inductionHypothesis id arguments⟩
    have still : (evaluateDefinition (Engine.atDepth depth) function).after environment before =
        before := after_of_ok (evaluateDefinition_of_settled function environment settled)
    exact still.symm ▸ .refl before

theorem specialize_caches (depth : Nat) (template : ClassId) (arguments : Arguments) :
    ((Engine.atDepth depth).specialize template arguments).Caches none := by
  have caching := atDepth_caching depth
  exact caching.specialize trivial (within_every arguments)

/-- Where no overload is pending, a request for a specialization reports nothing and leaves scopes,
symbols and functions as they are, and of every class that was there everything but its finished
specializations, of which it loses and moves none. This is so at every depth, for whatever class and
arguments, and whether the request gives a class or fails. -/
theorem specialize_fills_caches (depth : Nat) (environment : Environment) (before : Progress)
    (settled : before.store.NoOverloadIs .pending) (template : ClassId) (arguments : Arguments) :
    let after := ((Engine.atDepth depth).specialize template arguments).after environment before
    after.log = before.log ∧ after.scopes = before.scopes ∧ after.symbols = before.symbols ∧
      after.store.functions = before.store.functions ∧
      ∀ id, before.store.HasClass id → after.store.HasClass id ∧
        after.store.classAt id = { before.store.classAt id with
          specializations := (after.store.classAt id).specializations } ∧
        (before.store.classAt id).specializations.entries <+:
          (after.store.classAt id).specializations.entries := by
  obtain ⟨stores, scopes, symbols, log⟩ :=
    specialize_caches depth template arguments environment before settled
  refine ⟨log, scopes, symbols, stores.functions, fun id present => ?_⟩
  obtain ⟨kept, ⟨entries, further, _⟩, _⟩ := stores.all present
  exact ⟨Nat.lt_of_lt_of_le present stores.grown, kept, entries, further.symm⟩

/-- Specializing a derived class specializes its base as well, which keeps the specialization that
it had, and nothing is reported. -/
theorem specialize_fills_caches_derived :
    derivationDeclared.store.NoOverloadIs .pending ∧
      (specializedBy typeArguments).log = derivationDeclared.log ∧
      (derivationDeclared.store.classAt Registry.standard.store.nextClass).specializations.size = 1 ∧
      ((specializedBy typeArguments).store.classAt
        Registry.standard.store.nextClass).specializations.size = 2 ∧
      (derivationDeclared.store.classAt Registry.standard.store.nextClass).specializations.entries <+:
        ((specializedBy typeArguments).store.classAt
          Registry.standard.store.nextClass).specializations.entries := by
  have settled : derivationDeclared.store.NoOverloadIs .pending := by decide +kernel
  have present : derivationDeclared.store.HasClass Registry.standard.store.nextClass := by
    unfold Store.HasClass
    decide +kernel
  obtain ⟨log, _, _, _, classes⟩ := specialize_fills_caches 3 Registry.environment
    derivationDeclared settled derivedTemplate typeArguments
  obtain ⟨_, _, kept⟩ := classes _ present
  refine ⟨settled, log, by decide +kernel, by decide +kernel, ?_⟩
  rw [specializedBy]
  exact kept

end Engine

end TypeInference
