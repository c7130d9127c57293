import TypeInference.Proofs.Development

/-!
# What steps change

For every part of a class the law that says what a step makes of it: the
identity of a class never changes, its cache grows by finished specializations,
its stack follows the specializations that begin and end, its bases and its
order change when it is ordered, and its members when one is set. Functions keep
their identity. Everything else about courses is derived from these laws.
-/

namespace TypeInference.Store

/-- The class of the innermost unfinished specialization is in the store. -/
theorem IsCurrent.present {store : Store} {template placeholder : ClassId}
    {signature : ResolvedSignature} (current : store.IsCurrent template signature placeholder) :
    store.HasClass template := by
  refine Decidable.byContradiction fun outside => ?_
  rw [IsCurrent, classAt_of_not_hasClass store template outside] at current
  cases current

/-- The innermost unfinished specialization leads the stack of its template. -/
theorem IsCurrent.entries {store : Store} {template placeholder : ClassId}
    {signature : ResolvedSignature} (current : store.IsCurrent template signature placeholder) :
    ∃ rest, (store.classAt template).unfinished.entries =
      ⟨(store.classAt template).hash, signature, placeholder⟩ :: rest := by
  unfold IsCurrent at current
  cases stack : (store.classAt template).unfinished.entries with
  | nil => simp [stack] at current
  | cons first rest =>
    rw [stack] at current
    exact ⟨rest, by simpa using current⟩

/-- The record of every class after one of them is given bases. -/
theorem classAt_setBases (store : Store) (derived id : ClassId) (bases : List Ty) :
    (store.setBases derived bases).classAt id =
      if id = derived ∧ store.HasClass derived then
        { store.classAt id with
          bases
          resolutionOrder :=
            store.linearize (store.classHash derived) (bases.filterMap Ty.asClass?) }
      else store.classAt id :=
  store.classAt_modifyClass_eq derived id _

/-- The record of every class after a member is added to one of them. -/
theorem classAt_addMember (store : Store) (changed id : ClassId) (name : String) (value : Value)
    (overwrite : Bool) :
    (store.addMember changed name value overwrite).2.classAt id =
      if id = changed ∧ store.HasClass changed then
        { store.classAt id with
          members := ((store.classAt id).members.insert name value overwrite).2 }
      else store.classAt id := by
  rw [addMember_eq, classAt_modifyClass_eq]
  split
  · next reached => rw [reached.1]
  · rfl

/-- The record of every class after a specialization begins. -/
theorem classAt_begin (store : Store) (template id : ClassId) (bindings : Bindings)
    (present : store.HasClass template)
    (idle : Engine.unfinished? store template (store.signature bindings) = none) :
    (store.begin template bindings).classAt id =
      if id = store.nextClass then Engine.placeholderRecord store template bindings
      else if id = template then
        { store.classAt id with
          unfinished := ⟨⟨(store.classAt template).hash, store.signature bindings,
            store.nextClass⟩ :: (store.classAt template).unfinished.entries⟩ }
      else store.classAt id := by
  have apart : template ≠ store.nextClass := ne_nextClass present
  have kept : ∀ record, (store.addClass record).2.classAt template = store.classAt template :=
    fun record => store.classAt_addClass_of_hasClass record template present
  have still : ∀ record, (store.addClass record).2.HasClass template := fun record =>
    (store.hasClass_addClass record template).mpr (.inl present)
  -- The stack takes the placeholder, since none stands there for the signature.
  have free : (store.classAt template).unfinished.find? (store.classAt template).hash
      (store.signature bindings) = none := idle
  simp only [begin, Engine.beginSpecialization, classAt_modifyClass_eq, kept, still, and_true,
    UnfinishedStack.push, free, addClass_fst, classAt_addClass_eq]
  by_cases created : id = store.nextClass
  · have other : id ≠ template := fun same => apart (same ▸ created)
    simp only [if_pos created, if_neg other]
  · by_cases reached : id = template
    · simp only [if_pos reached, if_neg created]
    · simp only [if_neg reached, if_neg created]

/-- The record of every class after a specialization is over. -/
theorem classAt_endSpecialization (store : Store) (template id : ClassId) :
    (Engine.endSpecialization store template).classAt id =
      if id = template ∧ store.HasClass template then
        { store.classAt id with unfinished := (store.classAt id).unfinished.pop.2 }
      else store.classAt id :=
  store.classAt_modifyClass_eq template id _

/-- The record of every class after a specialization is over and stored. -/
theorem classAt_finish (store : Store) (template placeholder id : ClassId)
    (signature : ResolvedSignature) :
    (store.finish template signature placeholder).classAt id =
      if id = template ∧ store.HasClass template then
        { store.classAt id with
          unfinished := (store.classAt id).unfinished.pop.2
          specializations := (store.classAt id).specializations.store signature placeholder }
      else store.classAt id := by
  have still : (Engine.endSpecialization store template).HasClass template ↔
      store.HasClass template := store.hasClass_modifyClass template template _
  simp only [finish, Engine.storeSpecialization, classAt_modifyClass_eq, still,
    classAt_endSpecialization]
  split <;> rfl

/-- The classes after a specialization begins are those from before and the placeholder. -/
theorem hasClass_begin (store : Store) (template id : ClassId) (bindings : Bindings) :
    (store.begin template bindings).HasClass id ↔
      store.HasClass id ∨ id = store.nextClass := by
  simp only [begin, Engine.beginSpecialization, hasClass_modifyClass]
  exact store.hasClass_addClass _ id

@[simp] theorem hasClass_endSpecialization (store : Store) (template id : ClassId) :
    (Engine.endSpecialization store template).HasClass id ↔ store.HasClass id :=
  store.hasClass_modifyClass template id _

@[simp] theorem hasClass_finish (store : Store) (template placeholder id : ClassId)
    (signature : ResolvedSignature) :
    (store.finish template signature placeholder).HasClass id ↔ store.HasClass id := by
  simp [finish, Engine.storeSpecialization]

@[simp] theorem hasClass_setBases (store : Store) (derived id : ClassId) (bases : List Ty) :
    (store.setBases derived bases).HasClass id ↔ store.HasClass id :=
  store.hasClass_modifyClass derived id _

@[simp] theorem hasClass_addMember (store : Store) (changed id : ClassId) (name : String)
    (value : Value) (overwrite : Bool) :
    (store.addMember changed name value overwrite).2.HasClass id ↔ store.HasClass id := by
  rw [addMember_eq, hasClass_modifyClass]

namespace Event

/-- The finished specializations of a class after a step. -/
def cacheAfter (event : Event) (id : ClassId) (cache : SpecializationCache) :
    SpecializationCache :=
  match event with
  | .finished template signature placeholder =>
    if id = template then cache.store signature placeholder else cache
  | _ => cache

/-- The unfinished specializations of a class after a step. -/
def stackAfter (event : Event) (id : ClassId) (hash : TypeHash) (stack : List Unfinished) :
    List Unfinished :=
  match event with
  | .begun template signature placeholder =>
    if id = template then ⟨hash, signature, placeholder⟩ :: stack else stack
  | .finished template _ _ => if id = template then stack.tail else stack
  | .abandoned template _ _ => if id = template then stack.tail else stack
  | _ => stack

/-- The names of the members of a class after a step. -/
def namesAfter (event : Event) (id : ClassId) (names : List String) : List String :=
  match event with
  | .memberSet changed name =>
    if id = changed then if name ∈ names then names else names ++ [name] else names
  | _ => names

/-- The class that a step creates. -/
def createdClass? : Event → Option ClassId
  | .classCreated id => some id
  | .begun _ _ placeholder => some placeholder
  | _ => none

end Event

namespace Step

variable {confined : Prop} {store next : Store} {event : Event}

/-- Classes stay in the store. -/
theorem hasClass (step : Step confined store event next) {id : ClassId}
    (present : store.HasClass id) : next.HasClass id := by
  cases step with
  | createClass record => exact (store.hasClass_addClass record id).mpr (.inl present)
  | begin template bindings =>
    exact (store.hasClass_begin template id bindings).mpr (.inl present)
  | _ => simpa using present

/-- A class that was not in the store is the one that the step creates. -/
theorem createdClass (step : Step confined store event next) {id : ClassId}
    (absent : ¬store.HasClass id) (present : next.HasClass id) :
    event.createdClass? = some id := by
  cases step with
  | createClass record =>
    rcases (store.hasClass_addClass record id).mp present with before | rfl
    · exact absurd before absent
    · rfl
  | begin template bindings =>
    rcases (store.hasClass_begin template id bindings).mp present with before | rfl
    · exact absurd before absent
    · rfl
  | _ => exact absurd (by simpa using present) absent

/-- A class that a step creates was not in the store. -/
theorem not_hasClass_created (step : Step confined store event next) {id : ClassId}
    (created : event.createdClass? = some id) : ¬store.HasClass id := by
  cases step with
  | createClass record =>
    cases created
    exact store.not_hasClass_nextClass
  | begin template bindings =>
    cases created
    exact Nat.lt_irrefl _
  | _ => cases created

/-- A class that a step creates is in the store then. -/
theorem hasClass_created (step : Step confined store event next) {id : ClassId}
    (created : event.createdClass? = some id) : next.HasClass id := by
  cases step with
  | createClass record =>
    cases created
    exact (store.hasClass_addClass record _).mpr (.inr rfl)
  | begin template bindings =>
    cases created
    exact (store.hasClass_begin template _ bindings).mpr (.inr rfl)
  | _ => cases created

/-- The identity of a class never changes. -/
theorem sameIdentity (step : Step confined store event next) {id : ClassId}
    (present : store.HasClass id) :
    (store.classAt id).SameIdentity (next.classAt id) := by
  have old : id ≠ store.nextClass := ne_nextClass present
  cases step with
  | createFunction => exact .refl _
  | changeFunction => exact .refl _
  | createClass record =>
    rw [classAt_addClass_of_hasClass _ _ _ present]
    exact .refl _
  | parametrize changed =>
    rw [classAt_modifyClass_eq]
    split <;> exact ⟨rfl, rfl, rfl⟩
  | order derived =>
    rw [classAt_setBases]
    split <;> exact ⟨rfl, rfl, rfl⟩
  | setMember owner =>
    rw [classAt_addMember]
    split <;> exact ⟨rfl, rfl, rfl⟩
  | copyMember target =>
    rw [classAt_addMember]
    split <;> exact ⟨rfl, rfl, rfl⟩
  | begin template bindings there uncached idle =>
    rw [classAt_begin store template id bindings there idle, if_neg old]
    split <;> exact ⟨rfl, rfl, rfl⟩
  | finish template signature placeholder =>
    rw [classAt_finish]
    split <;> exact ⟨rfl, rfl, rfl⟩
  | abandon template =>
    rw [classAt_endSpecialization]
    split <;> exact ⟨rfl, rfl, rfl⟩

/-- A new class is what its creation says: a declared class, or a placeholder for
a specialization of its template. -/
theorem template_created (step : Step confined store event next) {id : ClassId}
    (created : event.createdClass? = some id) :
    (event = .classCreated id ∧ (next.classAt id).template = none) ∨
      ∃ template signature, event = .begun template signature id ∧
        (next.classAt id).template = some template := by
  cases step with
  | createClass record blank original =>
    cases created
    exact .inl ⟨rfl, by rw [classAt_addClass]; exact original⟩
  | begin template bindings there uncached idle =>
    cases created
    refine .inr ⟨template, _, rfl, ?_⟩
    rw [classAt_begin store template _ bindings there idle, if_pos rfl]
    rfl
  | _ => cases created

/-- The cache of a class grows by a finished specialization. -/
theorem specializations (step : Step confined store event next) (id : ClassId) :
    (next.classAt id).specializations =
      event.cacheAfter id (store.classAt id).specializations := by
  cases step with
  | createFunction => rfl
  | changeFunction => rfl
  | createClass record blank =>
    -- The place of a new class read as the empty record before.
    rw [classAt_addClass_eq]
    split
    · next created =>
      subst created
      rw [classAt_of_not_hasClass store _ (store.not_hasClass_nextClass)]
      exact blank.specializations
    · rfl
  | parametrize changed =>
    rw [classAt_modifyClass_eq]
    split <;> rfl
  | order derived =>
    rw [classAt_setBases]
    split <;> rfl
  | setMember owner =>
    rw [classAt_addMember]
    split <;> rfl
  | copyMember target =>
    rw [classAt_addMember]
    split <;> rfl
  | begin template bindings there uncached idle =>
    rw [classAt_begin store template id bindings there idle]
    split
    · next created =>
      subst created
      rw [classAt_of_not_hasClass store _ store.not_hasClass_nextClass]
      rfl
    · split <;> rfl
  | finish template signature placeholder current =>
    rw [classAt_finish]
    by_cases reached : id = template
    · simp [reached, current.present, Event.cacheAfter]
    · simp [reached, Event.cacheAfter]
  | abandon template =>
    rw [classAt_endSpecialization]
    split <;> rfl

/-- The stack of a class follows the specializations that begin and end. -/
theorem unfinished (step : Step confined store event next) (id : ClassId) :
    (next.classAt id).unfinished.entries =
      event.stackAfter id (store.classAt id).hash (store.classAt id).unfinished.entries := by
  cases step with
  | createFunction => rfl
  | changeFunction => rfl
  | createClass record blank =>
    rw [classAt_addClass_eq]
    split
    · next created =>
      subst created
      rw [classAt_of_not_hasClass store _ (store.not_hasClass_nextClass),
        blank.unfinished]
      rfl
    · rfl
  | parametrize changed =>
    rw [classAt_modifyClass_eq]
    split <;> rfl
  | order derived =>
    rw [classAt_setBases]
    split <;> rfl
  | setMember owner =>
    rw [classAt_addMember]
    split <;> rfl
  | copyMember target =>
    rw [classAt_addMember]
    split <;> rfl
  | begin template bindings there uncached idle =>
    rw [classAt_begin store template id bindings there idle]
    split
    · next created =>
      subst created
      rw [classAt_of_not_hasClass store _ store.not_hasClass_nextClass]
      simp only [Event.stackAfter, (ne_nextClass there).symm, if_false]
      rfl
    · by_cases reached : id = template
      · simp [reached, Event.stackAfter]
      · simp [reached, Event.stackAfter]
  | finish template signature placeholder current =>
    rw [classAt_finish]
    by_cases reached : id = template
    · obtain ⟨rest, entries⟩ := current.entries
      simp [reached, current.present, Event.stackAfter, UnfinishedStack.pop, entries]
    · simp [reached, Event.stackAfter]
  | abandon template signature placeholder current =>
    rw [classAt_endSpecialization]
    by_cases reached : id = template
    · obtain ⟨rest, entries⟩ := current.entries
      simp [reached, current.present, Event.stackAfter, UnfinishedStack.pop, entries]
    · simp [reached, Event.stackAfter]

/-- Bases and order change only where a class is ordered. -/
theorem derivation (step : Step confined store event next) (id : ClassId)
    (other : event ≠ .ordered id) :
    (next.classAt id).bases = (store.classAt id).bases ∧
      (next.classAt id).resolutionOrder = (store.classAt id).resolutionOrder := by
  cases step with
  | createFunction => exact ⟨rfl, rfl⟩
  | changeFunction => exact ⟨rfl, rfl⟩
  | createClass record blank =>
    rw [classAt_addClass_eq]
    split
    · next created =>
      subst created
      rw [classAt_of_not_hasClass store _ store.not_hasClass_nextClass]
      exact ⟨blank.bases, blank.resolutionOrder⟩
    · exact ⟨rfl, rfl⟩
  | parametrize changed =>
    rw [classAt_modifyClass_eq]
    split <;> exact ⟨rfl, rfl⟩
  | order derived =>
    have apart : id ≠ derived := by
      rintro rfl
      exact other rfl
    rw [classAt_setBases, if_neg fun reached => apart reached.1]
    exact ⟨rfl, rfl⟩
  | setMember owner =>
    rw [classAt_addMember]
    split <;> exact ⟨rfl, rfl⟩
  | copyMember target =>
    rw [classAt_addMember]
    split <;> exact ⟨rfl, rfl⟩
  | begin template bindings there uncached idle =>
    rw [classAt_begin store template id bindings there idle]
    split
    · next created =>
      subst created
      rw [classAt_of_not_hasClass store _ store.not_hasClass_nextClass]
      exact ⟨rfl, rfl⟩
    · split <;> exact ⟨rfl, rfl⟩
  | finish template signature placeholder =>
    rw [classAt_finish]
    split <;> exact ⟨rfl, rfl⟩
  | abandon template =>
    rw [classAt_endSpecialization]
    split <;> exact ⟨rfl, rfl⟩

/-- An ordered class had no bases before and has the order of its bases then. -/
theorem ordered {id : ClassId} (step : Step confined store (.ordered id) next) :
    store.HasClass id ∧ store.Underived id ∧
      ∃ bases, next = store.setBases id bases := by
  cases step with
  | order _ bases present underived => exact ⟨present, underived, bases, rfl⟩

/-- Members change where one is set; their order stays and a new one comes last. -/
theorem memberNames (step : Step confined store event next) {id : ClassId}
    (present : store.HasClass id) :
    (next.classAt id).members.keys =
      event.namesAfter id (store.classAt id).members.keys := by
  cases step with
  | createFunction => rfl
  | changeFunction => rfl
  | createClass record blank => rw [classAt_addClass_of_hasClass _ _ _ present]; rfl
  | parametrize changed =>
    rw [classAt_modifyClass_eq]
    split <;> rfl
  | order derived =>
    rw [classAt_setBases]
    split <;> rfl
  | setMember owner name value overwrite =>
    rw [classAt_addMember]
    by_cases reached : id = owner
    · subst reached
      simp [present, Event.namesAfter, MemberTable.keys_insert]
    · simp [reached, Event.namesAfter]
  | copyMember target name value =>
    rw [classAt_addMember]
    by_cases reached : id = target
    · subst reached
      simp [present, Event.namesAfter, MemberTable.keys_insert]
    · simp [reached, Event.namesAfter]
  | begin template bindings there uncached idle =>
    rw [classAt_begin store template id bindings there idle, if_neg (ne_nextClass present)]
    split <;> rfl
  | finish template signature placeholder =>
    rw [classAt_finish]
    split <;> rfl
  | abandon template =>
    rw [classAt_endSpecialization]
    split <;> rfl

/-- Members are set on classes that may own them and on placeholders. -/
theorem memberSet {id : ClassId} {name : String}
    (step : Step confined store (.memberSet id name) next) :
    store.MayOwn confined id ∨ store.IsUnfinished id := by
  cases step with
  | setMember _ _ _ _ mayOwn => exact .inl mayOwn
  | copyMember _ _ _ unfinished => exact .inr unfinished

/-- Functions stay in the store. -/
theorem hasFunction (step : Step confined store event next) {id : FunctionId}
    (present : store.HasFunction id) : next.HasFunction id := by
  cases step with
  | createFunction record => exact (store.hasFunction_addFunction record id).mpr (.inl present)
  | changeFunction changed change => simpa using present
  | setMember =>
    rw [addMember_eq]
    exact present
  | copyMember =>
    rw [addMember_eq]
    exact present
  | _ => exact present

/-- The identity of a function never changes. -/
theorem sameFunction (step : Step confined store event next) {id : FunctionId}
    (present : store.HasFunction id) :
    (store.functionAt id).SameIdentity (next.functionAt id) := by
  cases step with
  | createFunction record =>
    have old : id ≠ store.nextFunction := by
      rintro rfl
      exact Nat.lt_irrefl _ present
    rw [functionAt_addFunction_eq, if_neg old]
    exact .refl _
  | changeFunction changed change same =>
    rw [functionAt_modifyFunction_eq]
    split
    · exact same _
    · exact .refl _
  | setMember =>
    rw [addMember_eq]
    exact .refl _
  | copyMember =>
    rw [addMember_eq]
    exact .refl _
  | _ => exact .refl _

/-- A function that was not in the store has an owner that may own it. -/
theorem mayOwn_created (step : Step confined store event next) {id : FunctionId}
    (absent : ¬store.HasFunction id) (defined : (next.functionAt id).node ≠ none)
    {owner : ClassId} (declaring : (next.functionAt id).declaringClass = some owner) :
    store.MayOwn confined owner := by
  have unknown := store.functionAt_of_not_hasFunction id absent
  cases step with
  | createFunction record mayOwn =>
    rw [functionAt_addFunction_eq] at defined declaring
    split at defined
    · next created =>
      rw [if_pos created] at declaring
      exact mayOwn defined owner declaring
    · exact absurd (by rw [unknown]; rfl) defined
  | changeFunction changed change same =>
    have still : ¬(store.modifyFunction changed change).HasFunction id := by simpa using absent
    exact absurd (by rw [functionAt_of_not_hasFunction _ id still]; rfl) defined
  | setMember =>
    rw [addMember_eq] at defined
    exact absurd (by rw [functionAt_modifyClass, unknown]; rfl) defined
  | copyMember =>
    rw [addMember_eq] at defined
    exact absurd (by rw [functionAt_modifyClass, unknown]; rfl) defined
  | createClass | parametrize | order | begin | finish | abandon =>
    exact absurd (show (store.functionAt id).node = none by rw [unknown]; rfl) defined

end Step

/-- Classes stay in the store along a course. -/
theorem Course.hasClass {confined : Prop} {start store : Store} {events : List Event}
    (course : Course confined start events store) {id : ClassId} (present : start.HasClass id) :
    store.HasClass id :=
  course.invariant (fun store => store.HasClass id) present fun step => step.hasClass

end TypeInference.Store
