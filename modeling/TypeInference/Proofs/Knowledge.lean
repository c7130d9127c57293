import Mathlib.Data.List.Chain
import TypeInference.Proofs.Moves
import TypeInference.Proofs.ScopeOperations

/-!
# What is known stays known

An analysis goes on by single changes: something is done with the scopes, the store moves, a
definition is recorded, a problem is reported. A change of the store either leaves the members of
all classes as they are, or sets one member, and then the unknown value takes the place of an
unknown one at most.

So unless variables are discarded, no change loses anything. Variables stay where they are in
their scopes, with their names, kinds and places in the source; members stay in their classes;
and what has a known value keeps having one. Whatever changes lead to remembers all that, and so
does each state on the way.
-/

namespace TypeInference

/-- A variable that is still there: of the same name, kind and place in the source, and with a
known value if there was one. -/
structure Variable.Continues (before after : Variable) : Prop where
  name : after.name = before.name
  kind : after.kind = before.kind
  span : after.span = before.span
  known : before.value.isUnknown = false → after.value.isUnknown = false

instance (before after : Variable) : Decidable (before.Continues after) :=
  decidable_of_iff (after.name = before.name ∧ after.kind = before.kind ∧
      after.span = before.span ∧
      (before.value.isUnknown = false → after.value.isUnknown = false))
    ⟨fun ⟨name, kind, span, known⟩ => ⟨name, kind, span, known⟩,
      fun continues => ⟨continues.name, continues.kind, continues.span, continues.known⟩⟩

theorem Variable.Continues.refl (found : Variable) : found.Continues found :=
  ⟨rfl, rfl, rfl, id⟩

theorem Variable.Continues.trans {first second third : Variable} (one : first.Continues second)
    (other : second.Continues third) : first.Continues third where
  name := other.name.trans one.name
  kind := other.kind.trans one.kind
  span := other.span.trans one.span
  known isKnown := other.known (one.known isKnown)

/-- A variable that is declared again stays what it was, and does not become unknown. -/
theorem Variable.continues_refine (existing again : Variable) :
    existing.Continues (existing.refine again) where
  name := rfl
  kind := rfl
  span := rfl
  known isKnown := by
    cases unknown : again.value.isUnknown <;> simp [refine, unknown, isKnown]

/-- A declaration refines one variable, or comes last. -/
theorem Scope.continues_declareIn (declared : Variable) {entries : List Variable} {place : Nat}
    {found : Variable} (there : entries[place]? = some found) :
    ∃ later, (declareIn declared entries)[place]? = some later ∧ found.Continues later := by
  induction entries generalizing place with
  | nil => cases there
  | cons known rest inductionHypothesis =>
    rw [declareIn]
    split
    · cases place with
      | zero =>
        cases there
        exact ⟨_, rfl, found.continues_refine declared⟩
      | succ place => exact ⟨found, there, .refl found⟩
    · cases place with
      | zero => exact ⟨found, there, .refl found⟩
      | succ place => exact inductionHypothesis there

/-- Scopes in which every variable of others is still where it was. -/
def Scopes.Remember (before after : Scopes) : Prop :=
  ∀ id (place : Nat) {found : Variable}, (before.scopeAt id).entries[place]? = some found →
    ∃ later, (after.scopeAt id).entries[place]? = some later ∧ found.Continues later

namespace Scopes

variable {scopes after : Scopes}

/-- Scopes that were not opened have no variables, so only finitely many are looked for. -/
instance (before after : Scopes) : Decidable (before.Remember after) :=
  decidable_of_iff (∀ index < before.all.size,
      ∀ place, ∀ inside : place < (before.scopeAt ⟨index⟩).entries.length,
        ∃ later ∈ (after.scopeAt ⟨index⟩).entries[place]?,
          (before.scopeAt ⟨index⟩).entries[place].Continues later) <| by
    constructor
    · intro remembered id place found there
      have opened : id.index < before.all.size := by
        by_contra outside
        rw [scopeAt_of_size_le before id (Nat.le_of_not_lt outside)] at there
        cases there
      obtain ⟨inside, rfl⟩ := List.getElem?_eq_some_iff.mp there
      exact remembered id.index opened place inside
    · intro remembered index _ place inside
      exact remembered ⟨index⟩ place (List.getElem?_eq_getElem inside)

theorem Remember.of_entries (same : ∀ id, (scopes.scopeAt id).entries ≠ [] →
    (after.scopeAt id).entries = (scopes.scopeAt id).entries) : scopes.Remember after := by
  intro id place found there
  have some : (scopes.scopeAt id).entries ≠ [] := List.ne_nil_of_mem (List.mem_of_getElem? there)
  exact ⟨found, (same id some).symm ▸ there, .refl found⟩

/-- An edit that does not discard variables keeps them. -/
theorem Edited.remember {mayClear : Prop} (edited : scopes.Edited mayClear after)
    (keeps : ¬mayClear) : scopes.Remember after := by
  cases edited with
  | same => exact .of_entries fun _ _ => rfl
  | edit changed edit permitted =>
    intro id place found there
    rw [scopeAt_modifyScope]
    split
    · rcases edit.entries_apply (scopes.scopeAt id) with same | ⟨declared, -, entries⟩ | ⟨clears, -⟩
      · exact ⟨found, same ▸ there, .refl found⟩
      · rw [entries]
        exact Scope.continues_declareIn declared there
      · exact absurd (permitted clears) keeps
    · exact ⟨found, there, .refl found⟩

/-- Nothing but discarding variables loses any. -/
theorem remember_perform {operation : ScopeOperation}
    (keeps : ∀ id, operation ≠ .clearVariables id) :
    scopes.Remember (scopes.perform operation).2 := by
  rcases scopes.perform_cases operation with ⟨depth, rfl⟩ | ⟨node, kind, parent, rfl⟩ | edited
  · exact .of_entries fun _ _ => rfl
  · refine .of_entries fun id some => ?_
    have present : id.index < scopes.all.size := by
      by_contra outside
      exact some (by rw [scopeAt_of_size_le scopes id (Nat.le_of_not_lt outside)]; rfl)
    exact congrArg Scope.entries (scopes.scopeAt_push node kind parent present)
  · exact edited.remember fun ⟨id, clears⟩ => keeps id clears

end Scopes

/-- What an inserted member makes of the table. -/
theorem MemberTable.find?_insert (table : MemberTable) (name asked : String) (value : Value)
    (overwrite : Bool) : (table.insert name value overwrite).2.find? asked =
      if name = asked ∧ (table.find? asked = none ∨ overwrite = true) then some value
      else table.find? asked := by
  have contained : table.contains name = (table.find? name).isSome := rfl
  unfold insert
  by_cases same : name = asked
  · subst same
    cases known : table.find? name <;> cases overwrite <;>
      simp [contained, known, OrderedTable.find?_put]
  · split <;> simp [same, OrderedTable.find?_put]

namespace Store

variable {store next : Store}

/-- The members that classes have themselves after one was set. -/
theorem ownMember?_addMember (store : Store) (changed id : ClassId) (name asked : String)
    (value : Value) (overwrite : Bool) :
    (store.addMember changed name value overwrite).2.ownMember? id asked =
      if id = changed ∧ store.HasClass changed ∧ name = asked ∧
        (store.ownMember? id asked = none ∨ overwrite = true) then some value
      else store.ownMember? id asked := by
  unfold ownMember?
  rw [classAt_addMember]
  by_cases reached : id = changed ∧ store.HasClass changed
  · simp [reached, MemberTable.find?_insert]
  · rw [if_neg reached, if_neg fun ⟨same, present, _⟩ => reached ⟨same, present⟩]

/-- A class has no members before it is there. -/
theorem hasClass_of_ownMember? {id : ClassId} {name : String} {value : Value}
    (found : store.ownMember? id name = some value) : store.HasClass id := by
  refine Decidable.byContradiction fun outside => ?_
  rw [ownMember?, classAt_of_not_hasClass store id outside] at found
  cases found

/-- A store in which every member of another one is still there, and known if it was. -/
def Remember (before after : Store) : Prop :=
  ∀ id name {value : Value}, before.ownMember? id name = some value →
    ∃ later, after.ownMember? id name = some later ∧
      (value.isUnknown = false → later.isUnknown = false)

/-- Classes that are not there have no members, so only finitely many are looked for. -/
instance (before after : Store) : Decidable (before.Remember after) :=
  decidable_of_iff (∀ index < before.classes.size,
      ∀ name ∈ (before.classAt ⟨index⟩).members.keys,
        ∀ value ∈ before.ownMember? ⟨index⟩ name,
          ∃ later ∈ after.ownMember? ⟨index⟩ name,
            value.isUnknown = false → later.isUnknown = false) <| by
    constructor
    · intro remembered id name value found
      have listed : name ∈ (before.classAt id).members.keys :=
        (OrderedTable.contains_iff_mem_keys _ _).mp (Option.isSome_of_eq_some found)
      exact remembered id.index (hasClass_of_ownMember? found) name listed value found
    · intro remembered index _ name _ value found
      exact remembered ⟨index⟩ name found

/-- A store in which the classes of another one have the same members. -/
def SameMembers (before after : Store) : Prop :=
  ∀ id, before.HasClass id → (after.classAt id).members = (before.classAt id).members

theorem SameMembers.remember (same : store.SameMembers next) : store.Remember next := by
  intro id name value found
  refine ⟨value, ?_, fun isKnown => isKnown⟩
  rw [ownMember?, same id (hasClass_of_ownMember? found)]
  exact found

theorem sameMembers_addClass (store : Store) (record : ClassRecord) :
    store.SameMembers (store.addClass record).2 := fun id present => by
  rw [classAt_addClass_of_hasClass store record id present]

theorem sameMembers_modifyClass (store : Store) (id : ClassId)
    {change : ClassRecord → ClassRecord}
    (keeps : ∀ record, (change record).members = record.members) :
    store.SameMembers (store.modifyClass id change) := fun other _ => by
  rw [classAt_modifyClass_eq]
  split
  · exact keeps _
  · rfl

/-- A member that may be set: if it takes the place of another one although it is unknown, then
that one was unknown as well. -/
def MayReplace (store : Store) (id : ClassId) (name : String) (value : Value) (overwrite : Bool) :
    Prop :=
  overwrite = true → value.isUnknown = true → ∀ existing,
    store.ownMember? id name = some existing → existing.isUnknown = true

theorem MayReplace.remember {id : ClassId} {name : String} {value : Value} {overwrite : Bool}
    (permitted : store.MayReplace id name value overwrite) :
    store.Remember (store.addMember id name value overwrite).2 := by
  intro other asked existing found
  rw [ownMember?_addMember]
  split
  · next reached =>
    obtain ⟨rfl, -, rfl, replaced⟩ := reached
    have overwrites : overwrite = true := replaced.resolve_left (by simp [found])
    refine ⟨value, rfl, fun isKnown => ?_⟩
    cases unknown : value.isUnknown with
    | false => rfl
    | true =>
      rw [permitted overwrites unknown existing found] at isKnown
      cases isKnown
  · exact ⟨existing, found, fun isKnown => isKnown⟩

end Store

namespace Progress

/-- A single change of the progress of an analysis. -/
inductive Change (environment : Environment) (before : Progress) : Progress → Prop where
  /-- Something is done with the scopes. Variables are discarded if the options say so. -/
  | perform (operation : ScopeOperation)
      (permitted : ∀ id, operation = .clearVariables id →
        environment.options.discardsLocals = true) :
      Change environment before { before with scopes := (before.scopes.perform operation).2 }
  /-- The store moves, and no class gets a member. -/
  | move {store : Store} (moves : before.store.Move store)
      (same : before.store.SameMembers store) : Change environment before { before with store }
  /-- A class gets a member. -/
  | setMember {id : ClassId} {name : String} {value : Value} {overwrite : Bool}
      (proper : (before.store.classAt id).template ≠ none → name ∉ Engine.structuralMembers)
      (permitted : before.store.MayReplace id name value overwrite) :
      Change environment before
        { before with store := (before.store.addMember id name value overwrite).2 }
  | declareClass (node : NodeId) (id : ClassId) :
      Change environment before { before with symbols := before.symbols.insertClass node id }
  | declareFunction (entry : FunctionEntry) :
      Change environment before { before with symbols := before.symbols.insert entry }
  | report (log : DiagnosticLog) : Change environment before { before with log }

/-- Progress that has not lost what other progress knows. -/
structure Remembers (before after : Progress) : Prop where
  visible : before.scopes.Remember after.scopes
  members : before.store.Remember after.store

instance (before after : Progress) : Decidable (before.Remembers after) :=
  decidable_of_iff (before.scopes.Remember after.scopes ∧ before.store.Remember after.store)
    ⟨fun ⟨visible, members⟩ => ⟨visible, members⟩,
      fun remembers => ⟨remembers.visible, remembers.members⟩⟩

namespace Remembers

variable {first second third : Progress}

theorem refl (progress : Progress) : progress.Remembers progress where
  visible _ _ found there := ⟨found, there, .refl found⟩
  members _ _ _ found := ⟨_, found, id⟩

theorem trans (one : first.Remembers second) (other : second.Remembers third) :
    first.Remembers third where
  visible id place found there := by
    obtain ⟨later, still, continues⟩ := one.visible id place there
    obtain ⟨last, stays, goesOn⟩ := other.visible id place still
    exact ⟨last, stays, continues.trans goesOn⟩
  members id name value found := by
    obtain ⟨later, still, known⟩ := one.members id name found
    obtain ⟨last, stays, knownStill⟩ := other.members id name still
    exact ⟨last, stays, fun isKnown => knownStill (known isKnown)⟩

end Remembers

variable {environment : Environment} {before after middle : Progress}

/-- A change of the store, if any, is a move. -/
theorem Change.leadsTo (change : before.Change environment after) :
    before.store.LeadsTo after.store := by
  cases change with
  | move moves => exact .single moves
  | setMember proper permitted => exact .single (.setMember before.store _ _ proper)
  | perform | declareClass | declareFunction | report => exact .refl _

/-- No change loses anything, unless variables are discarded. -/
theorem Change.remembers (change : before.Change environment after)
    (keeps : environment.options.discardsLocals = false) : before.Remembers after := by
  cases change with
  | perform operation permitted =>
    refine ⟨Scopes.remember_perform fun id clears => ?_, (Remembers.refl before).members⟩
    rw [permitted id clears] at keeps
    cases keeps
  | move moves same => exact ⟨(Remembers.refl before).visible, same.remember⟩
  | setMember proper permitted => exact ⟨(Remembers.refl before).visible, permitted.remember⟩
  | declareClass | declareFunction | report =>
    exact ⟨(Remembers.refl before).visible, (Remembers.refl before).members⟩

/-- What changes lead to by way of progress that has a property. -/
def LeadsBy (environment : Environment) (property : Progress → Prop) : Progress → Progress → Prop :=
  Relation.ReflTransGen fun before after => before.Change environment after ∧ property after

namespace LeadsBy

variable {property : Progress → Prop}

theorem refl (progress : Progress) : progress.LeadsBy environment property progress :=
  Relation.ReflTransGen.refl

theorem trans (one : before.LeadsBy environment property middle)
    (other : middle.LeadsBy environment property after) :
    before.LeadsBy environment property after :=
  Relation.ReflTransGen.trans one other

theorem single (change : before.Change environment after) (has : property after) :
    before.LeadsBy environment property after :=
  Relation.ReflTransGen.single ⟨change, has⟩

/-- The store changes by moves. -/
theorem store (leads : before.LeadsBy environment property after) :
    before.store.LeadsTo after.store := by
  induction leads with
  | refl => exact .refl _
  | tail _ step inductionHypothesis => exact inductionHypothesis.trans step.1.leadsTo

/-- Unless variables are discarded, nothing is ever lost. -/
theorem remembers (leads : before.LeadsBy environment property after)
    (keeps : environment.options.discardsLocals = false) : before.Remembers after := by
  induction leads with
  | refl => exact .refl _
  | tail _ step inductionHypothesis =>
    exact inductionHypothesis.trans (step.1.remembers keeps)

end LeadsBy

/-- Progress goes through some states by single changes, and ends in the last one of them. -/
structure Passes (environment : Environment) (before : Progress) (states : List Progress)
    (after : Progress) : Prop where
  changes : (before :: states).IsChain (Change environment)
  ends : (before :: states).getLast (List.cons_ne_nil before states) = after

/-- What changes lead to is passed to through progress that has the property. -/
theorem LeadsBy.passes {property : Progress → Prop}
    (leads : before.LeadsBy environment property after) (initially : property before) :
    ∃ states, before.Passes environment states after ∧
      ∀ state ∈ before :: states, property state := by
  obtain ⟨states, chain, ends⟩ := List.exists_isChain_cons_of_relationReflTransGen leads
  refine ⟨states, ⟨chain.imp fun _ _ step => step.1, ends⟩, ?_⟩
  exact chain.induction property _ (fun _ _ step _ => step.2) fun _ => initially

instance : Trans Remembers Remembers Remembers where
  trans := Remembers.trans

/-- Every state that is passed through remembers all the earlier ones. -/
theorem Passes.remember {states : List Progress} (passes : before.Passes environment states after)
    (keeps : environment.options.discardsLocals = false) :
    (before :: states).Pairwise Remembers :=
  (passes.changes.imp fun _ _ change => change.remembers keeps).pairwise

end Progress

end TypeInference
