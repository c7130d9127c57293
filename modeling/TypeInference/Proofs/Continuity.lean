import TypeInference.Proofs.Outcome
import TypeInference.Proofs.Steps

/-!
# Continuity of analyses

An analysis may be interrupted by others that are needed for it, and has to find
afterwards what it left: the classes that were there keep their identity, their
bases and their order, their stacks are as they were, and members are only added.
A store goes onward from another one if it develops from it by a course and keeps
all this.

An analysis proceeds from an origin if it never leaves what goes onward from
there, whether it succeeds or fails. A result is reached without abandoning any
specialization. The rules say how composed analyses proceed.
-/

namespace TypeInference

/-- What an analysis leaves of a class that was there before. -/
structure ClassRecord.Kept (confined : Prop) (before after : ClassRecord) : Prop where
  identity : before.SameIdentity after
  bases : after.bases = before.bases
  resolutionOrder : after.resolutionOrder = before.resolutionOrder
  unfinished : after.unfinished.entries = before.unfinished.entries
  members : ∃ added, after.members.keys = before.members.keys ++ added
  /-- A specialization has all its members when it is finished. -/
  complete : confined → before.template ≠ none → after.members.keys = before.members.keys

namespace ClassRecord

variable {confined : Prop} {first second third : ClassRecord}

theorem Kept.refl (record : ClassRecord) : record.Kept confined record where
  identity := .refl record
  bases := rfl
  resolutionOrder := rfl
  unfinished := rfl
  members := ⟨[], (List.append_nil _).symm⟩
  complete _ _ := rfl

theorem Kept.trans (earlier : first.Kept confined second) (later : second.Kept confined third) :
    first.Kept confined third where
  identity :=
    { hash := later.identity.hash.trans earlier.identity.hash
      flags := later.identity.flags.trans earlier.identity.flags
      template := later.identity.template.trans earlier.identity.template }
  bases := later.bases.trans earlier.bases
  resolutionOrder := later.resolutionOrder.trans earlier.resolutionOrder
  unfinished := later.unfinished.trans earlier.unfinished
  members := by
    obtain ⟨added, names⟩ := earlier.members
    obtain ⟨more, all⟩ := later.members
    exact ⟨added ++ more, by rw [all, names, List.append_assoc]⟩
  complete := by
    intro isConfined specialized
    have still : second.template ≠ none := earlier.identity.template ▸ specialized
    exact (later.complete isConfined still).trans (earlier.complete isConfined specialized)

end ClassRecord

theorem FunctionRecord.SameIdentity.trans {first second third : FunctionRecord}
    (earlier : first.SameIdentity second) (later : second.SameIdentity third) :
    first.SameIdentity third where
  hash := later.hash.trans earlier.hash
  node := later.node.trans earlier.node
  declaringClass := later.declaringClass.trans earlier.declaringClass

namespace Store

/-- A class that is still there and kept. -/
structure KeepsClass (confined : Prop) (before after : Store) (id : ClassId) : Prop where
  present : after.HasClass id
  kept : (before.classAt id).Kept confined (after.classAt id)

/-- A function that is still there and kept. -/
structure KeepsFunction (before after : Store) (id : FunctionId) : Prop where
  present : after.HasFunction id
  kept : (before.functionAt id).SameIdentity (after.functionAt id)

/-- The methods that definitions declare belong to classes that may own them. -/
def Owned (confined : Prop) (store : Store) : Prop :=
  ∀ id, (store.functionAt id).node ≠ none →
    ∀ owner, (store.functionAt id).declaringClass = some owner → store.MayOwn confined owner

/-- Whether a step gives a class bases or changes its stack. -/
def Event.Disturbs (event : Event) (id : ClassId) : Prop :=
  match event with
  | .ordered changed => changed = id
  | .begun template _ _ => template = id
  | .finished template _ _ => template = id
  | .abandoned template _ _ => template = id
  | _ => False

/-- Whether a step abandons a specialization. -/
def Event.IsAbandonment : Event → Prop
  | .abandoned _ _ _ => True
  | _ => False

namespace Step

variable {confined : Prop} {store next : Store} {event : Event}

/-- A declared class stays one. -/
theorem isDeclared (step : Step confined store event next) {id : ClassId}
    (declared : store.IsDeclared id) : next.IsDeclared id where
  present := step.hasClass declared.present
  original := by rw [(step.sameIdentity declared.present).template, declared.original]
  userDefined := by rw [(step.sameIdentity declared.present).flags, declared.userDefined]

/-- A class that may own members still may. -/
theorem mayOwn (step : Step confined store event next) {id : ClassId}
    (mayOwn : store.MayOwn confined id) : next.MayOwn confined id :=
  fun isConfined => step.isDeclared (mayOwn isConfined)

/-- Methods keep owners that may own them. -/
theorem owned (step : Step confined store event next) (owned : store.Owned confined) :
    next.Owned confined := by
  intro id defined owner declaring
  by_cases present : store.HasFunction id
  · have same := step.sameFunction present
    rw [same.node] at defined
    rw [same.declaringClass] at declaring
    exact step.mayOwn (owned id defined owner declaring)
  · exact step.mayOwn (step.mayOwn_created present defined declaring)

/-- A step keeps every class whose bases and stack it leaves alone, unless it sets
a member on a class that may not own it. -/
theorem keepsClass (step : Step confined store event next) {id : ClassId}
    (present : store.HasClass id) (undisturbed : ¬event.Disturbs id)
    (mayOwn : ∀ name, event = .memberSet id name → store.MayOwn confined id) :
    KeepsClass confined store next id where
  present := step.hasClass present
  kept :=
    { identity := step.sameIdentity present
      bases := (step.derivation id fun ordered => undisturbed (by rw [ordered]; rfl)).1
      resolutionOrder := (step.derivation id fun ordered => undisturbed (by rw [ordered]; rfl)).2
      unfinished := by
        rw [step.unfinished id]
        unfold Event.stackAfter
        split <;> first | rfl | exact if_neg fun same => undisturbed same.symm
      members := by
        rw [step.memberNames present]
        unfold Event.namesAfter
        split
        · next changed name =>
          split
          · split
            · exact ⟨[], (List.append_nil _).symm⟩
            · exact ⟨[name], rfl⟩
          · exact ⟨[], (List.append_nil _).symm⟩
        · exact ⟨[], (List.append_nil _).symm⟩
      complete := by
        intro isConfined specialized
        rw [step.memberNames present]
        unfold Event.namesAfter
        split
        · next changed name =>
          split
          · next reached =>
            subst reached
            -- Only declared classes may own members, and a specialization is none.
            exact absurd (mayOwn name rfl isConfined).original specialized
          · rfl
        · rfl }

/-- A step keeps every function. -/
theorem keepsFunction (step : Step confined store event next) {id : FunctionId}
    (present : store.HasFunction id) : KeepsFunction store next id :=
  ⟨step.hasFunction present, step.sameFunction present⟩

end Step

/-- A store that goes onward from another one: by a course, without abandoning a
specialization if that is asked for, and keeping what was there. -/
structure Onward (confined calm : Prop) (origin store : Store) : Prop where
  course : ∃ events, Course confined origin events store ∧
    (calm → ∀ event ∈ events, ¬event.IsAbandonment)
  classes : ∀ id, origin.HasClass id → KeepsClass confined origin store id
  functions : ∀ id, origin.HasFunction id → KeepsFunction origin store id
  owned : store.Owned confined

namespace Onward

variable {confined calm : Prop} {origin store next : Store}

theorem refl (owned : store.Owned confined) : Onward confined calm store store where
  course := ⟨[], .still, fun _ _ listed => absurd listed (List.not_mem_nil)⟩
  classes _ present := ⟨present, .refl _⟩
  functions _ present := ⟨present, .refl _⟩
  owned := owned

/-- What goes onward from a store that goes onward does so from the origin. -/
theorem trans (earlier : Onward confined calm origin store)
    (later : Onward confined calm store next) : Onward confined calm origin next where
  course := by
    obtain ⟨events, course, quiet⟩ := earlier.course
    obtain ⟨more, continued, silent⟩ := later.course
    refine ⟨events ++ more, course.append continued, fun isCalm event listed => ?_⟩
    rcases List.mem_append.mp listed with before | after
    · exact quiet isCalm event before
    · exact silent isCalm event after
  classes id present := by
    have before := earlier.classes id present
    have after := later.classes id before.present
    exact ⟨after.present, before.kept.trans after.kept⟩
  functions id present := by
    have before := earlier.functions id present
    have after := later.functions id before.present
    exact ⟨after.present, before.kept.trans after.kept⟩
  owned := later.owned

/-- Without the demand for calm less is said. -/
theorem relax (onward : Onward confined calm origin store) :
    Onward confined False origin store where
  course := by
    obtain ⟨events, course, _⟩ := onward.course
    exact ⟨events, course, fun impossible => impossible.elim⟩
  classes := onward.classes
  functions := onward.functions
  owned := onward.owned

/-- A step goes onward if it keeps the classes of the origin. -/
theorem step {event : Event} (onward : Onward confined calm origin store)
    (step : Step confined store event next) (quiet : calm → ¬event.IsAbandonment)
    (kept : ∀ id, origin.HasClass id → KeepsClass confined store next id) :
    Onward confined calm origin next where
  course := by
    obtain ⟨events, course, silent⟩ := onward.course
    refine ⟨events ++ [event], .advance course step, fun isCalm other listed => ?_⟩
    rcases List.mem_append.mp listed with before | last
    · exact silent isCalm other before
    · rw [List.mem_singleton.mp last]
      exact quiet isCalm
  classes id present := by
    have before := onward.classes id present
    have after := kept id present
    exact ⟨after.present, before.kept.trans after.kept⟩
  functions id present := by
    have before := onward.functions id present
    have after := step.keepsFunction before.present
    exact ⟨after.present, before.kept.trans after.kept⟩
  owned := step.owned onward.owned

/-- A class that may own members of its own still may. -/
theorem mayOwn (onward : Onward confined calm origin store) {id : ClassId}
    (mayOwn : origin.MayOwn confined id) : store.MayOwn confined id := by
  intro isConfined
  have declared := mayOwn isConfined
  have after := onward.classes id declared.present
  exact ⟨after.present, by rw [after.kept.identity.template, declared.original],
    by rw [after.kept.identity.flags, declared.userDefined]⟩

/-- Creating a function goes onward. -/
theorem createFunction (onward : Onward confined calm origin store) (record : FunctionRecord)
    (mayOwn : ∀ owner, record.declaringClass = some owner → origin.MayOwn confined owner) :
    Onward confined calm origin (store.addFunction record).2 :=
  have made : Step confined store (.functionCreated (store.addFunction record).1)
      (store.addFunction record).2 :=
    .createFunction store record fun _ owner declaring =>
      onward.mayOwn (mayOwn owner declaring)
  onward.step made (fun _ impossible => impossible) fun id present =>
    made.keepsClass (onward.classes id present).present (fun impossible => impossible)
      fun _ impossible => nomatch impossible

/-- Changing what a function is besides its identity goes onward. -/
theorem changeFunction (onward : Onward confined calm origin store) (id : FunctionId)
    (change : FunctionRecord → FunctionRecord)
    (same : ∀ record : FunctionRecord, record.SameIdentity (change record)) :
    Onward confined calm origin (store.modifyFunction id change) :=
  have made : Step confined store (.functionChanged id) (store.modifyFunction id change) :=
    .changeFunction store id change same
  onward.step made (fun _ impossible => impossible) fun id present =>
    made.keepsClass (onward.classes id present).present (fun impossible => impossible)
      fun _ impossible => nomatch impossible

/-- Creating a class goes onward. -/
theorem createClass (onward : Onward confined calm origin store) (record : ClassRecord)
    (blank : record.Blank) (original : record.template = none)
    (userDefined : record.flags.builtin = false) :
    Onward confined calm origin (store.addClass record).2 :=
  have made : Step confined store (.classCreated (store.addClass record).1)
      (store.addClass record).2 := .createClass store record blank original userDefined
  onward.step made (fun _ impossible => impossible) fun id present =>
    made.keepsClass (onward.classes id present).present (fun impossible => impossible)
      fun _ impossible => nomatch impossible

/-- Changing the parameters of a class goes onward. -/
theorem parametrize (onward : Onward confined calm origin store) (id : ClassId)
    (parameters : Bindings) :
    Onward confined calm origin
      (store.modifyClass id fun record => { record with parameters }) :=
  have made : Step confined store (.parametrized id) _ := .parametrize store id parameters
  onward.step made (fun _ impossible => impossible) fun id present =>
    made.keepsClass (onward.classes id present).present (fun impossible => impossible)
      fun _ impossible => nomatch impossible

/-- Giving bases to a class without bases that the origin does not have goes onward. -/
theorem order (onward : Onward confined calm origin store) (id : ClassId) (bases : List Ty)
    (present : store.HasClass id) (underived : store.Underived id)
    (absent : ¬origin.HasClass id) :
    Onward confined calm origin (store.setBases id bases) :=
  have made : Step confined store (.ordered id) _ := .order store id bases present underived
  onward.step made (fun _ impossible => impossible) fun other inOrigin =>
    made.keepsClass (onward.classes other inOrigin).present
      (fun (same : id = other) => absent (same ▸ inOrigin)) fun _ impossible => nomatch impossible

/-- Setting a member on a class that may own it goes onward. -/
theorem setMember (onward : Onward confined calm origin store) (owner : ClassId) (name : String)
    (value : Value) (overwrite : Bool) (mayOwn : origin.MayOwn confined owner) :
    Onward confined calm origin (store.addMember owner name value overwrite).2 := by
  have owns := onward.mayOwn mayOwn
  have made : Step confined store (.memberSet owner name)
      (store.addMember owner name value overwrite).2 :=
    .setMember store owner name value overwrite owns
  refine onward.step made (fun _ impossible => impossible) fun id present =>
    made.keepsClass (onward.classes id present).present (fun impossible => impossible)
      fun other same => ?_
  cases same
  exact owns

end Onward

end Store

end TypeInference
