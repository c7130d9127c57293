import TypeInference.Proofs.Records

/-!
# How the store develops

The store changes in small steps: functions and classes are created, a class is
given its bases once, members are added, and specializations begin and then
finish or are abandoned. A step names what it changes; its conditions are what
the analyses rely on when they make it. A course is a sequence of steps.

The laws of a step say for every class at once what the step does to one part of
its record. Whatever holds along a course follows from them by induction.

A development may be confined, which means that attributes of receivers are set
on declared classes only. That is so whenever methods are declared in the bodies
of classes, as they are in modules; an operation may also declare a method of
any class it likes.
-/

namespace TypeInference

namespace ClassRecord

/-- A class to which nothing was given yet but its identity and parameters. -/
structure Blank (record : ClassRecord) : Prop where
  bases : record.bases = []
  resolutionOrder : record.resolutionOrder = []
  members : record.members = {}
  specializations : record.specializations = {}
  unfinished : record.unfinished = {}

/-- What no step changes about a class. -/
structure SameIdentity (before after : ClassRecord) : Prop where
  hash : after.hash = before.hash
  flags : after.flags = before.flags
  template : after.template = before.template

theorem SameIdentity.refl (record : ClassRecord) : record.SameIdentity record :=
  ⟨rfl, rfl, rfl⟩

end ClassRecord

namespace FunctionRecord

/-- What no step changes about a function. -/
structure SameIdentity (before after : FunctionRecord) : Prop where
  hash : after.hash = before.hash
  node : after.node = before.node
  declaringClass : after.declaringClass = before.declaringClass

theorem SameIdentity.refl (record : FunctionRecord) : record.SameIdentity record :=
  ⟨rfl, rfl, rfl⟩

end FunctionRecord

namespace Store

/-- A class that a definition declared: neither registered nor specialized. -/
structure IsDeclared (store : Store) (id : ClassId) : Prop where
  present : store.HasClass id
  original : (store.classAt id).template = none
  userDefined : (store.classAt id).flags.builtin = false

/-- Whether attributes of the receivers of its methods may be set on a class. -/
def MayOwn (confined : Prop) (store : Store) (owner : ClassId) : Prop :=
  confined → store.IsDeclared owner

/-- A class that was given no bases yet. -/
structure Underived (store : Store) (id : ClassId) : Prop where
  bases : (store.classAt id).bases = []
  resolutionOrder : (store.classAt id).resolutionOrder = []

/-- The specialization that was begun last among those of a template. -/
def IsCurrent (store : Store) (template : ClassId) (signature : ResolvedSignature)
    (placeholder : ClassId) : Prop :=
  (store.classAt template).unfinished.entries.head? =
    some ⟨(store.classAt template).hash, signature, placeholder⟩

/-- A class that is the placeholder of a specialization being made. -/
def IsUnfinished (store : Store) (placeholder : ClassId) : Prop :=
  ∃ template, ∃ entry ∈ (store.classAt template).unfinished.entries,
    entry.placeholder = placeholder

/-- What a step changes. -/
inductive Event where
  | functionCreated (id : FunctionId)
  | functionChanged (id : FunctionId)
  | classCreated (id : ClassId)
  | parametrized (id : ClassId)
  /-- A class is given its bases, and its resolution order with them. -/
  | ordered (id : ClassId)
  | memberSet (id : ClassId) (name : String)
  | begun (template : ClassId) (signature : ResolvedSignature) (placeholder : ClassId)
  | finished (template : ClassId) (signature : ResolvedSignature) (placeholder : ClassId)
  | abandoned (template : ClassId) (signature : ResolvedSignature) (placeholder : ClassId)
deriving DecidableEq

/-- The store with the placeholder of a specialization, begun. -/
def begin (store : Store) (template : ClassId) (bindings : Bindings) : Store :=
  let (placeholder, created) :=
    store.addClass (Engine.placeholderRecord store template bindings)
  (Engine.beginSpecialization created template (store.signature bindings) placeholder).2

/-- The store in which the specialization begun last is over and stored. -/
def finish (store : Store) (template : ClassId) (signature : ResolvedSignature)
    (placeholder : ClassId) : Store :=
  (Engine.storeSpecialization (Engine.endSpecialization store template) template signature
    placeholder).2

/-- A specialization has the members of some names, without those that every
class has by nature. -/
def CopiesMembers (store : Store) (specialized : ClassId) (earlier : List String) : Prop :=
  ∀ name, name ∈ (store.classAt specialized).members.keys ↔
    name ∈ earlier ∧ name ∉ Engine.structuralMembers

/-- A step in the development of the store. -/
inductive Step (confined : Prop) : Store → Event → Store → Prop where
  | createFunction (store : Store) (record : FunctionRecord)
      (mayOwn : record.node ≠ none → ∀ owner, record.declaringClass = some owner →
        store.MayOwn confined owner) :
      Step confined store (.functionCreated (store.addFunction record).1)
        (store.addFunction record).2
  | changeFunction (store : Store) (id : FunctionId) (change : FunctionRecord → FunctionRecord)
      (same : ∀ record : FunctionRecord, record.SameIdentity (change record)) :
      Step confined store (.functionChanged id) (store.modifyFunction id change)
  | createClass (store : Store) (record : ClassRecord) (blank : record.Blank)
      (original : record.template = none) (userDefined : record.flags.builtin = false) :
      Step confined store (.classCreated (store.addClass record).1) (store.addClass record).2
  | parametrize (store : Store) (id : ClassId) (parameters : Bindings) :
      Step confined store (.parametrized id)
        (store.modifyClass id fun record => { record with parameters })
  | order (store : Store) (id : ClassId) (bases : List Ty) (present : store.HasClass id)
      (underived : store.Underived id) :
      Step confined store (.ordered id) (store.setBases id bases)
  | setMember (store : Store) (owner : ClassId) (name : String) (value : Value)
      (overwrite : Bool) (mayOwn : store.MayOwn confined owner) :
      Step confined store (.memberSet owner name) (store.addMember owner name value overwrite).2
  | copyMember (store : Store) (target : ClassId) (name : String) (value : Value)
      (unfinished : store.IsUnfinished target) :
      Step confined store (.memberSet target name) (store.addMember target name value true).2
  | begin (store : Store) (template : ClassId) (bindings : Bindings)
      (present : store.HasClass template)
      (uncached :
        (store.classAt template).specializations.find? (store.signature bindings) = none)
      (idle : Engine.unfinished? store template (store.signature bindings) = none) :
      Step confined store
        (.begun template (store.signature bindings) store.nextClass)
        (store.begin template bindings)
  | finish (store : Store) (template : ClassId) (signature : ResolvedSignature)
      (placeholder : ClassId) (current : store.IsCurrent template signature placeholder)
      (copied : confined → ∃ earlier later,
        (store.classAt template).members.keys = earlier ++ later ∧
          store.CopiesMembers placeholder earlier) :
      Step confined store (.finished template signature placeholder)
        (store.finish template signature placeholder)
  | abandon (store : Store) (template : ClassId) (signature : ResolvedSignature)
      (placeholder : ClassId) (current : store.IsCurrent template signature placeholder) :
      Step confined store (.abandoned template signature placeholder)
        (Engine.endSpecialization store template)

/-- A sequence of steps with what they change. -/
inductive Course (confined : Prop) (start : Store) : List Event → Store → Prop where
  | still : Course confined start [] start
  | advance {events : List Event} {store next : Store} {event : Event}
      (before : Course confined start events store) (step : Step confined store event next) :
      Course confined start (events ++ [event]) next

namespace Course

variable {confined : Prop} {start middle store : Store}

/-- A single step is a course. -/
theorem single {event : Event} (step : Step confined start event store) :
    Course confined start [event] store :=
  .advance .still step

/-- A course goes on where another one ended. -/
theorem append {earlier later : List Event} (first : Course confined start earlier middle)
    (second : Course confined middle later store) :
    Course confined start (earlier ++ later) store := by
  induction second with
  | still => simpa using first
  | advance _ step inductionHypothesis =>
    rw [← List.append_assoc]
    exact .advance inductionHypothesis step

/-- Along a course a property holds that every step keeps. -/
theorem invariant {events : List Event} (course : Course confined start events store)
    (property : Store → Prop) (initially : property start)
    (kept : ∀ {before after event}, Step confined before event after → property before →
      property after) : property store := by
  induction course with
  | still => exact initially
  | advance _ step inductionHypothesis => exact kept step inductionHypothesis

end Course

end Store

end TypeInference
