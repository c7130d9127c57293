import TypeInference.Proofs.Bookkeeping
import TypeInference.Proofs.Operations
import TypeInference.Proofs.Phrases

/-!
# What specializations carry of their templates

A specialization copies the members that its template has when it is made, and is
given none afterwards, while the template may get more. So it always has what the
template had at some moment of the run, and it carries all the template has
exactly if no member came later. One that is asked for between the body of a
class and the evaluation of its methods misses what they set on the receiver.
-/

namespace TypeInference

namespace Store

/-- The names of the members that a class has itself. -/
def memberNames (store : Store) (id : ClassId) : List String :=
  (store.classAt id).members.keys

/-- A class has every member of another one but those that every class has by nature. -/
def CarriesMembers (store : Store) (template specialized : ClassId) : Prop :=
  ∀ name ∈ store.memberNames template, name ∉ Engine.structuralMembers →
    name ∈ store.memberNames specialized

/-- Stored specializations have the members that their templates had first. -/
def Copied (store : Store) : Prop :=
  ∀ {template specialized}, store.Stores template specialized → ∃ earlier later,
    store.memberNames template = earlier ++ later ∧ store.CopiesMembers specialized earlier

namespace Step

variable {confined : Prop} {store next : Store} {event : Event}

/-- A new class has no members. -/
theorem memberNames_created (step : Step confined store event next) {id : ClassId}
    (created : event.createdClass? = some id) : next.memberNames id = [] := by
  cases step with
  | createClass record blank =>
    cases created
    rw [Store.memberNames, classAt_addClass, blank.members]
    rfl
  | begin template bindings there uncached idle =>
    cases created
    rw [Store.memberNames, classAt_begin store template _ bindings there idle, if_pos rfl]
    rfl
  | _ => cases created

/-- A class has gained nothing, or one name that was set. -/
theorem memberNames_extended (step : Step confined store event next) {id : ClassId}
    (present : store.HasClass id) :
    next.memberNames id = store.memberNames id ∨
      ∃ name, event = .memberSet id name ∧
        next.memberNames id = store.memberNames id ++ [name] := by
  have names : next.memberNames id = event.namesAfter id (store.memberNames id) :=
    step.memberNames present
  rw [names]
  unfold Event.namesAfter
  split
  · next changed name =>
    by_cases reached : id = changed
    · subst reached
      rw [if_pos rfl]
      split
      · exact .inl rfl
      · exact .inr ⟨name, rfl, rfl⟩
    · exact .inl (if_neg reached)
  · exact .inl rfl

/-- The names of a class after a step are those from before and the one that was set. -/
theorem mem_memberNames (step : Step confined store event next) {id : ClassId}
    (present : store.HasClass id) (name : String) :
    name ∈ next.memberNames id ↔ name ∈ store.memberNames id ∨ event = .memberSet id name := by
  have names : next.memberNames id = event.namesAfter id (store.memberNames id) :=
    step.memberNames present
  rw [names]
  unfold Event.namesAfter
  split
  · next changed set =>
    by_cases reached : id = changed
    · subst reached
      rw [if_pos rfl]
      have same : Event.memberSet id set = .memberSet id name ↔ name = set :=
        ⟨fun equal => by cases equal; rfl, fun equal => by rw [equal]⟩
      split
      · next known =>
        exact ⟨.inl, fun found => found.elim (fun before => before) fun set => same.mp set ▸ known⟩
      · rw [List.mem_append, List.mem_singleton, same]
    · have apart : Event.memberSet changed set ≠ .memberSet id name := fun equal =>
        reached (by cases equal; rfl)
      rw [if_neg reached, or_iff_left apart]
  · next other => rw [or_iff_left (other id name)]

/-- A stored specialization is given no member in a confined development: it is no
declared class, and it is not unfinished. -/
theorem memberNames_stored (step : Step True store event next) (orderly : store.Orderly)
    {template specialized : ClassId} (stored : store.Stores template specialized) :
    next.memberNames specialized = store.memberNames specialized := by
  obtain ⟨present, made, finished⟩ := orderly.stored stored
  rcases step.memberNames_extended present with same | ⟨name, rfl, _⟩
  · exact same
  · rcases step.memberSet with mayOwn | unfinished
    · rw [(mayOwn trivial).original] at made
      cases made
    · exact absurd unfinished finished

/-- What specializations have of their templates stays so. -/
theorem copied (step : Step True store event next) (orderly : store.Orderly)
    (copied : store.Copied) : next.Copied := by
  intro template specialized stored
  have extended {id : ClassId} (present : store.HasClass id) :
      ∃ added, next.memberNames id = store.memberNames id ++ added := by
    rcases step.memberNames_extended present with same | ⟨name, _, extended⟩
    · exact ⟨[], by rw [same, List.append_nil]⟩
    · exact ⟨[name], extended⟩
  -- What was stored before keeps its names, while the template may get another one. What
  -- this step stores has just copied its names.
  rcases step.stores stored with before | ⟨signature, rfl⟩
  · have present : store.HasClass template := by
      refine Decidable.byContradiction fun outside => ?_
      rw [Stores, classAt_of_not_hasClass store template outside] at before
      cases before
    obtain ⟨earlier, later, names, copies⟩ := copied before
    obtain ⟨added, grown⟩ := extended present
    refine ⟨earlier, later ++ added, by rw [grown, names, List.append_assoc], fun name => ?_⟩
    have kept := step.memberNames_stored orderly before
    unfold Store.memberNames at kept
    rw [kept]
    exact copies name
  · have current := step.isCurrent_of_ends .finished
    cases step with
    | finish _ _ _ _ copies =>
      have kept (id : ClassId) :
          ((store.finish template signature specialized).classAt id).members =
            (store.classAt id).members := by
        rw [classAt_finish]
        split <;> rfl
      obtain ⟨earlier, later, names, copies⟩ := copies trivial
      refine ⟨earlier, later, ?_, fun name => ?_⟩
      · rw [Store.memberNames, kept]
        exact names
      · rw [kept]
        exact copies name

end Step

namespace Course

variable {confined : Prop} {start store : Store} {events : List Event}

/-- The names of a class after a course are those from before and all that were set. -/
theorem mem_memberNames (course : Course confined start events store) {id : ClassId}
    (present : start.HasClass id) (name : String) :
    name ∈ store.memberNames id ↔ name ∈ start.memberNames id ∨ .memberSet id name ∈ events := by
  induction course with
  | still => simp
  | advance before step inductionHypothesis =>
    rw [step.mem_memberNames (before.hasClass present), inductionHypothesis, List.mem_append,
      List.mem_singleton, or_assoc, eq_comm (a := Event.memberSet id name)]

/-- The names that a class had first were all it had at some moment of the course
that created it. The induction is on the course; each step adds one name at most. -/
theorem moment (course : Course confined start events store) {id : ClassId}
    (absent : ¬start.HasClass id) (present : store.HasClass id) {earlier later : List String}
    (names : store.memberNames id = earlier ++ later) :
    ∃ before after middle, events = before ++ after ∧
      Course confined start before middle ∧ Course confined middle after store ∧
      middle.HasClass id ∧ middle.memberNames id = earlier := by
  induction course generalizing later with
  | still => exact absurd present absent
  | @advance events store next event before step inductionHypothesis =>
    -- Either the names are all the class has now, or they were all at an earlier moment.
    have now (all : next.memberNames id = earlier) :
        ∃ before after middle, events ++ [event] = before ++ after ∧
          Course confined start before middle ∧ Course confined middle after next ∧
          middle.HasClass id ∧ middle.memberNames id = earlier :=
      ⟨events ++ [event], [], next, (List.append_nil _).symm, .advance before step, .still,
        present, all⟩
    have sooner {later : List String} (there : store.HasClass id)
        (names : store.memberNames id = earlier ++ later) :
        ∃ before after middle, events ++ [event] = before ++ after ∧
          Course confined start before middle ∧ Course confined middle after next ∧
          middle.HasClass id ∧ middle.memberNames id = earlier := by
      obtain ⟨first, rest, middle, split, reached, continued, found⟩ :=
        inductionHypothesis there names
      exact ⟨first, rest ++ [event], middle, by rw [split, List.append_assoc], reached,
        .advance continued step, found⟩
    by_cases there : store.HasClass id
    · rcases step.memberNames_extended there with same | ⟨name, _, extended⟩
      · exact sooner there (same ▸ names)
      · -- The last name is the one that this step has set.
        rcases List.eq_nil_or_concat later with rfl | ⟨others, last, rfl⟩
        · exact now (by rw [names, List.append_nil])
        · rw [extended, List.concat_eq_append, ← List.append_assoc] at names
          exact sooner there (List.append_inj_left' names rfl)
    · have none := step.memberNames_created (step.createdClass there present)
      rw [names] at none
      exact now (by rw [names, none, (List.append_eq_nil_iff.mp none).1])

/-- Along a confined course, specializations have what their templates had first. -/
theorem copied (course : Course True start events store) (orderly : start.Orderly)
    (copied : start.Copied) : store.Orderly ∧ store.Copied :=
  course.invariant (fun store => store.Orderly ∧ store.Copied) ⟨orderly, copied⟩
    fun step kept => ⟨step.orderly kept.1, step.copied kept.1 kept.2⟩

end Course

/-- A class that copies the names another one had at some moment carries all its
names exactly if none but those of nature was set since then. -/
theorem carriesMembers_iff {confined : Prop} {middle store : Store} {after : List Event}
    {template specialized : ClassId} (continued : Course confined middle after store)
    (present : middle.HasClass template)
    (copies : store.CopiesMembers specialized (middle.memberNames template)) :
    store.CarriesMembers template specialized ↔
      ∀ name, .memberSet template name ∈ after →
        name ∈ middle.memberNames template ∨ name ∈ Engine.structuralMembers := by
  have all := continued.mem_memberNames present
  constructor
  · intro carries name set
    by_cases structural : name ∈ Engine.structuralMembers
    · exact .inr structural
    · have carried := carries name ((all name).mpr (.inr set)) structural
      exact .inl ((copies name).mp carried).1
  · intro unset name listed plain
    refine (copies name).mpr ⟨?_, plain⟩
    rcases (all name).mp listed with before | set
    · exact before
    · exact (unset name set).resolve_right plain

instance (store : Store) (template specialized : ClassId) :
    Decidable (store.CarriesMembers template specialized) :=
  inferInstanceAs (Decidable (∀ name ∈ _, _))

end Store

namespace Analyzer

open Store

/-- A generic class whose only method sets an attribute on its receiver, which is
specialized before that method is evaluated. -/
def boxModule : Module :=
  ⟨[.typeVariable "T",
    .defineClass 1 "Box" [.indexed "Generic" "T"]
      [.setter 2 "put" [] "item" (.constant (.int 1) .unknown)],
    .define "b" (.indexed "Box" "int")]⟩

/-- The class of the module above. -/
def boxClass : ClassId :=
  Registry.standard.store.nextClass

/-- Its specialization. -/
def boxOfIntegers : ClassId :=
  ⟨boxClass.index + 1⟩

end Analyzer

end TypeInference
