import TypeInference.Proofs.Defining
import TypeInference.Proofs.Proceeding

/-!
# Making a specialization proceeds

From its beginning to its end a specialization changes its placeholder and
nothing else that was there; whatever is needed in between proceeds. So when it
ends it is the innermost unfinished specialization of its template, and what
went on in between goes onward as a whole, whether the specialization finishes
or is abandoned.
-/

namespace TypeInference

namespace Store

/-- A store that goes onward but for one class, a placeholder. -/
structure Making (confined calm : Prop) (placeholder : ClassId) (begun store : Store) : Prop where
  course : ∃ events, Course confined begun events store ∧
    (calm → ∀ event ∈ events, ¬event.IsAbandonment)
  classes : ∀ id, begun.HasClass id → id ≠ placeholder → KeepsClass confined begun store id
  functions : ∀ id, begun.HasFunction id → KeepsFunction begun store id
  owned : store.Owned confined
  present : store.HasClass placeholder
  specialized : (store.classAt placeholder).template ≠ none

namespace Making

variable {confined calm : Prop} {placeholder : ClassId} {begun store next : Store}

/-- What goes onward goes onward but for the placeholder. -/
theorem of_onward (onward : Onward confined calm store next)
    (present : store.HasClass placeholder)
    (specialized : (store.classAt placeholder).template ≠ none) :
    Making confined calm placeholder store next where
  course := onward.course
  classes id there _ := onward.classes id there
  functions := onward.functions
  owned := onward.owned
  present := (onward.classes placeholder present).present
  specialized := by
    rw [(onward.classes placeholder present).kept.identity.template]
    exact specialized

/-- Where a specialization has just begun. -/
theorem start (owned : store.Owned confined) (present : store.HasClass placeholder)
    (specialized : (store.classAt placeholder).template ≠ none) :
    Making confined calm placeholder store store :=
  of_onward (.refl owned) present specialized

theorem trans (earlier : Making confined calm placeholder begun store)
    (later : Making confined calm placeholder store next) :
    Making confined calm placeholder begun next where
  course := by
    obtain ⟨events, course, quiet⟩ := earlier.course
    obtain ⟨more, continued, silent⟩ := later.course
    refine ⟨events ++ more, course.append continued, fun isCalm event listed => ?_⟩
    rcases List.mem_append.mp listed with before | after
    · exact quiet isCalm event before
    · exact silent isCalm event after
  classes id there apart := by
    have before := earlier.classes id there apart
    have after := later.classes id before.present apart
    exact ⟨after.present, before.kept.trans after.kept⟩
  functions id there := by
    have before := earlier.functions id there
    have after := later.functions id before.present
    exact ⟨after.present, before.kept.trans after.kept⟩
  owned := later.owned
  present := later.present
  specialized := later.specialized

/-- Without the demand for calm less is said. -/
theorem relax (making : Making confined calm placeholder begun store) :
    Making confined False placeholder begun store where
  course := by
    obtain ⟨events, course, _⟩ := making.course
    exact ⟨events, course, fun impossible => impossible.elim⟩
  classes := making.classes
  functions := making.functions
  owned := making.owned
  present := making.present
  specialized := making.specialized

/-- A step that changes the placeholder alone is part of the making. -/
theorem step {event : Event} (making : Making confined calm placeholder begun store)
    (step : Step confined store event next) (quiet : ¬event.IsAbandonment)
    (undisturbed : ∀ id, id ≠ placeholder →
      ¬event.Disturbs id ∧ ∀ name, event ≠ .memberSet id name) :
    Making confined calm placeholder begun next where
  course := by
    obtain ⟨events, course, silent⟩ := making.course
    refine ⟨events ++ [event], .advance course step, fun isCalm other listed => ?_⟩
    rcases List.mem_append.mp listed with before | last
    · exact silent isCalm other before
    · rw [List.mem_singleton.mp last]
      exact quiet
  classes id there apart := by
    have before := making.classes id there apart
    obtain ⟨still, unset⟩ := undisturbed id apart
    have after := step.keepsClass before.present still fun name same => absurd same (unset name)
    exact ⟨after.present, before.kept.trans after.kept⟩
  functions id there := by
    have before := making.functions id there
    have after := step.keepsFunction before.present
    exact ⟨after.present, before.kept.trans after.kept⟩
  owned := step.owned making.owned
  present := step.hasClass making.present
  specialized := by
    rw [(step.sameIdentity making.present).template]
    exact making.specialized

end Making

/-- The specialization that began is the innermost one again. -/
theorem Making.isCurrent {confined calm : Prop} {store begun made : Store}
    {template placeholder : ClassId} {signature : ResolvedSignature}
    (began : Step confined store (.begun template signature placeholder) begun)
    (present : store.HasClass template)
    (making : Making confined calm placeholder begun made) :
    made.IsCurrent template signature placeholder := by
  have apart : template ≠ placeholder := by
    rintro rfl
    exact began.not_hasClass_created rfl present
  have within := making.classes template (began.hasClass present) apart
  unfold IsCurrent
  rw [within.kept.unfinished, within.kept.identity.hash, began.unfinished template,
    (began.sameIdentity present).hash]
  simp [Event.stackAfter]

/-- The end of a specialization: it finishes, or it is abandoned. -/
inductive Event.Ends (template : ClassId) (signature : ResolvedSignature)
    (placeholder : ClassId) : Event → Prop where
  | finished : Ends template signature placeholder (.finished template signature placeholder)
  | abandoned : Ends template signature placeholder (.abandoned template signature placeholder)

/-- A specialization that ends is the one that its template began last. -/
theorem Step.isCurrent_of_ends {confined : Prop} {store next : Store} {event : Event}
    {template placeholder : ClassId} {signature : ResolvedSignature}
    (step : Step confined store event next) (ends : event.Ends template signature placeholder) :
    store.IsCurrent template signature placeholder := by
  cases ends <;> cases step <;> assumption

section Whole

variable {confined calm : Prop} {store begun made next : Store} {template placeholder : ClassId}
  {signature : ResolvedSignature} {ending : Event}

/-- The template of a specialization is kept as a whole if it is kept from the beginning to the end:
the end takes from its stack what the beginning put there. -/
theorem Step.keepsTemplate (began : Step confined store (.begun template signature placeholder) begun)
    (present : store.HasClass template) (inside : KeepsClass confined begun made template)
    (ended : Step confined made ending next) (ends : ending.Ends template signature placeholder) :
    KeepsClass confined store next template := by
  have stack : (made.classAt template).unfinished.entries =
      ⟨(store.classAt template).hash, signature, placeholder⟩ ::
        (store.classAt template).unfinished.entries := by
    rw [inside.kept.unfinished, began.unfinished template]
    exact if_pos rfl
  have beginning := began.derivation template fun impossible => nomatch impossible
  have stillOrdered : ending ≠ .ordered template := by
    rintro rfl
    cases ends
  have close := ended.derivation template stillOrdered
  have names : (begun.classAt template).members.keys = (store.classAt template).members.keys :=
    began.memberNames present
  have endNames : (next.classAt template).members.keys = (made.classAt template).members.keys := by
    rw [ended.memberNames inside.present]
    cases ends <;> rfl
  have identity := began.sameIdentity present
  have endIdentity := ended.sameIdentity inside.present
  refine ⟨ended.hasClass inside.present, ?_⟩
  exact
    { identity :=
        { hash := endIdentity.hash.trans (inside.kept.identity.hash.trans identity.hash)
          flags := endIdentity.flags.trans (inside.kept.identity.flags.trans identity.flags)
          template :=
            endIdentity.template.trans (inside.kept.identity.template.trans identity.template) }
      bases := close.1.trans (inside.kept.bases.trans beginning.1)
      resolutionOrder := close.2.trans (inside.kept.resolutionOrder.trans beginning.2)
      unfinished := by
        rw [ended.unfinished template, stack]
        cases ends <;> exact if_pos rfl
      members := by
        obtain ⟨added, all⟩ := inside.kept.members
        exact ⟨added, by rw [endNames, all, names]⟩
      complete := by
        intro isConfined specialized
        have still : (begun.classAt template).template ≠ none := identity.template ▸ specialized
        rw [endNames, inside.kept.complete isConfined still, names] }

namespace Onward

/-- A specialization goes onward as a whole. -/
theorem of_making (began : Step confined store (.begun template signature placeholder) begun)
    (present : store.HasClass template)
    (making : Making confined calm placeholder begun made)
    (ended : Step confined made ending next) (ends : ending.Ends template signature placeholder)
    (quiet : calm → ¬ending.IsAbandonment) : Onward confined calm store next := by
  have absent : ¬store.HasClass placeholder := began.not_hasClass_created rfl
  have apart : ∀ {id}, store.HasClass id → id ≠ placeholder := by
    rintro id there rfl
    exact absent there
  refine ⟨?_, ?_, ?_, ended.owned making.owned⟩
  · -- The course: the beginning, what went on in between, and the end.
    obtain ⟨events, course, silent⟩ := making.course
    refine ⟨[.begun template signature placeholder] ++ events ++ [ending],
      .advance ((Course.single began).append course) ended, fun isCalm event listed => ?_⟩
    rcases List.mem_append.mp listed with before | last
    · rcases List.mem_append.mp before with first | between
      · rw [List.mem_singleton.mp first]
        exact fun impossible => impossible
      · exact silent isCalm event between
    · rw [List.mem_singleton.mp last]
      exact quiet isCalm
  · -- The template has its stack touched twice, every other class not at all.
    intro id there
    have inside := making.classes id (began.hasClass there) (apart there)
    by_cases same : id = template
    · subst same
      exact began.keepsTemplate there inside ended ends
    · have before := began.keepsClass there
        (fun (disturbed : template = id) => same disturbed.symm)
        fun _ impossible => nomatch impossible
      have undisturbed : ¬ending.Disturbs id := by
        intro disturbed
        cases ends <;> exact same (Eq.symm disturbed)
      have after := ended.keepsClass inside.present undisturbed fun name impossible => by
        cases ends <;> cases impossible
      exact ⟨after.present, (before.kept.trans inside.kept).trans after.kept⟩
  · intro id there
    have before := began.keepsFunction there
    have inside := making.functions id before.present
    have after := ended.keepsFunction inside.present
    exact ⟨after.present, (before.kept.trans inside.kept).trans after.kept⟩

end Onward

end Whole

end Store

namespace Engine

open Analysis Store

variable {confined calm : Prop} {engine : Engine}

/-- Copying members onto a placeholder is part of its making, and gives it the
copied members and no others. The induction follows the copied members; what is
specialized for one of them leaves the placeholder alone. -/
theorem copyMembers_making (calm : Prop) (proceeds : engine.Proceeds confined)
    (bindings : Bindings) (placeholder : ClassId) (environment : Environment)
    (members : List (String × Value)) :
    ∀ before : Progress, before.store.Owned confined →
      before.store.HasClass placeholder →
      (before.store.classAt placeholder).template ≠ none →
      (∃ template, template ≠ placeholder ∧ before.store.HasClass template ∧
        ∃ entry ∈ (before.store.classAt template).unfinished.entries,
          entry.placeholder = placeholder) →
      match engine.copyMembers bindings placeholder members environment before with
      | .ok _ after => Making confined calm placeholder before.store after.store ∧
          (confined → ∀ name, name ∈ (after.store.classAt placeholder).members.keys ↔
            name ∈ (before.store.classAt placeholder).members.keys ∨
              name ∈ members.map (·.1))
      | .error _ after => Making confined False placeholder before.store after.store := by
  induction members with
  | nil =>
    intro before owned present specialized _
    exact ⟨.start owned present specialized, fun _ name => by simp⟩
  | cons member rest inductionHypothesis =>
    obtain ⟨name, value⟩ := member
    intro before owned present specialized unfinished
    rw [copyMembers, bind_apply]
    have replaced := (substitute_keeps proceeds bindings value).proceeds owned environment calm
      before (.refl owned)
    cases found : engine.substitute bindings value environment before with
    | ok replacement middle =>
      rw [found] at replaced
      -- Replacing the value may specialize other classes, but the placeholder is on the stack
      -- of its template all the while, and so it may be given the member.
      obtain ⟨template, apart, there, entry, listed, its⟩ := unfinished
      have stillThere := replaced.classes template there
      have kept := replaced.classes placeholder present
      have still : middle.store.IsUnfinished placeholder :=
        ⟨template, entry, stillThere.kept.unfinished ▸ listed, its⟩
      have copied : Step confined middle.store (.memberSet placeholder name)
          (middle.store.addMember placeholder name replacement true).2 :=
        .copyMember middle.store placeholder name replacement still
      have one : Making confined calm placeholder before.store
          (middle.store.addMember placeholder name replacement true).2 :=
        (Making.of_onward replaced present specialized).step copied
          (fun impossible => impossible) fun id other =>
            ⟨fun impossible => impossible, fun _ same => other (by cases same; rfl)⟩
      have named := copied.memberNames kept.present
      simp only [bind_apply, modifyStore_apply]
      have others := inductionHypothesis
        { middle with store := (middle.store.addMember placeholder name replacement true).2 }
        one.owned one.present one.specialized (by
          have after := one.classes template there apart
          exact ⟨template, apart, after.present, entry, after.kept.unfinished ▸ listed, its⟩)
      split at others
      · next final finished =>
        rw [finished]
        refine ⟨one.trans others.1, fun isConfined other => ?_⟩
        rw [others.2 isConfined other]
        -- The placeholder gets this name and those of the rest; a name that it has stays in its
        -- place.
        simp only [named, kept.kept.complete isConfined specialized, Event.namesAfter, if_true,
          List.map_cons, List.mem_cons]
        split
        · next known =>
          constructor
          · rintro (listed | listed)
            · exact .inl listed
            · exact .inr (.inr listed)
          · rintro (listed | rfl | listed)
            · exact .inl listed
            · exact .inl known
            · exact .inr listed
        · rw [List.mem_append, List.mem_singleton, or_assoc]
      · next failure final failed =>
        rw [failed]
        exact one.relax.trans others
    | error failure middle =>
      rw [found] at replaced
      exact .of_onward replaced present specialized

/-- The names of the members that are copied. -/
theorem mem_properMembers (members : MemberTable) (name : String) :
    name ∈ (members.entries.filter fun member =>
        !structuralMembers.contains member.1).map (·.1) ↔
      name ∈ members.keys ∧ name ∉ structuralMembers := by
  simp only [OrderedTable.keys, List.mem_map, List.mem_filter, Bool.not_eq_true',
    List.contains_eq_mem, decide_eq_false_iff_not]
  constructor
  · rintro ⟨member, ⟨there, proper⟩, rfl⟩
    exact ⟨⟨member, there, rfl⟩, proper⟩
  · rintro ⟨⟨member, there, rfl⟩, proper⟩
    exact ⟨member, ⟨there, proper⟩, rfl⟩

/-- Giving a placeholder its bases and members is the making of it. Afterwards it
has the members that its template had first and no others. -/
theorem materialize_making (calm : Prop) (proceeds : engine.Proceeds confined)
    (template placeholder : ClassId) (evidence : Evidence) (environment : Environment)
    (before : Progress) (owned : before.store.Owned confined)
    (present : before.store.HasClass placeholder)
    (specialized : (before.store.classAt placeholder).template ≠ none)
    (underived : before.store.Underived placeholder)
    (unnamed : (before.store.classAt placeholder).members.keys = [])
    (there : before.store.HasClass template) (apart : template ≠ placeholder)
    (unfinished : ∃ entry ∈ (before.store.classAt template).unfinished.entries,
      entry.placeholder = placeholder) :
    match engine.materialize template placeholder evidence environment before with
    | .ok _ after => Making confined calm placeholder before.store after.store ∧
        (confined → ∃ earlier later,
          (after.store.classAt template).members.keys = earlier ++ later ∧
            after.store.CopiesMembers placeholder earlier)
    | .error _ after => Making confined False placeholder before.store after.store := by
  obtain ⟨entry, listed, its⟩ := unfinished
  unfold materialize
  rw [bind_apply, store_apply]
  simp only [bind_apply]
  have substituted := (substituteBases_keeps proceeds evidence.bindings
    (before.store.classAt template).bases).proceeds owned environment calm before (.refl owned)
  cases found : engine.substituteBases evidence.bindings (before.store.classAt template).bases
      environment before with
  | ok bases middle =>
    rw [found] at substituted
    have kept := substituted.classes placeholder present
    -- While the bases of the template are specialized the placeholder gets none itself.
    have stillUnderived : middle.store.Underived placeholder :=
      ⟨kept.kept.bases.trans underived.bases,
        kept.kept.resolutionOrder.trans underived.resolutionOrder⟩
    have ordered : Step confined middle.store (.ordered placeholder)
        (middle.store.setBases placeholder
          (evidence.bases.foldl (addDiscovered middle.store) bases)) :=
      .order middle.store placeholder _ kept.present stillUnderived
    have one : Making confined calm placeholder before.store
        (middle.store.setBases placeholder
          (evidence.bases.foldl (addDiscovered middle.store) bases)) :=
      (Making.of_onward substituted present specialized).step ordered
        (fun impossible => impossible) fun id other =>
          ⟨fun same => other (Eq.symm same), fun _ impossible => nomatch impossible⟩
    have templateKept := one.classes template there apart
    have stillUnnamed := ordered.memberNames kept.present
    simp only [modifyStore_apply, store_apply]
    generalize middle.store.setBases placeholder
      (evidence.bases.foldl (addDiscovered middle.store) bases) = derived at *
    have copied := copyMembers_making calm proceeds evidence.bindings placeholder
      environment ((derived.classAt template).members.entries.filter fun member =>
        !structuralMembers.contains member.1)
      { middle with store := derived } one.owned one.present one.specialized
      ⟨template, apart, templateKept.present, entry,
        templateKept.kept.unfinished ▸ listed, its⟩
    split at copied
    · next final finished =>
      rw [finished]
      refine ⟨one.trans copied.1, fun isConfined => ?_⟩
      -- The template may have got more members while its first ones were copied.
      have templateStill := copied.1.classes template templateKept.present apart
      obtain ⟨later, names⟩ := templateStill.kept.members
      refine ⟨_, later, names, fun name => ?_⟩
      have fresh : name ∉ (derived.classAt placeholder).members.keys := by
        rw [stillUnnamed]
        change name ∉ (middle.store.classAt placeholder).members.keys
        rw [kept.kept.complete isConfined specialized, unnamed]
        exact List.not_mem_nil
      rw [copied.2 isConfined name, mem_properMembers]
      constructor
      · rintro (impossible | named)
        · exact absurd impossible fresh
        · exact named
      · exact .inr
    · next failure final failed =>
      rw [failed]
      exact one.relax.trans copied
  | error failure middle =>
    rw [found] at substituted
    exact .of_onward substituted present specialized

/-- The store in which a specialization of a template has begun. -/
theorem begin_underived (store : Store) (template : ClassId) (bindings : Bindings)
    (present : store.HasClass template)
    (idle : unfinished? store template (store.signature bindings) = none) :
    (store.begin template bindings).classAt store.nextClass =
      placeholderRecord store template bindings := by
  rw [classAt_begin store template store.nextClass bindings present idle, if_pos rfl]

/-- The cache of a template when a specialization is over. -/
theorem specializations_endSpecialization (store : Store) (template : ClassId) :
    ((endSpecialization store template).classAt template).specializations =
      (store.classAt template).specializations := by
  rw [classAt_endSpecialization]
  split <;> rfl

/-- Making a specialization in terms of its beginning, its body and its end. -/
theorem makeSpecialization_apply (template : ClassId) (evidence : Evidence)
    (environment : Environment) (before : Progress) :
    engine.makeSpecialization template evidence environment before =
      match engine.materialize template before.store.nextClass evidence environment
        { before with store := before.store.begin template evidence.bindings } with
      | .ok _ after =>
        .ok ((after.store.classAt template).specializations.stored
            (before.store.signature evidence.bindings) before.store.nextClass)
          { after with
            store := after.store.finish template (before.store.signature evidence.bindings)
              before.store.nextClass }
      | .error failure after =>
        .error failure { after with store := endSpecialization after.store template } := by
  have begun : ∀ scopes symbols log,
      (Progress.mk (beginSpecialization
        (before.store.addClass (placeholderRecord before.store template evidence.bindings)).2
        template (before.store.signature evidence.bindings) before.store.nextClass).2
        scopes symbols log) =
      Progress.mk (before.store.begin template evidence.bindings) scopes symbols log :=
    fun _ _ _ => rfl
  unfold makeSpecialization
  simp only [bind_apply, store_apply, onStore_apply, modifyStore_apply, withCleanup,
    addClass_fst, begun]
  cases engine.materialize template before.store.nextClass evidence environment
      { before with store := before.store.begin template evidence.bindings } with
  | ok _ after =>
    simp only [storeSpecialization, specializations_endSpecialization]
    rfl
  | error failure after => rfl

/-- Making a specialization leaves what the making of the placeholder left, apart from the end:
the placeholder is stored or given up. -/
theorem after_makeSpecialization_cases (engine : Engine) (template : ClassId) (evidence : Evidence)
    (environment : Environment) (before : Progress) :
    let made := (engine.materialize template before.store.nextClass evidence).after environment
      { before with store := before.store.begin template evidence.bindings }
    (engine.makeSpecialization template evidence).after environment before =
        { made with
          store := made.store.finish template (before.store.signature evidence.bindings)
            before.store.nextClass } ∨
      (engine.makeSpecialization template evidence).after environment before =
        { made with store := endSpecialization made.store template } := by
  have ending := engine.makeSpecialization_apply template evidence environment before
  cases found : engine.materialize template before.store.nextClass evidence environment
      { before with store := before.store.begin template evidence.bindings } with
  | ok _ made =>
    rw [found] at ending
    rw [after_of_ok found]
    exact .inl (after_of_ok ending)
  | error failure made =>
    rw [found] at ending
    rw [after_of_error found]
    exact .inr (after_of_error ending)

/-- What making a specialization comes to: between its beginning and its end lies
the making of the placeholder, which at the end is stored or given up. -/
theorem makeSpecialization_outcome (calm : Prop) (proceeds : engine.Proceeds confined)
    (template : ClassId) (evidence : Evidence) (environment : Environment) (before : Progress)
    (owned : before.store.Owned confined) (present : before.store.HasClass template)
    (uncached : (before.store.classAt template).specializations.find?
      (before.store.signature evidence.bindings) = none)
    (idle : unfinished? before.store template (before.store.signature evidence.bindings) = none) :
    let signature := before.store.signature evidence.bindings
    let placeholder := before.store.nextClass
    let begun := before.store.begin template evidence.bindings
    match engine.makeSpecialization template evidence environment before with
    | .ok result after => ∃ made, Making confined calm placeholder begun made ∧
        (confined → ∃ earlier later,
          (made.classAt template).members.keys = earlier ++ later ∧
            made.CopiesMembers placeholder earlier) ∧
        after.store = made.finish template signature placeholder ∧
        result = (made.classAt template).specializations.stored signature placeholder
    | .error _ after => ∃ made, Making confined False placeholder begun made ∧
        after.store = endSpecialization made template := by
  intro signature placeholder begun
  have began : Step confined before.store (.begun template signature placeholder) begun :=
    .begin before.store template evidence.bindings present uncached idle
  have record : begun.classAt placeholder =
      placeholderRecord before.store template evidence.bindings :=
    begin_underived before.store template evidence.bindings present idle
  have apart : template ≠ placeholder := ne_nextClass present
  have made := materialize_making calm proceeds template placeholder evidence
    environment { before with store := begun } (began.owned owned) (began.hasClass_created rfl)
    (by rw [record]; exact Option.some_ne_none _) ⟨by rw [record]; rfl, by rw [record]; rfl⟩
    (by rw [record]; rfl) (began.hasClass present) apart (by
      refine ⟨⟨(before.store.classAt template).hash, signature, placeholder⟩, ?_, rfl⟩
      rw [began.unfinished template]
      simp [Event.stackAfter])
  rw [makeSpecialization_apply]
  split at made
  · next final finished =>
    rw [finished]
    exact ⟨final.store, made.1, made.2, rfl, rfl⟩
  · next failure final failed =>
    rw [failed]
    exact ⟨final.store, made, rfl⟩

/-- Making a specialization goes onward. -/
theorem makeSpecialization_onward (proceeds : engine.Proceeds confined) (template : ClassId)
    (evidence : Evidence) (environment : Environment) (before : Progress)
    (owned : before.store.Owned confined) (present : before.store.HasClass template)
    (uncached : (before.store.classAt template).specializations.find?
      (before.store.signature evidence.bindings) = none)
    (idle : unfinished? before.store template (before.store.signature evidence.bindings) = none) :
    Reached confined calm before.store
      (engine.makeSpecialization template evidence environment before) := by
  have began : Step confined before.store (.begun template _ _) _ :=
    .begin before.store template evidence.bindings present uncached idle
  have outcome := makeSpecialization_outcome calm proceeds template evidence environment
    before owned present uncached idle
  cases found : engine.makeSpecialization template evidence environment before with
  | ok result after =>
    rw [found] at outcome
    obtain ⟨made, making, copied, left, _⟩ := outcome
    simp only [Reached, left]
    exact .of_making began present making
      (.finish made template _ _ (making.isCurrent began present) copied) .finished
      fun _ impossible => impossible
  | error failure after =>
    rw [found] at outcome
    obtain ⟨made, making, left⟩ := outcome
    simp only [Reached, left]
    exact .of_making began present making
      (.abandon made template _ _ (making.isCurrent began present)) .abandoned
      fun impossible => impossible.elim

/-- A class with a type parameter is in the store. -/
theorem hasClass_of_typeParameters {store : Store} {id : ClassId} {test : TypeParameter → Bool}
    (some_fails : (store.typeParameters id).all test = false) : store.HasClass id := by
  refine Decidable.byContradiction fun outside => ?_
  have nothing : store.typeParameters id = [] := by
    simp only [typeParameters, classAt_of_not_hasClass store id outside]
    rfl
  rw [nothing] at some_fails
  cases some_fails

/-- Specializing a class proceeds. -/
theorem specializeClass_proceeds (proceeds : engine.Proceeds confined) {origin : Store}
    (owned : origin.Owned confined) (id : ClassId) (arguments : Arguments) :
    (engine.specializeClass id arguments).Proceeds confined origin := by
  refine .bind .store fun store => ?_
  split
  · exact (proceeds.specialize _ _).proceeds owned
  · refine .bind ((ensureConstructed_keeps proceeds id).proceeds owned) fun _ => .of_read ?_
    intro environment calm before onward
    dsimp only
    -- Only where nothing is stored or being made for the signature is there anything to make.
    by_cases unresolved : (before.store.typeParameters id).all
        (Evidence.ofArguments before.store id (before.store.typeParameters id)
          arguments).bindings.isUnresolved = true
    · rw [if_pos unresolved]
      exact .refl onward.owned
    · rw [if_neg unresolved]
      have present := hasClass_of_typeParameters (Bool.eq_false_iff.mpr unresolved)
      cases uncached : (before.store.classAt id).specializations.find? (before.store.signature
          (Evidence.ofArguments before.store id (before.store.typeParameters id)
            arguments).bindings) with
      | some finished => exact .refl onward.owned
      | none =>
        cases idle : unfinished? before.store id (before.store.signature
            (Evidence.ofArguments before.store id (before.store.typeParameters id)
              arguments).bindings) with
        | some placeholder => exact .refl onward.owned
        | none =>
          exact makeSpecialization_onward proceeds id _ environment before
            onward.owned present uncached idle

/-- The engine of every depth proceeds. -/
theorem atDepth_proceeds (depth : Nat) : (Engine.atDepth depth).Proceeds confined :=
  atDepth_follows (fun _ proceeds world id arguments =>
    specializeClass_proceeds proceeds world.2 id arguments) depth

end Engine

end TypeInference
