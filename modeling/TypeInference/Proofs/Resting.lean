import TypeInference.Proofs.Normality
import TypeInference.Proofs.Orders
import TypeInference.Proofs.Replacing
import TypeInference.Proofs.Sparing

/-!
# Progress at rest

Progress is at rest if no overload is pending and everything it refers to is there, in the orders of
its classes as well. An analysis that begins then makes specializations and nothing else, and leaves
progress at rest. What it can read of what was there is the same before and after: types and their
identities, unions, type parameters, members and methods, objects of classes, and what receivers and
arguments show.
-/

namespace TypeInference

open Analysis Store

namespace Store

/-- What stands in the orders of classes is there. -/
def OrdersKnown (store : Store) : Prop :=
  ∀ id, ∀ listed ∈ (store.classAt id).resolutionOrder, store.HasClass listed

/-- Only classes of the store have an order, so it is enough to look at these. -/
theorem ordersKnown_iff {store : Store} : store.OrdersKnown ↔
    ∀ record ∈ store.classes.toList, ∀ listed ∈ record.resolutionOrder, store.HasClass listed := by
  constructor
  · intro known record among listed found
    obtain ⟨index, inside, rfl⟩ := List.getElem_of_mem among
    have read : store.classAt ⟨index⟩ = store.classes.toList[index] := by
      rw [Array.length_toList] at inside
      rw [classAt, Array.getElem?_eq_getElem inside, Option.getD_some, Array.getElem_toList]
    exact known ⟨index⟩ listed (read ▸ found)
  · intro every id listed found
    by_cases present : store.HasClass id
    · exact every _ (classAt_mem present) listed found
    · rw [classAt_of_not_hasClass store id present] at found
      cases found

instance (store : Store) : Decidable store.OrdersKnown :=
  decidable_of_iff' _ ordersKnown_iff

/-- Courses keep orders known. -/
theorem OrdersKnown.course {start store : Store} {events : List Event} (known : start.OrdersKnown)
    (course : Course False start events store) (based : ∀ id, store.HasBases id) :
    store.OrdersKnown := by
  have mentioned := course.invariant
    (fun store => ∀ id, ∀ listed ∈ (store.classAt id).resolutionOrder, store.Mentions listed)
    (fun id listed found => .inl (known id listed found)) fun step => step.ordersKnown
  intro id listed found
  rcases mentioned id listed found with present | ⟨derived, base⟩
  · exact present
  · exact based derived listed base

/-- Classes of a store that are listed once are no more than the store has. -/
theorem length_le_of_nodup {store : Store} {ids : List ClassId} (distinct : ids.Nodup)
    (present : ∀ id ∈ ids, store.HasClass id) : ids.length ≤ store.classes.size := by
  have indices : (ids.map ClassId.index).Nodup :=
    distinct.map fun _ _ same => ClassId.eq_of_index same
  have inside : ids.map ClassId.index ⊆ List.range store.classes.size := by
    intro index listed
    obtain ⟨id, among, rfl⟩ := List.mem_map.mp listed
    exact List.mem_range.mpr (present id among)
  simpa using (indices.subperm inside).length_le

/-- Whether a class is generic does not depend on the depth of the search, once that exceeds the
number of classes that were not entered yet. -/
theorem isGenericWithin_of_deep {store : Store} (based : ∀ id, store.HasBases id) (first : Nat) :
    ∀ (second : Nat) (entered : List ClassId) (id : ClassId), entered.Nodup →
      (∀ other ∈ entered, store.HasClass other) → store.HasClass id →
        store.classes.size < first + entered.length →
          store.classes.size < second + entered.length →
            store.isGenericWithin first entered id = store.isGenericWithin second entered id := by
  induction first with
  | zero =>
    intro _ entered _ distinct inside _ deep _
    have few := length_le_of_nodup distinct inside
    omega
  | succ first inductionHypothesis =>
    intro second entered id distinct inside present deep other
    cases second with
    | zero =>
      have few := length_le_of_nodup distinct inside
      omega
    | succ second =>
      rw [isGenericWithin, isGenericWithin]
      by_cases looking : entered.contains id = true
      · rw [if_pos looking, if_pos looking]
      · rw [if_neg looking, if_neg looking]
        have fresh : id ∉ entered := fun among => looking (List.contains_iff_mem.mpr among)
        have bases : (store.classAt id).baseClasses.any
              (store.isGenericWithin first (id :: entered)) =
            (store.classAt id).baseClasses.any (store.isGenericWithin second (id :: entered)) := by
          rw [Bool.eq_iff_iff, List.any_eq_true, List.any_eq_true]
          refine exists_congr fun base => and_congr_right fun listed => ?_
          rw [inductionHypothesis second (id :: entered) base
            (List.nodup_cons.mpr ⟨fresh, distinct⟩)
            (List.forall_mem_cons.mpr ⟨present, inside⟩) (based id base listed)
            (by rw [List.length_cons]; omega) (by rw [List.length_cons]; omega)]
        dsimp only
        rw [bases]

namespace KeepsShapes

variable {before after : Store}

theorem baseClasses (keeps : before.KeepsShapes after) {id : ClassId}
    (present : before.HasClass id) :
    (after.classAt id).baseClasses = (before.classAt id).baseClasses := by
  rw [ClassRecord.baseClasses, ClassRecord.bases_of_shape (keeps.shapes id present)]
  rfl

theorem openParameters (keeps : before.KeepsShapes after) {id : ClassId}
    (present : before.HasClass id) :
    (after.classAt id).openParameters = (before.classAt id).openParameters := by
  rw [ClassRecord.openParameters, ClassRecord.parameters_of_shape (keeps.shapes id present)]
  rfl

/-- A class is generic if it was. The search goes along bases that were there, and going deeper
finds nothing more. -/
theorem isGeneric (keeps : before.KeepsShapes after) (based : ∀ id, before.HasBases id)
    {id : ClassId} (present : before.HasClass id) : after.isGeneric id = before.isGeneric id := by
  have alike (depth : Nat) : ∀ entered id, before.HasClass id →
      after.isGenericWithin depth entered id = before.isGenericWithin depth entered id := by
    induction depth with
    | zero => exact fun _ _ _ => rfl
    | succ depth inductionHypothesis =>
      intro entered id present
      have deeper : (before.classAt id).baseClasses.any
            (after.isGenericWithin depth (id :: entered)) =
          (before.classAt id).baseClasses.any
            (before.isGenericWithin depth (id :: entered)) := by
        rw [Bool.eq_iff_iff, List.any_eq_true, List.any_eq_true]
        refine exists_congr fun base => and_congr_right fun listed => ?_
        rw [inductionHypothesis _ base (based id base listed)]
      simp only [isGenericWithin, keeps.baseClasses present, deeper, keeps.openParameters present]
  have grown := keeps.grown
  rw [Store.isGeneric, Store.isGeneric, alike _ [] id present]
  exact isGenericWithin_of_deep based _ _ [] id List.nodup_nil (List.forall_mem_nil _) present
    (by rw [List.length_nil]; omega) (by rw [List.length_nil]; omega)

end KeepsShapes

end Store

/-- Progress in which no overload is pending and all that is referred to is there. -/
structure Progress.AtRest (environment : Environment) (progress : Progress) : Prop where
  grounded : progress.Grounded environment
  settled : progress.store.NoOverloadIs .pending
  ordered : progress.store.OrdersKnown

/-- Progress at rest that other progress at rest leads to: what was there is as it was, and
specializations were made without any being abandoned. -/
structure Progress.RestsTo (environment : Environment) (before after : Progress) : Prop where
  start : before.AtRest environment
  rest : after.AtRest environment
  lasts : before.store.LastsTo after.store
  spares : before.store.Spares none after.store
  course : ∃ events, Course False before.store events after.store ∧
    ∀ event ∈ events, ¬event.IsAbandonment

namespace Progress

variable {environment : Environment} {before middle after : Progress}

/-- Progress is at rest wherever a run leads that starts with the registered classes, once no
overload is pending. -/
theorem Grounded.atRest {events : List Event} (grounded : before.Grounded environment)
    (reached : Course False Registry.standard.store events before.store)
    (settled : before.store.NoOverloadIs .pending) : before.AtRest environment where
  grounded := grounded
  settled := settled
  ordered := OrdersKnown.course (fun id _ found => Registry.hasClass_order_standard id found)
    reached grounded.hasBases

/-- What an analysis leaves that begins at rest and gives a result, and what the result refers to.
It need only respect what all analyses do, and spare what was there. -/
theorem AtRest.restsTo_of_ok {α : Type} [Refers α] {analysis : Analysis α} {result : α}
    (rest : before.AtRest environment)
    (grounds : Grounds environment none before fun _ : Unit => analysis)
    (shapes : analysis.Respects .shaping) (proceeds : analysis.Proceeds False before.store)
    (spared : before.store.Spares none after.store)
    (returned : analysis environment before = .ok result after) :
    ∃ rests : before.RestsTo environment after,
      Within rests.rest.grounded.references result := by
  obtain ⟨lasts, grounded, within⟩ := grounds.lastsTo_of_ok shapes returned
  have reached := proceeds environment True before (.refl (Operation.owned_unconfined _))
  rw [returned] at reached
  obtain ⟨events, course, quiet⟩ := Onward.course reached
  exact ⟨⟨rest, ⟨grounded, spared.settled rest.settled,
    rest.ordered.course course grounded.hasBases⟩, lasts, spared, events, course, quiet trivial⟩, within⟩

theorem RestsTo.refl (rest : before.AtRest environment) : before.RestsTo environment before :=
  ⟨rest, rest, .refl _, .refl _, [], .still, nofun⟩

theorem RestsTo.trans (first : before.RestsTo environment middle)
    (second : middle.RestsTo environment after) : before.RestsTo environment after where
  start := first.start
  rest := second.rest
  lasts := first.lasts.trans second.lasts
  spares := first.spares.trans second.spares
  course := by
    obtain ⟨events, course, quiet⟩ := first.course
    obtain ⟨more, continued, silent⟩ := second.course
    exact ⟨events ++ more, course.append continued, List.forall_mem_append.mpr ⟨quiet, silent⟩⟩

namespace RestsTo

variable (rests : before.RestsTo environment after)

include rests

theorem functionAt (id : FunctionId) : after.store.functionAt id = before.store.functionAt id := by
  rw [Store.functionAt, rests.spares.functions]
  rfl

/-- A function gets the receiver that it got. -/
theorem receiverFor (function : FunctionId) :
    Engine.receiverFor after.store function = Engine.receiverFor before.store function := by
  funext target
  unfold Engine.receiverFor
  rw [rests.functionAt]

/-- What referred to things that were there still does. -/
theorem within {α : Type} [Refers α] {thing : α}
    (given : Within rests.start.grounded.references thing) :
    Within rests.rest.grounded.references thing :=
  rests.lasts.within rests.start.grounded rests.rest.grounded given

/-- The answer of a template stays. -/
theorem answer? {template answer : ClassId} {signature : ResolvedSignature}
    (answered : before.store.answer? template signature = some answer) :
    after.store.answer? template signature = some answer := by
  obtain ⟨events, course, quiet⟩ := rests.course
  exact course.answer? answered fun placeholder listed => quiet _ listed trivial

section Classes

variable {id : ClassId} (present : before.store.HasClass id)

include present

theorem shape : (after.store.classAt id).shape = (before.store.classAt id).shape :=
  rests.lasts.keeps.shapes id present

theorem isGeneric : after.store.isGeneric id = before.store.isGeneric id :=
  rests.lasts.keeps.isGeneric rests.start.grounded.hasBases present

theorem typeParameters : after.store.typeParameters id = before.store.typeParameters id :=
  rests.lasts.keeps.typeParameters present (rests.start.grounded.hasBases id)

theorem lineage : after.store.lineage id = before.store.lineage id := by
  rw [Store.lineage, ClassRecord.resolutionOrder_of_shape (rests.shape present)]
  rfl

/-- Members are looked up along classes that were there, and these have the members they had. -/
theorem member? (name : String) : after.store.member? id name = before.store.member? id name := by
  have along : ∀ ancestor ∈ before.store.lineage id, before.store.HasClass ancestor :=
    List.forall_mem_cons.mpr ⟨present, rests.start.ordered id⟩
  rw [Store.member?, rests.lineage present, Store.member?, ← List.head?_filterMap,
    ← List.head?_filterMap]
  refine congrArg List.head? (List.filterMap_congr fun ancestor listed => ?_)
  rw [ownMember?, rests.spares.sameMembers (along ancestor listed)]
  rfl

theorem method? (name : String) : after.store.method? id name = before.store.method? id name := by
  rw [Store.method?, rests.member? present, Store.method?]

end Classes

section Things

variable {value : Value} {values : List Value}

theorem typeHash {ty : Ty} (given : Within rests.start.grounded.references ty) :
    after.store.typeHash ty = before.store.typeHash ty :=
  (rests.lasts.leads.keepsType (hasType_of_within (fun _ has => has) given)).2

theorem sameType {first second : Ty} (one : Within rests.start.grounded.references first)
    (other : Within rests.start.grounded.references second) :
    after.store.sameType first second = before.store.sameType first second := by
  rw [Store.sameType, Store.sameType, rests.typeHash one, rests.typeHash other]

theorem typeOf (given : Within rests.start.grounded.references value) :
    after.store.typeOf value = before.store.typeOf value :=
  rests.lasts.leads.typeOf (fun _ has => has) given

theorem union (given : Within rests.start.grounded.references values) :
    after.store.union values = before.store.union values :=
  rests.lasts.leads.union (fun _ has => has) given

theorem signature {bindings : Bindings} (given : Within rests.start.grounded.references bindings) :
    after.store.signature bindings = before.store.signature bindings :=
  rests.lasts.leads.signature fun ty listed => hasType_of_within (fun _ has => has) (given ty listed)

/-- Erasure gives what it gave, since values stay in normal form. -/
theorem eraseParameters (given : Within rests.start.grounded.references value) :
    after.store.eraseParameters value = before.store.eraseParameters value := by
  rw [eraseParameters_of_isNormal (rests.start.grounded.isNormal given),
    eraseParameters_of_isNormal (rests.rest.grounded.isNormal (rests.within given))]

theorem returnValue {overload : Overload}
    (given : Within rests.start.grounded.references overload) :
    after.store.returnValue overload = before.store.returnValue overload := by
  unfold Store.returnValue
  split
  · rfl
  · exact rests.union given.2.2

/-- A receiver shows what it showed. -/
theorem receiverBindings (given : Within rests.start.grounded.references value) :
    after.store.receiverBindings value = before.store.receiverBindings value := by
  unfold Store.receiverBindings
  dsimp only
  split
  · rfl
  · next id found =>
    have present : before.store.HasClass id := by
      split at found
      · cases found
        exact given.objectType
      · cases found
        exact given
      · cases found
    have ancestors : (before.store.classAt id).resolutionOrder.map
          (fun ancestor => (after.store.classAt ancestor).parameters) =
        (before.store.classAt id).resolutionOrder.map
          fun ancestor => (before.store.classAt ancestor).parameters :=
      List.map_congr_left fun ancestor listed =>
        ClassRecord.parameters_of_shape (rests.shape (rests.start.ordered id ancestor listed))
    rw [rests.lasts.keeps.openParameters present, ClassRecord.parameters_of_shape (rests.shape present),
      ClassRecord.resolutionOrder_of_shape (rests.shape present), ancestors]
    refine List.foldl_ext _ _ _ fun bindings sample listed => ?_
    rw [rests.typeOf (within_contentSamples given _ (List.of_mem_zip listed).2)]

/-- A registered class gives the object that it gave. -/
theorem builtinInstance {id : ClassId} (present : before.store.HasClass id)
    (given : Within rests.start.grounded.references values) :
    Engine.builtinInstance after.store id values = Engine.builtinInstance before.store id values := by
  unfold Engine.builtinInstance
  rw [ClassRecord.builtin_of_shape (rests.shape present), rests.lasts.keeps.newObject present]
  dsimp only
  split
  · next value _ => rw [rests.typeOf (given value List.mem_cons_self)]
  · rfl
  · rfl
  · rfl
  · rfl

end Things

section Calls

variable {receiver : Option Value} {positional : List Value} {keywords : List (String × Value)}

/-- A call shows what it showed. -/
theorem callBindings {overload : Overload}
    (formal : Within rests.start.grounded.references overload)
    (received : Within rests.start.grounded.references receiver)
    (placed : Within rests.start.grounded.references positional)
    (named : Within rests.start.grounded.references keywords) (span : Span) :
    Engine.callBindings after.store overload receiver positional keywords span =
      Engine.callBindings before.store overload receiver positional keywords span := by
  have arguments : Within rests.start.grounded.references
      (Arguments.forCall overload.parameters receiver positional keywords span) :=
    within_forCall formal.1 received placed named span
  have shown : ∀ argument ∈ (Arguments.forCall overload.parameters receiver positional keywords
      span).list, ∀ bindings, Engine.bindDeclared after.store bindings argument =
        Engine.bindDeclared before.store bindings argument := by
    intro argument listed bindings
    unfold Engine.bindDeclared
    rw [rests.typeOf (arguments argument listed).1]
  unfold Engine.callBindings
  cases receiver with
  | none => exact List.foldl_ext _ _ _ fun bindings argument listed => shown argument listed bindings
  | some value =>
    dsimp only
    rw [rests.receiverBindings ((within_some value).mp received)]
    exact List.foldl_ext _ _ _ fun bindings argument listed => shown argument listed bindings

end Calls

section Samples

variable {template : ClassId} (present : before.store.HasClass template) {evidence : Evidence}
  (shown : Within rests.start.grounded.references evidence)

/-- Two classes have one structure if they had. -/
theorem sameStructure {base found : ClassId} (one : before.store.HasClass base)
    (other : before.store.HasClass found) :
    Evidence.sameStructure after.store base found =
      Evidence.sameStructure before.store base found := by
  have templates {id : ClassId} (present : before.store.HasClass id) :
      (after.store.classAt (after.store.templateOf id)).hash =
        (before.store.classAt (before.store.templateOf id)).hash := by
    rw [rests.lasts.keeps.templateOf present]
    exact ClassRecord.hash_of_shape (rests.shape (rests.start.grounded.templateOf present).1)
  simp only [Evidence.sameStructure, ClassRecord.builtin_of_shape (rests.shape one),
    ClassRecord.builtin_of_shape (rests.shape other), ClassRecord.hash_of_shape (rests.shape one),
    ClassRecord.hash_of_shape (rests.shape other), templates one, templates other]

include present shown

/-- A type is kept as a base if it was. -/
theorem addBase {ty : Ty} (given : Within rests.start.grounded.references ty) :
    evidence.addBase after.store template ty = evidence.addBase before.store template ty := by
  have kept : evidence.bases.any (after.store.sameType ty) =
      evidence.bases.any (before.store.sameType ty) := by
    rw [Bool.eq_iff_iff, List.any_eq_true, List.any_eq_true]
    refine exists_congr fun base => and_congr_right fun listed => ?_
    rw [rests.sameType given (shown.2.1 base listed)]
  have apart : after.store.sameType ty (.cls template) =
      before.store.sameType ty (.cls template) := rests.sameType given present
  rw [Evidence.addBase, Evidence.addBase, apart, kept]

/-- A value shows what it showed through the bases of a template. -/
theorem sampleBases? {value : Value} (given : Within rests.start.grounded.references value) :
    evidence.sampleBases? after.store template value =
      evidence.sampleBases? before.store template value := by
  have known : Within rests.start.grounded.references (before.store.typeOf value) :=
    within_typeOf given
  have based := rests.start.grounded.hasBases template
  have added := rests.addBase present shown known
  unfold Evidence.sampleBases?
  dsimp only
  rw [rests.typeOf given]
  split
  · next found isClass =>
    have there : before.store.HasClass found := by
      rw [isClass] at known
      exact known
    have structures : ((before.store.classAt template).baseClasses.find? fun base =>
          Evidence.sameStructure after.store base found) =
        (before.store.classAt template).baseClasses.find? fun base =>
          Evidence.sameStructure before.store base found := by
      rw [← List.head?_filter, ← List.head?_filter]
      exact congrArg List.head? (List.filter_congr fun base listed =>
        rests.sameStructure (based base listed) there)
    rw [rests.lasts.keeps.baseClasses present, structures]
    refine Option.map_congr fun base among => ?_
    have own := based base (List.mem_of_find?_eq_some among)
    rw [added, rests.isGeneric own, rests.lasts.keeps.openParameters own,
      ClassRecord.builtin_of_shape (rests.shape own)]
    split
    · refine List.foldl_ext _ _ _ fun evidence sample listed => ?_
      unfold Evidence.bindSample
      split
      · next content sampled =>
        have inside := within_samples _ _ given _ (List.of_mem_zip listed).2
        rw [rests.typeOf ((within_some content).mp (sampled ▸ inside))]
      · rfl
    · rfl
  · rfl

/-- An argument shows what it showed. -/
theorem takeArgument {argument : Argument}
    (given : Within rests.start.grounded.references argument) :
    evidence.takeArgument after.store template argument =
      evidence.takeArgument before.store template argument := by
  have apart : after.store.sameType argument.declaredType (.cls template) =
      before.store.sameType argument.declaredType (.cls template) :=
    rests.sameType given.2 present
  unfold Evidence.takeArgument
  rw [rests.typeOf given.1, rests.sampleBases? present shown given.1, apart]

omit shown

/-- Arguments show what they showed of a template. -/
theorem ofArguments (parameters : List TypeParameter) {arguments : Arguments}
    (given : Within rests.start.grounded.references arguments) :
    Evidence.ofArguments after.store template parameters arguments =
      Evidence.ofArguments before.store template parameters arguments := by
  have taken (list : List Argument) (listed : Within rests.start.grounded.references list) :
      ∀ evidence : Evidence, Within rests.start.grounded.references evidence →
        list.foldl (Evidence.takeArgument after.store template) evidence =
          list.foldl (Evidence.takeArgument before.store template) evidence := by
    induction list with
    | nil => exact fun _ _ => rfl
    | cons argument rest inductionHypothesis =>
      intro evidence shown
      rw [within_cons] at listed
      rw [List.foldl_cons, List.foldl_cons, rests.takeArgument present shown listed.1]
      exact inductionHypothesis listed.2 _ (within_takeArgument shown listed.1)
  have remaining (parameters : List TypeParameter) : ∀ (list : List Argument) (bindings : Bindings),
      Within rests.start.grounded.references list →
        Evidence.bindRemaining after.store parameters list bindings =
          Evidence.bindRemaining before.store parameters list bindings := by
    induction parameters with
    | nil => exact fun _ _ _ => rfl
    | cons parameter rest inductionHypothesis =>
      intro list bindings listed
      cases list with
      | nil =>
        rw [Evidence.bindRemaining, Evidence.bindRemaining, inductionHypothesis [] bindings listed]
      | cons argument others =>
        rw [Evidence.bindRemaining, Evidence.bindRemaining, inductionHypothesis _ bindings listed]
        rw [within_cons] at listed
        dsimp only
        rw [rests.typeOf listed.1.1, inductionHypothesis others _ listed.2]
  have first : Within rests.start.grounded.references
      ({ bindings := .identity parameters } : Evidence) :=
    ⟨within_identity parameters, within_nil, within_nil⟩
  have unused : Within rests.start.grounded.references
      (arguments.list.foldl (Evidence.takeArgument before.store template)
        { bindings := .identity parameters }).unused :=
    (Refers.Within.foldl first fun _ argument listed before =>
      within_takeArgument before (given argument listed)).2.2
  simp only [Evidence.ofArguments, taken arguments.list given _ first,
    remaining parameters _ _ unused]

end Samples

end RestsTo

end Progress

end TypeInference
