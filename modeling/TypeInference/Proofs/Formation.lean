import TypeInference.Proofs.Evidence
import TypeInference.Proofs.Grounding
import TypeInference.Proofs.Isolation
import TypeInference.Proofs.Termination

/-!
# Analyses move from store to store

Evaluations of functions and specializations of classes keep progress grounded, at any depth. So
the analysis of a module does, and those of several modules one after the other. Whatever comes
of them, they lead from the registered classes by moves to the store that is left, and so every
store on the way is well formed.
-/

namespace TypeInference

open Analysis

variable {Index : Type} {environment : Environment} {before : Progress} {engines : Index → Engine}

/-- Engines that keep progress grounded. -/
def Engine.AreGrounded (engines : Index → Engine) : Prop :=
  ∀ known, (Judgement.grounding Index).Follows engines known

/-- Engines that keep progress grounded substitute what is there. -/
theorem Engine.AreGrounded.substitutes (follows : AreGrounded engines) {known : References}
    {bindings : Bindings} (bound : Within known bindings) :
    (Judgement.grounding Index).Substitutes engines known bindings where
  within := bound
  substituteClass {second} passed {_} isKnown :=
    @substituteClass_holds (.grounding Index) _ second _ (Refers.widen passed _ bound)
      (fun {third} _ {_ _} isKnown given => (follows third).specialize isKnown given) _ isKnown

/-- Any function may be evaluated. -/
theorem Logic.permitsFunction_grounding (known : References) (definition : FunctionDefinition) :
    (Logic.grounding Index).PermitsFunction known definition :=
  ⟨fun _ _ _ _ => trivial, fun _ _ _ _ => trivial,
    Statement.BlockPermitted.of_opens (fun _ _ => trivial) (fun _ _ => trivial)
      fun _ _ _ _ => trivial⟩

/-- Discovered types without markers bring in no markers. -/
theorem Engine.unmarked_addDiscovered (store : Store) {discovered : List Ty}
    (found : ∀ ty ∈ discovered, ty.asMarker? = none) : ∀ {bases : List Ty},
      (∀ base ∈ bases, base.asMarker? = none) →
        ∀ base ∈ discovered.foldl (addDiscovered store) bases, base.asMarker? = none := by
  induction discovered with
  | nil => exact id
  | cons ty rest inductionHypothesis =>
    intro bases unmarked
    rw [List.forall_mem_cons] at found
    refine inductionHypothesis found.2 ?_
    unfold addDiscovered
    split
    · exact unmarked
    · exact List.forall_mem_append.mpr ⟨unmarked, List.forall_mem_singleton.mpr found.1⟩

/-- The analysis of a module by an engine, with at most so many declared functions. -/
def Analysis.ofModuleBy (engine : Engine) (bound : Nat) (module : Module) :
    Analysis (List Variable) :=
  inScope .module .module none fun id => do
    declareAttributes moduleAttributes
    engine.walkBlock .module module.body
    evaluateDeclared engine bound 0
    return globalsOf (← scopes) id

/-- The placeholder of a specialization that begins has no members. -/
theorem Store.members_begin (store : Store) (template : ClassId) (bindings : Bindings) :
    ((store.begin template bindings).classAt store.nextClass).members = {} := by
  let record := Engine.placeholderRecord store template bindings
  have created : (store.addClass record).2.HasClass store.nextClass :=
    (hasClass_addClass ..).mpr (.inr rfl)
  have same : (store.addClass record).2.SameMembers (store.begin template bindings) :=
    sameMembers_modifyClass _ template fun _ => rfl
  rw [same _ created, classAt_addClass_eq, if_pos rfl]
  rfl

namespace Progress.Grounded

/-- An analyzer begins with grounded progress. -/
theorem initial (options : Options) : Progress.Grounded ⟨Registry.standard.registry, options⟩
    { store := Registry.standard.store } where
  builtin := Registry.references.builtin
  tidy := by
    dsimp only
    exact Registry.tidy_standard
  distinct := by
    dsimp only
    exact Registry.nodup_members_standard
  registered := Registry.within_registry_standard
  stored := by
    dsimp only
    exact Registry.within_store_standard
  visible _ := within_nil
  classes := within_nil
  functions _ impossible := nomatch impossible

/-- So does another one that goes on with the store. -/
theorem renew {registry : Registry} {options : Options} {progress : Progress}
    (grounded : progress.Grounded ⟨registry, options⟩) (others : Options) :
    Progress.Grounded ⟨registry, others⟩ { store := progress.store } where
  builtin := grounded.builtin
  tidy := grounded.tidy
  distinct := grounded.distinct
  registered := grounded.registered
  stored := grounded.stored
  visible _ := within_nil
  classes := within_nil
  functions _ impossible := nomatch impossible

/-- A specialization is drafted from its template and begun. -/
theorem begin (grounded : before.Grounded environment) {template : ClassId}
    (present : before.store.HasClass template)
    (original : (before.store.classAt template).template = none) {bindings : Bindings}
    (given : Within grounded.references bindings) :
    before.Reaches environment none
        { before with store := before.store.begin template bindings } ∧
      Progress.Grounded environment
        { before with store := before.store.begin template bindings } ∧
      (before.store.begin template bindings).DraftedFrom template
        (before.store.signature bindings) before.store.nextClass := by
  let record := Engine.placeholderRecord before.store template bindings
  let drafted := (before.store.addClass record).2
  have bound : ∀ ty ∈ bindings.types, before.store.HasType ty := fun ty listed =>
    Store.hasType_of_within (fun _ => id) (given ty listed)
  have draft : Store.Move before.store drafted := .draft before.store present original bound
  have created : drafted.DraftedFrom template (before.store.signature bindings)
      before.store.nextClass := by
    refine ⟨(Store.hasClass_addClass ..).mpr (.inr rfl), ?_, ?_⟩
    · rw [Store.classAt_addClass_eq, if_pos rfl]
      rfl
    · rw [Store.classAt_addClass_eq, if_pos rfl]
      exact draft.signature bound
  obtain ⟨first, groundedDraft⟩ := grounded.movesWithin none draft
    (before.store.sameMembers_addClass record)
    (within_addClass grounded.stored (within_placeholderRecord before.store present given))
  have begin : Store.Move drafted (before.store.begin template bindings) := .begin drafted created
  obtain ⟨second, begun⟩ := groundedDraft.movesWithin none begin
    (drafted.sameMembers_modifyClass template fun _ => rfl)
    (within_beginSpecialization groundedDraft.stored template _ created.present)
  exact ⟨first.trans second, begun, begin.draftedFrom (draft.tidy grounded.tidy) created⟩

end Progress.Grounded

namespace Grounds

theorem changeOverload (grounded : before.Grounded environment) (id : OverloadId)
    {change : Overload → Overload}
    (within : ∀ overload, Within grounded.references overload →
      Within grounded.references (change overload)) :
    Grounds environment none before fun _ : Index => Engine.changeOverload id change :=
  modifyStore (grounded.movesWithin none (.changeFunction _ id.function fun _ => ⟨rfl, rfl, rfl⟩)
    (fun _ _ => rfl) (within_modifyOverload grounded.stored id within))

/-- The state of an overload can be set. -/
theorem setState (grounded : before.Grounded environment) (id : OverloadId)
    (state : OverloadState) : Grounds environment none before fun _ : Index =>
      Engine.changeOverload id fun overload => { overload with state } :=
  changeOverload grounded id fun _ within => within

section Evaluations

variable (follows : Engine.AreGrounded engines)

include follows

theorem evaluateInside (grounded : before.Grounded environment) (id : OverloadId)
    (definition : FunctionDefinition) (scope : ScopeId) :
    Grounds environment none before fun index =>
      (engines index).evaluateInside id definition scope := by
  simp only [Engine.evaluateInside_eq_contents]
  refine bind (Engine.evaluateContents_holds (follows grounded.references) id
    (Logic.permitsFunction_grounding _ definition) environment before grounded
      fun _ isKnown => isKnown) ?_
  intro _ middle grounded _ _
  have setEvaluated {progress : Progress} (grounded : progress.Grounded environment) :=
    @setState Index _ _ grounded id .evaluated
  by_cases discards : environment.options.discardsLocals = true
  · have cleared : Progress.Grounded environment
        { middle with scopes := middle.scopes.clearVariables scope } :=
      grounded.changeScopes (within_modifyScope grounded.visible scope fun _ _ => within_nil)
    refine (setEvaluated cleared).of_step (fun _ => ?_)
      (.perform (.clearVariables scope) cleared fun _ _ => discards)
    simp only [bind_apply, options_apply, if_pos discards]
    rfl
  · refine (setEvaluated grounded).of_step (fun _ => ?_) (.refl _)
    simp only [bind_apply, options_apply, if_neg discards]

theorem evaluateOverload (grounded : before.Grounded environment) (id : OverloadId)
    (entry : FunctionEntry) :
    Grounds environment none before fun index => (engines index).evaluateOverload id entry :=
  (setState grounded id _).bind fun _ _ grounded _ _ =>
    inScope grounded _ _ _ fun scope _ grounded _ =>
      evaluateInside follows grounded id entry.definition scope

/-- The overloads that wait are evaluated one after the other. -/
theorem evaluatePending (function : FunctionId) (node : NodeId) (places : List Nat) :
    ∀ {before : Progress}, before.Grounded environment → Grounds environment none before
      fun index => (engines index).evaluatePending function node places := by
  induction places with
  | nil => exact fun grounded => .pure grounded trivial
  | cons place rest inductionHypothesis =>
    intro before grounded
    by_cases pending : (before.store.overloadAt ⟨function, place⟩).state = .pending
    · cases declared : before.symbols.function? node with
      | none =>
        have failed (index : Index) : (engines index).evaluatePending function node
            (place :: rest) environment before =
              .error (.fault (.unknownDefinition node)) before := by
          simp only [Engine.evaluatePending, bind_apply, get_apply, if_pos pending, declared]
          rfl
        exact .failed failed (.refl _) grounded
      | some entry =>
        refine of_step ((evaluateOverload follows grounded ⟨function, place⟩ entry).bind
          fun _ _ grounded _ _ => inductionHypothesis grounded) (fun index => ?_) (.refl _)
        simp only [Engine.evaluatePending, bind_apply, get_apply, if_pos pending, declared]
    · refine of_step (inductionHypothesis grounded) (fun index => ?_) (.refl _)
      simp only [Engine.evaluatePending, bind_apply, get_apply, if_neg pending]

theorem evaluateDefinition (grounded : before.Grounded environment) (function : FunctionId) :
    Grounds environment none before fun index => (engines index).evaluateDefinition function := by
  cases definedBy : (before.store.functionAt function).node with
  | none =>
    exact .returned (fun _ => Engine.evaluateDefinition_of_undefined definedBy) (.refl _)
      grounded trivial
  | some node =>
    refine of_step (evaluatePending follows function node
      (List.range (before.store.functionAt function).overloads.length) grounded)
      (fun index => ?_) (.refl _)
    simp only [Engine.evaluateDefinition, bind_apply, store_apply, definedBy]

end Evaluations

section Specializations

variable {template : ClassId} {evidence : Evidence}

/-- Members are copied onto a placeholder, each of them once: what is specialized for one of them
leaves the placeholder alone, and so it has none of the names that are left. The induction is on
the copied members. -/
theorem copyMembers (follows : Engine.AreGrounded engines) {placeholder : ClassId}
    {bindings : Bindings} (members : List (String × Value)) :
    ∀ {before : Progress} (grounded : before.Grounded environment),
      before.store.HasClass placeholder → (before.store.classAt placeholder).template ≠ none →
      Within grounded.references bindings → Within grounded.references members →
      (members.map (·.1)).Nodup →
      (∀ name ∈ members.map (·.1), name ∉ Engine.structuralMembers ∧
        name ∉ (before.store.classAt placeholder).members.keys) →
      Grounds environment (some placeholder) before fun index =>
        (engines index).copyMembers bindings placeholder members := by
  induction members with
  | nil => exact fun grounded _ _ _ _ _ _ => .pure grounded trivial
  | cons member rest inductionHypothesis =>
    obtain ⟨name, value⟩ := member
    intro before grounded present specialized bound given distinct new
    rw [within_cons] at given
    rw [List.map_cons, List.nodup_cons] at distinct
    have substituted : Grounds environment none before fun index =>
        (engines index).substitute bindings value :=
      Engine.substitute_holds (follows.substitutes bound) given.1.2 environment before
        grounded fun _ => id
    refine substituted.bind_making fun replaced middle groundedMiddle leads within => ?_
    have stillPresent := leads.store.hasClass present
    have stillSpecialized : (middle.store.classAt placeholder).template ≠ none :=
      leads.store.template present ▸ specialized
    have untouched : (middle.store.classAt placeholder).members =
        (before.store.classAt placeholder).members :=
      leads.spared placeholder nofun present specialized
    have absent : middle.store.ownMember? placeholder name = none := by
      refine Option.not_isSome_iff_eq_none.mp fun found => ?_
      have listed := (OrderedTable.contains_iff_mem_keys _ _).mp found
      exact (new name List.mem_cons_self).2 (untouched ▸ listed)
    obtain ⟨further, groundedAfter⟩ := groundedMiddle.setsMember (some placeholder)
      (fun _ => (new name List.mem_cons_self).1)
      (fun _ _ _ found => nomatch absent.symm.trans found) (fun _ => rfl) within
    refine of_step (inductionHypothesis groundedAfter ?_ ?_ ?_ ?_ distinct.2 ?_)
      (fun _ => rfl) further
    · exact further.store.hasClass stillPresent
    · exact further.store.template stillPresent ▸ stillSpecialized
    · exact Refers.widen (leads.store.trans further.store).has _ bound
    · exact Refers.widen (leads.store.trans further.store).has _ given.2
    · intro other listed
      refine ⟨(new other (List.mem_cons_of_mem _ listed)).1, ?_⟩
      dsimp only
      rw [Store.classAt_addMember, if_pos ⟨rfl, stillPresent⟩, MemberTable.keys_insert, untouched]
      have apart := (new other (List.mem_cons_of_mem _ listed)).2
      split
      · exact apart
      · intro among
        rcases List.mem_append.mp among with before | last
        · exact apart before
        · exact distinct.1 (List.mem_singleton.mp last ▸ listed)

/-- A placeholder gets its bases and members. -/
theorem materialize (follows : Engine.AreGrounded engines) (grounded : before.Grounded environment)
    (template : ClassId) {placeholder : ClassId} (present : before.store.HasClass placeholder)
    (specialized : (before.store.classAt placeholder).template ≠ none)
    (unnamed : (before.store.classAt placeholder).members = {})
    (given : Within grounded.references evidence)
    (unmarked : ∀ base ∈ evidence.bases, base.asMarker? = none) :
    Grounds environment (some placeholder) before fun index =>
      (engines index).materialize template placeholder evidence := by
  let derive (index : Index) (bases : List Ty) : Analysis Unit := do
    Analysis.modifyStore fun store =>
      store.setBases placeholder (evidence.bases.foldl (Engine.addDiscovered store) bases)
    let members := (← store).classAt template |>.members.entries
    (engines index).copyMembers evidence.bindings placeholder
      (members.filter fun member => !Engine.structuralMembers.contains member.1)
  have unmarkedFirst (index : Index) :
      (engines index).materialize template placeholder evidence environment before =
        ((engines index).substituteBases evidence.bindings (before.store.classAt template).bases
          >>= fun found => derive index (found.filter fun base => base.asMarker?.isNone))
            environment before := by
    rw [← Engine.substituteBases_bind]
    rfl
  refine of_step ?_ unmarkedFirst (.refl _)
  have based : Grounds environment none before fun index =>
      (engines index).substituteBases evidence.bindings (before.store.classAt template).bases :=
    Engine.substituteBases_holds (follows.substitutes given.1)
      (grounded.stored.1 template).bases environment before grounded fun _ => id
  refine based.bind_making fun bases middle groundedMiddle leads within => ?_
  have discovered : Within groundedMiddle.references evidence :=
    Refers.widen leads.store.has _ given
  let ordered := middle.store.setBases placeholder (evidence.bases.foldl
    (Engine.addDiscovered middle.store) (bases.filter fun base => base.asMarker?.isNone))
  have same : middle.store.SameMembers ordered :=
    middle.store.sameMembers_modifyClass placeholder fun _ => rfl
  obtain ⟨further, groundedAfter⟩ := groundedMiddle.movesWithin (some placeholder)
    (.setBases middle.store fun _ => Engine.unmarked_addDiscovered middle.store unmarked
      fun base listed => Option.isNone_iff_eq_none.mp (List.mem_filter.mp listed).2) same
    (within_setBases groundedMiddle.stored placeholder
      (Refers.Within.foldl (fun base listed => within base (List.mem_filter.mp listed).1)
        fun found ty listed before => within_addDiscovered before (discovered.2.1 ty listed)))
  have onward := leads.store.trans further.store
  have empty : (ordered.classAt placeholder).members = {} := by
    rw [same _ (leads.store.hasClass present), leads.spared placeholder nofun present specialized,
      unnamed]
  refine of_step (copyMembers follows _ groundedAfter (onward.hasClass present) ?_
    (Refers.widen onward.has _ given.1) ?_ ?_ ?_) (fun _ => rfl) further
  · exact onward.template present ▸ specialized
  · rintro ⟨name, value⟩ listed
    exact ⟨trivial, (groundedAfter.stored.1 template).members value
      (List.mem_map_of_mem (List.mem_filter.mp listed).1)⟩
  · exact (groundedAfter.distinct template).sublist (List.filter_sublist.map _)
  · intro name listed
    refine ⟨((Engine.mem_properMembers _ name).mp listed).2, ?_⟩
    dsimp only
    rw [empty]
    exact List.not_mem_nil

/-- A specialization is made, and ended in any case. -/
theorem makeSpecialization (follows : Engine.AreGrounded engines)
    (grounded : before.Grounded environment) (present : before.store.HasClass template)
    (original : (before.store.classAt template).template = none)
    (given : Within grounded.references evidence)
    (unmarked : ∀ base ∈ evidence.bases, base.asMarker? = none) :
    Grounds environment none before fun index =>
      (engines index).makeSpecialization template evidence := by
  obtain ⟨leads, begun, drafted⟩ := grounded.begin present original given.1
  have ending (after : Progress) (grounded : after.Grounded environment) :=
    grounded.movesWithin (some before.store.nextClass) (.endLast after.store template)
      (after.store.sameMembers_modifyClass template fun _ => rfl)
      (within_endSpecialization grounded.stored template)
  have specialized : ((before.store.begin template evidence.bindings).classAt
      before.store.nextClass).template ≠ none := by
    rw [drafted.made]
    exact Option.some_ne_none template
  have made := (materialize follows begun template drafted.present specialized
    (before.store.members_begin template evidence.bindings)
    (Refers.widen leads.store.has _ given) unmarked).withCleanup ending
  refine (made.bind fun _ after grounded further _ => ?_).made (fun _ => rfl) leads
    before.store.not_hasClass_nextClass
  have drafted := further.store.draftedFrom begun.tidy drafted
  obtain ⟨finished, groundedLast⟩ := grounded.movesWithin (some before.store.nextClass)
    (.finish after.store drafted) (after.store.sameMembers_modifyClass template fun _ => rfl)
    (within_storeSpecialization grounded.stored template _ drafted.present)
  have answer := (OrderedTable.within_find? (grounded.stored.1 template).finished
    (before.store.signature evidence.bindings)).getD drafted.present
  exact .returned (fun _ => rfl) finished groundedLast (Refers.widen finished.store.has _ answer)

/-- A request is answered once the constructor was evaluated. -/
theorem specializeConstructed (follows : Engine.AreGrounded engines)
    (grounded : before.Grounded environment) {id : ClassId} (present : before.store.HasClass id)
    (original : (before.store.classAt id).template = none) {arguments : Arguments}
    (given : Within grounded.references arguments) :
    Grounds environment none before fun index =>
      (engines index).specializeConstructed id arguments := by
  have answered {answer : ClassId} (there : before.store.HasClass answer) :
      Grounds environment none before fun _ : Index => (Pure.pure answer : Analysis ClassId) :=
    .pure grounded there
  refine of_step ?_ (fun index => (engines index).specializeConstructed_apply id arguments
    environment before) (.refl _)
  by_cases unresolved : (before.store.typeParameters id).all
      (before.store.evidenceOf id arguments).bindings.isUnresolved = true
  · simpa only [if_pos unresolved] using answered present
  · simp only [if_neg unresolved]
    cases cached : (before.store.classAt id).specializations.find?
        (before.store.signatureOf id arguments) with
    | some finished =>
      exact answered (OrderedTable.within_find? (grounded.stored.1 id).finished _ finished
        cached)
    | none =>
      dsimp only
      cases idle : Engine.unfinished? before.store id
          (before.store.signatureOf id arguments) with
      | some placeholder =>
        obtain ⟨entry, listed, rfl⟩ := Option.map_eq_some_iff.mp idle
        exact answered ((grounded.stored.1 id).placeholders _
          (List.mem_map_of_mem (List.mem_of_find?_eq_some listed)))
      | none =>
        exact makeSpecialization follows grounded present original
          (within_ofArguments _ given) (Evidence.unmarked_ofArguments _ _ _ _)

/-- A class is specialized, for a specialization its template. -/
theorem specializeClass (follows : Engine.AreGrounded engines)
    (grounded : before.Grounded environment) {id : ClassId} (present : before.store.HasClass id)
    {arguments : Arguments} (given : Within grounded.references arguments) :
    Grounds environment none before fun index => (engines index).specializeClass id arguments := by
  cases made : (before.store.classAt id).template with
  | some template =>
    have known : grounded.references.Has (.cls template) :=
      (grounded.stored.1 id).template template made
    refine of_step ((follows grounded.references).specialize known given environment before
      grounded fun _ isKnown => isKnown) (fun index => ?_) (.refl _)
    exact Engine.specializeClass_of_template (engines index) arguments environment made
  | none =>
    have constructed := (Engine.ensureConstructed_holds (follows grounded.references) id)
      environment before grounded fun _ isKnown => isKnown
    have answered := constructed.bind fun _ after grounded leads _ =>
      specializeConstructed follows grounded (leads.store.hasClass present)
        ((leads.store.template present).trans made) (Refers.widen leads.store.has _ given)
    refine of_step answered (fun index => ?_) (.refl _)
    exact Engine.specializeClass_of_original (engines index) arguments environment made

end Specializations

/-- The declared functions are evaluated from a place on. -/
theorem evaluateDeclared (follows : Engine.AreGrounded engines) (bound : Nat) :
    ∀ (place : Nat) {before : Progress}, before.Grounded environment → Grounds environment none before
      fun index => Analysis.evaluateDeclared (engines index) bound place := by
  induction bound with
  | zero => exact fun _ _ grounded => .failed (fun _ => rfl) (.refl _) grounded
  | succ bound inductionHypothesis =>
    intro place before grounded
    cases found : before.symbols.functionAt? place with
    | none =>
      have nothing (index : Index) : Analysis.evaluateDeclared (engines index) (bound + 1) place
          environment before = .ok () before := by
        rw [Analysis.evaluateDeclared_succ, found]
        rfl
      exact .returned nothing (.refl _) grounded trivial
    | some entry =>
      have present := grounded.functions entry
        (Array.mem_toList_iff.mpr (Array.mem_of_getElem? found))
      have evaluated := (follows grounded.references).evaluateFunction present environment before
        grounded fun _ isKnown => isKnown
      refine of_step (evaluated.bind fun _ after grounded _ _ =>
        inductionHypothesis (place + 1) grounded) (fun index => ?_) (.refl _)
      rw [Analysis.evaluateDeclared_succ, found]

/-- A module is analyzed. -/
theorem ofModuleBy (follows : Engine.AreGrounded engines) (grounded : before.Grounded environment)
    (bound : Nat) (module : Module) :
    Grounds environment none before fun index =>
      Analysis.ofModuleBy (engines index) bound module := by
  refine inScope grounded _ _ _ fun scope opened grounded _ => ?_
  have attributes : (Logic.grounding Index).Holds grounded.references fun _ =>
      declareAttributes moduleAttributes := declareAttributes_holds moduleAttributes
  refine (attributes environment opened grounded fun _ isKnown => isKnown).bind ?_
  intro _ middle grounded _ _
  have walked : (Logic.grounding Index).Holds grounded.references fun index =>
      (engines index).walkBlock .module module.body :=
    Engine.walkBlock_holds (follows _) within_module (Statement.BlockPermitted.of_opens
      (fun _ _ => trivial) (fun _ _ => trivial) fun _ _ _ _ => trivial)
  refine (walked environment middle grounded fun _ isKnown => isKnown).bind ?_
  intro _ ending grounded _ _
  refine (evaluateDeclared follows bound 0 grounded).bind ?_
  intro _ last grounded _ _
  exact .returned (fun _ => rfl) (.refl _) grounded fun declared among =>
    grounded.visible _ declared (List.mem_filter.mp among).1

end Grounds

/-- Engines of any depth keep progress grounded if those do that go one deeper. The induction is on
the depth. -/
theorem Engine.areGrounded_of_deeper {engines : Nat → Index → Engine}
    (shallow : ∀ index, engines 0 index = .exhausted)
    (evaluates : ∀ (depth : Nat) {environment : Environment} {before : Progress}
      (function : FunctionId), before.Grounded environment →
        (Grounds environment none before fun index =>
          evaluateDefinition (engines depth index) function) →
        Grounds environment none before fun index =>
          (engines (depth + 1) index).evaluateFunction function)
    (specializes : ∀ (depth : Nat) {environment : Environment} {before : Progress}
      (id : ClassId) (arguments : Arguments), before.Grounded environment →
        (Grounds environment none before fun index =>
          specializeClass (engines depth index) id arguments) →
        Grounds environment none before fun index =>
          (engines (depth + 1) index).specialize id arguments)
    (depth : Nat) : AreGrounded (engines depth) := by
  induction depth with
  | zero =>
    refine fun known => ⟨?_, ?_⟩
    · intro second _ function _ environment before grounded _
      have failed (index : Index) : (engines 0 index).evaluateFunction function environment
          before = .error .tooDeep before := by
        rw [shallow]
        rfl
      exact .failed failed (.refl _) grounded
    · intro second _ id arguments _ _ environment before grounded _
      have failed (index : Index) : (engines 0 index).specialize id arguments environment
          before = .error .tooDeep before := by
        rw [shallow]
        rfl
      exact .failed failed (.refl _) grounded
  | succ depth inductionHypothesis =>
    refine fun known => ⟨?_, ?_⟩
    · intro second _ function _ environment before grounded _
      exact evaluates depth function grounded
        (.evaluateDefinition inductionHypothesis grounded function)
    · intro second _ id arguments isKnown given environment before grounded has
      exact specializes depth id arguments grounded
        (.specializeClass inductionHypothesis grounded (has _ isKnown) (Refers.widen has _ given))

section Inspections

/-- Goes on only where the specializations of the store are well formed. -/
def Analysis.inspect : Analysis Unit := do
  if (← store).WellFormed then return
  else throw (.fault (.registry "specializations are ill formed"))

/-- An analysis with a look at the store before and after it. -/
def Analysis.inspected {α : Type} (analysis : Analysis α) : Analysis α := do
  inspect
  let result ← analysis
  inspect
  return result

/-- The engine of a depth, with a look at the store before and after everything that is asked
of it and of the engines of lesser depths. -/
def Engine.inspectedAtDepth : Nat → Engine
  | 0 => .exhausted
  | depth + 1 =>
    { evaluateFunction := fun function =>
        inspected (evaluateDefinition (inspectedAtDepth depth) function)
      specialize := fun id arguments =>
        inspected (specializeClass (inspectedAtDepth depth) id arguments) }

/-- The engine of a depth, with and without looks at the store. -/
def Engine.inspectedIf (depth : Nat) (looks : Bool) : Engine :=
  if looks then inspectedAtDepth depth else atDepth depth

theorem Analysis.inspect_apply (grounded : before.Grounded environment) :
    inspect environment before = .ok () before := by
  unfold inspect
  rw [bind_apply, store_apply]
  dsimp only
  rw [if_pos grounded.tidy.wellFormed]
  rfl

/-- Looking at grounded progress does not matter. -/
theorem Grounds.inspected {α : Type} [Refers α] {analyses asked : Bool → Analysis α}
    (grounded : before.Grounded environment) (asks : Grounds environment none before asked)
    (blind : analyses false = asked false)
    (looking : analyses true = Analysis.inspected (asked true)) :
    Grounds environment none before analyses := by
  cases asks with
  | @returned result after returned leads grounded' within =>
    refine .returned (fun looks => ?_) leads grounded' within
    cases looks with
    | false => exact blind ▸ returned false
    | true =>
      rw [looking, Analysis.inspected, bind_of_ok (inspect_apply grounded),
        bind_of_ok (returned true), bind_of_ok (inspect_apply grounded')]
      rfl
  | @failed failure left failed leads grounded' =>
    have same (looks : Bool) : analyses looks environment before = .error failure left := by
      cases looks with
      | false => exact blind ▸ failed false
      | true =>
        rw [looking, Analysis.inspected, bind_of_ok (inspect_apply grounded),
          bind_of_error (failed true)]
    exact .failed same leads grounded'

/-- Engines of any depth keep progress grounded, and so looking at it never matters. -/
theorem Engine.areGrounded_inspectedIf (depth : Nat) : AreGrounded (inspectedIf depth) := by
  refine areGrounded_of_deeper (fun looks => ?_) (fun depth _ _ function grounded evaluated => ?_)
    (fun depth _ _ id arguments grounded specialized => ?_) depth
  · cases looks <;> rfl
  · exact .inspected grounded evaluated rfl rfl
  · exact .inspected grounded specialized rfl rfl

/-- The analysis of a module keeps progress grounded, whatever comes of it. -/
theorem Progress.Grounded.after_ofModuleWithin (grounded : before.Grounded environment)
    (depth : Nat) (module : Module) :
    before.Reaches environment none ((Analysis.ofModuleWithin depth module).after environment before) ∧
      ((Analysis.ofModuleWithin depth module).after environment before).Grounded environment :=
  (Grounds.ofModuleBy (Engine.areGrounded_inspectedIf depth) grounded depth module).after false

end Inspections

namespace Analyzer

/-- The store that is left when modules were analyzed one after the other, each by an analyzer of
its own with options of its own, whatever came of that. -/
def storeAfterAll (runs : List (Options × Module)) : Store :=
  runs.foldl (fun store run => (analyze { new run.1 with store } run.2).2.store)
    Registry.standard.store

/-- An analyzer that goes on with this store. -/
def newAfter (runs : List (Options × Module)) (options : Options) : Analyzer :=
  { new options with store := storeAfterAll runs }

/-- The analysis of one more module. -/
theorem storeAfterAll_append (runs : List (Options × Module)) (options : Options)
    (module : Module) : storeAfterAll (runs ++ [(options, module)]) =
      ((newAfter runs options).analyze module).2.store := by
  rw [storeAfterAll, List.foldl_append]
  rfl

/-- Analyses lead from the registered classes to the store that they leave, and the next one
begins with grounded progress. The induction is on the modules, from the last one. -/
theorem leadsTo_storeAfterAll (runs : List (Options × Module)) :
    Registry.standard.store.LeadsTo (storeAfterAll runs) ∧ ∀ options,
      Progress.Grounded ⟨Registry.standard.registry, options⟩ { store := storeAfterAll runs } := by
  induction runs using List.reverseRecOn with
  | nil => exact ⟨.refl _, Progress.Grounded.initial⟩
  | append_singleton runs run inductionHypothesis =>
    obtain ⟨options, module⟩ := run
    obtain ⟨earlier, grounded⟩ := inductionHypothesis
    have analyzed := (grounded options).after_ofModuleWithin Engine.depthLimit module
    rw [storeAfterAll_append, store_analyze]
    exact ⟨earlier.trans analyzed.1.store, analyzed.2.renew⟩

/-- Lists of one module that are looked at after it. -/
example :
    let store := storeAfterAll [({}, listing (.int 1) [])]
    (store.classAt (Store.builtinClass .list)).specializations.size = 1 ∧ store.WellFormed := by
  decide +kernel

end Analyzer

end TypeInference
