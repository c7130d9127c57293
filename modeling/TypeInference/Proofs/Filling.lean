import TypeInference.Proofs.Repeating

/-!
# What the parameters of a template are filled with

Types that are given for the parameters of a template are taken in turn by those that are still
open, whether the parameters differ or not. So if there are enough types, none of them unknown,
every parameter is found with one of these, before chains are followed and after that. If one of
the types is no parameter, then something is resolved in the end, and the template answers with a
specialization. In this one, parameters are found with types that have the identities of types
that were given.
-/

namespace TypeInference

open Analysis Store

namespace Bindings

/-- Parameters that are bound to themselves are open. -/
theorem isUnresolved_identity (parameters : List TypeParameter) (asked : TypeParameter) :
    (identity parameters).isUnresolved asked = true := by
  refine isUnresolved_iff.mpr fun ty found => ?_
  obtain ⟨key, listed, same⟩ := mem_entries_of_find? found
  obtain ⟨_, -, entry⟩ := List.mem_map.mp listed
  cases entry
  exact ⟨key, rfl, same⟩

end Bindings

namespace Evidence

variable {store : Store}

/-- A parameter that is open takes one of the types that are given, if there are enough. -/
theorem find?_bindRemaining_ofTypes {asked : TypeParameter} :
    ∀ {parameters : List TypeParameter} {types : List Ty} {bindings : Bindings},
      parameters.length ≤ types.length → (∀ ty ∈ types, ty.isUnknown = false) →
        asked.hash ∈ parameters.map TypeParameter.hash → bindings.isUnresolved asked = true →
          ∃ ty ∈ types,
            (bindRemaining store parameters (unboundTypes types) bindings).find? asked =
              some ty := by
  intro parameters
  induction parameters with
  | nil => exact fun _ _ listed => nomatch listed
  | cons parameter rest inductionHypothesis =>
    intro types bindings enough known listed unresolved
    unfold bindRemaining
    split
    · cases types with
      | nil => cases enough
      | cons ty others =>
        obtain ⟨isKnown, known⟩ := List.forall_mem_cons.mp known
        have enough := Nat.le_of_succ_le_succ enough
        simp only [unboundTypes, List.map_cons, Argument.unbound, typeOf_ofType, isKnown,
          Bool.false_eq_true, if_false]
        by_cases again : asked.hash ∈ rest.map TypeParameter.hash ∧
            (bindings.bind parameter ty).isUnresolved asked = true
        · obtain ⟨other, among, found⟩ := inductionHypothesis enough known again.1 again.2
          exact ⟨other, List.mem_cons_of_mem _ among, found⟩
        · -- The parameter has been bound just now, and keeps its type.
          have bound : (bindings.bind parameter ty).find? asked = some ty := by
            rw [Bindings.find?_bind]
            split
            · rfl
            · next apart =>
              have later := (List.mem_cons.mp listed).resolve_left (Ne.symm apart)
              have same : (bindings.bind parameter ty).find? asked = bindings.find? asked := by
                rw [Bindings.find?_bind, if_neg apart]
              refine absurd ⟨later, ?_⟩ again
              rw [Bindings.isUnresolved, same]
              exact unresolved
          have kept := (not_and_or.mp again).imp_right Bool.eq_false_iff.mpr
          exact ⟨ty, List.mem_cons_self, (find?_bindRemaining_of_kept kept).trans bound⟩
    · next resolved =>
      have apart : asked.hash ≠ parameter.hash := fun same =>
        resolved (Bindings.isUnresolved_congr same ▸ unresolved)
      exact inductionHypothesis (Nat.le_of_succ_le enough) known
        ((List.mem_cons.mp listed).resolve_left apart) unresolved

/-- If nothing is resolved by types that are no more than the parameters, these are parameters. -/
theorem asParameter?_of_unresolved : ∀ {parameters : List TypeParameter} {types : List Ty}
    {bindings : Bindings}, types.length ≤ parameters.length →
      (∀ ty ∈ types, ty.isUnknown = false) →
        (∀ parameter ∈ parameters,
          (bindRemaining store parameters (unboundTypes types) bindings).isUnresolved parameter =
            true) → ∀ ty ∈ types, ty.asParameter?.isSome = true := by
  intro parameters
  induction parameters with
  | nil =>
    intro types _ few _ _ ty listed
    rw [List.length_eq_zero_iff.mp (Nat.le_zero.mp few)] at listed
    cases listed
  | cons parameter rest inductionHypothesis =>
    intro types bindings few known unresolved
    cases types with
    | nil => exact fun _ listed => nomatch listed
    | cons ty others =>
      obtain ⟨isKnown, known⟩ := List.forall_mem_cons.mp known
      have open_ : bindings.isUnresolved parameter = true := by
        by_contra resolved
        have after := unresolved parameter List.mem_cons_self
        rw [Bindings.isUnresolved,
          find?_bindRemaining_of_kept (.inr (Bool.eq_false_iff.mpr resolved))] at after
        exact resolved after
      unfold bindRemaining at unresolved
      simp only [unboundTypes, List.map_cons, Argument.unbound, typeOf_ofType, isKnown,
        Bool.false_eq_true, if_false, if_pos open_] at unresolved
      have bound : (bindings.bind parameter ty).find? parameter = some ty := by
        rw [Bindings.find?_bind, if_pos rfl]
      obtain ⟨own, more⟩ := List.forall_mem_cons.mp unresolved
      refine List.forall_mem_cons.mpr ⟨?_, inductionHypothesis (Nat.le_of_succ_le_succ few) known
        more⟩
      by_contra concrete
      have resolved : (bindings.bind parameter ty).isUnresolved parameter = false := by
        refine Bool.eq_false_iff.mpr fun stays => concrete ?_
        obtain ⟨target, rfl, -⟩ := Bindings.isUnresolved_iff.mp stays ty bound
        rfl
      rw [Bindings.isUnresolved, find?_bindRemaining_of_kept (.inr resolved)] at own
      exact absurd own (Bool.eq_false_iff.mp resolved)

section OfTypes

variable {template : ClassId} (apart : store.typeHash (.cls template) ≠ .unknown)
  {parameters : List TypeParameter} {types : List Ty} (known : ∀ ty ∈ types, ty.isUnknown = false)
  (span : Span)

include apart known

/-- What is found is among the types, if there is one for each parameter. -/
theorem mem_of_find?_ofTypes (enough : parameters.length ≤ types.length) {asked : TypeParameter}
    {ty : Ty}
    (found : (ofArguments store template parameters (.ofTypes types span)).bindings.find? asked =
      some ty) : ty ∈ types := by
  rw [ofTypes_bindings apart] at found
  refine Bindings.followChains_induction (motive := fun followed =>
    ∀ {asked : TypeParameter} {ty : Ty}, followed.find? asked = some ty → ty ∈ types) ?_ ?_
      parameters found
  · intro followed parameter target reached _ _ _ bound among asked ty found
    rw [Bindings.find?_bind] at found
    split at found
    · exact Option.some.inj found ▸ among bound
    · exact among found
  · intro asked ty found
    have listed : asked.hash ∈ parameters.map TypeParameter.hash := by
      obtain ⟨key, among, same⟩ := Bindings.exists_key_of_find? found
      rw [keys_bindRemaining _ _ _ _ fun parameter own => (Bindings.keys_identity _).symm ▸ own,
        Bindings.keys_identity] at among
      exact List.mem_map.mpr ⟨key, among, same⟩
    obtain ⟨other, among, isOther⟩ := find?_bindRemaining_ofTypes enough known listed
      (Bindings.isUnresolved_identity parameters asked)
    cases found.symm.trans isOther
    exact among

/-- Something is resolved if one of the types is no parameter. -/
theorem not_all_unresolved_ofTypes (few : types.length ≤ parameters.length)
    (concrete : ∃ ty ∈ types, ty.asParameter? = none) :
    parameters.all
      (ofArguments store template parameters (.ofTypes types span)).bindings.isUnresolved =
        false := by
  have resolved : ∃ parameter ∈ parameters, (bindRemaining store parameters (unboundTypes types)
      (.identity parameters)).isUnresolved parameter = false := by
    by_contra none
    obtain ⟨ty, listed, isNone⟩ := concrete
    have unresolved : ∀ parameter ∈ parameters, (bindRemaining store parameters
        (unboundTypes types) (.identity parameters)).isUnresolved parameter = true :=
      fun parameter among => Bool.not_eq_false _ ▸ fun resolved => none ⟨parameter, among, resolved⟩
    have isParameter := asParameter?_of_unresolved few known unresolved ty listed
    rw [isNone] at isParameter
    cases isParameter
  obtain ⟨parameter, -, resolved⟩ := resolved
  obtain ⟨other, stays⟩ := Bindings.exists_resolved_followChains resolved parameters
  rw [← ofTypes_bindings apart] at stays
  obtain ⟨own, among, same⟩ := Bindings.exists_key_of_resolved stays
  rw [keys_ofArguments] at among
  refine List.all_eq_false.mpr ⟨own, among, ?_⟩
  rw [Bindings.isUnresolved_congr same, stays]
  exact Bool.false_ne_true

end OfTypes

end Evidence

namespace Engine

variable {environment : Environment} {before after : Progress} {template specialized : ClassId}
  {depth : Nat}

/-- At rest, a template for which something is resolved answers with what was drafted from it, now
or before, for what the arguments show. -/
theorem specialize_drafted (rest : before.AtRest environment)
    (present : before.store.HasClass template)
    (original : (before.store.classAt template).template = none) {arguments : Arguments}
    (given : Within rest.grounded.references arguments)
    (resolved : (before.store.typeParameters template).all
      (before.store.evidenceOf template arguments).bindings.isUnresolved = false)
    (returned : (Engine.atDepth depth).specialize template arguments environment before =
      .ok specialized after) :
    after.store.DraftedFrom template (after.store.signature
      (before.store.evidenceOf template arguments).bindings) specialized := by
  obtain ⟨rests, -⟩ := specialize_rests rest present given returned
  have bound : Within rest.grounded.references
      (before.store.evidenceOf template arguments).bindings := (within_ofArguments _ given).1
  rw [rests.signature bound]
  cases depth with
  | zero => cases returned
  | succ depth =>
    have request := returned
    change specializeClass (Engine.atDepth depth) template _ environment before = _ at returned
    rw [specializeClass_of_original _ _ environment original] at returned
    obtain ⟨_, middle, constructed, -⟩ := bind_eq_ok.mp returned
    cases ensureConstructed_stays rest constructed
    have asked := requested?_of_original original constructed resolved
    exact rests.rest.grounded.tidy.draftedFrom
      (specialize_answers (depth + 1) template _ environment asked request)

/-- A template is applied to known types, one for each parameter, which are not all parameters. The
answer was made from it, and if it has the parameters of the template, it has for each a type of
the identity of one that was given. -/
theorem specialize_fills (rest : before.AtRest environment)
    (present : before.store.HasClass template)
    (original : (before.store.classAt template).template = none)
    (apart : before.store.typeHash (.cls template) ≠ .unknown) {types : List Ty}
    (length : types.length = (before.store.typeParameters template).length)
    (known : ∀ ty ∈ types, ty.isUnknown = false) (concrete : ∃ ty ∈ types, ty.asParameter? = none)
    {span : Span} (given : Within rest.grounded.references (Arguments.ofTypes types span))
    (returned : (Engine.atDepth depth).specialize template (.ofTypes types span) environment
      before = .ok specialized after) :
    (after.store.classAt specialized).template = some template ∧
      ((after.store.classAt specialized).parameters.keys.map TypeParameter.hash =
          (before.store.typeParameters template).map TypeParameter.hash →
        ∀ {parameter : TypeParameter} {ty : Ty},
          (after.store.classAt specialized).parameters.find? parameter = some ty →
            ∃ other ∈ types, after.store.typeHash other = after.store.typeHash ty) := by
  have drafted := specialize_drafted rest present original given
    (Evidence.not_all_unresolved_ofTypes apart known span length.le concrete) returned
  refine ⟨drafted.made, fun keyed parameter ty found => ?_⟩
  have same := Bindings.map_find?_eq
    (keyed.trans (congrArg (List.map TypeParameter.hash) (Evidence.keys_ofArguments _ _ _ _).symm))
    (congrArg ResolvedSignature.hashes drafted.bound) parameter
  rw [found] at same
  obtain ⟨other, shown, equal⟩ := Option.map_eq_some_iff.mp same.symm
  exact ⟨other, Evidence.mem_of_find?_ofTypes apart known span length.ge shown, equal⟩

end Engine

end TypeInference
