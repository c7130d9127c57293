import TypeInference.Proofs.Evidence
import TypeInference.Proofs.Parameters

/-!
# Types given by position

Types that are given for the parameters of a template bind them by position, one to one. Then
chains are followed: a parameter that is bound to another one of the template gets what that one
is bound to, unless that is itself. So a type is where a chain ends if it is no parameter of the
template, or one that is bound to itself. A parameter that is given such a type keeps it; one that
is given another one does not, and with it a permutation of parameters is lost. In any case there
are no other types in the bindings than those that were given.
-/

namespace TypeInference

open TypeParameter

namespace Bindings

/-- Parameters that are bound to types in the order of both. -/
def positional (parameters : List TypeParameter) (types : List Ty) : Bindings :=
  ⟨parameters.zip types⟩

theorem keys_positional {parameters : List TypeParameter} {types : List Ty}
    (length : types.length = parameters.length) :
    (positional parameters types).keys = parameters :=
  List.map_fst_zip length.ge

theorem types_positional {parameters : List TypeParameter} {types : List Ty}
    (length : types.length = parameters.length) :
    (positional parameters types).types = types :=
  List.map_snd_zip length.le

/-- Chains lead to no types but those that are there. -/
theorem mem_types_followChains {bindings : Bindings} {parameters : List TypeParameter} {ty : Ty}
    (listed : ty ∈ (bindings.followChains parameters).types) : ty ∈ bindings.types := by
  refine followChains_induction (motive := fun followed =>
    ∀ ty ∈ followed.types, ty ∈ bindings.types) ?_ (fun _ => id) parameters ty listed
  intro followed parameter target bound found apart on reached within other among
  rcases mem_types_bind among with rfl | before
  · exact within _ (mem_types_of_find? reached)
  · exact within _ before

/-- A parameter whose type ends chains keeps it. -/
theorem find?_followChains {bindings : Bindings} {parameter : TypeParameter} {ty : Ty}
    (found : bindings.find? parameter = some ty) (isEnd : bindings.ends ty = true)
    (parameters : List TypeParameter) :
    (bindings.followChains parameters).find? parameter = some ty := by
  refine (followChains_induction (motive := fun followed =>
    followed.find? parameter = some ty ∧ followed.ends ty = true) ?_ ⟨found, isEnd⟩ parameters).1
  rintro followed changed target reached bound apart on next ⟨found, isEnd⟩
  -- What is followed is bound to a parameter that is resolved, so it is another one.
  have other : changed.hash ≠ parameter.hash := by
    intro same
    have sameBound : followed.find? changed = followed.find? parameter := by
      rw [find?, find?, same]
    rw [sameBound, found] at bound
    rw [Option.some.inj bound] at isEnd
    exact Bool.false_ne_true (on.symm.trans isEnd)
  refine ⟨by rw [find?_bind, if_neg other, found], ?_⟩
  cases ty with
  | unknown | cls _ | function _ | marker _ => rfl
  | parameter last =>
    have distinct : changed.hash ≠ last.hash := by
      intro same
      have sameBound : followed.find? changed = followed.find? last := by
        rw [find?, find?, same]
      obtain ⟨_, equal, itself⟩ := isUnresolved_iff.mp isEnd _ (sameBound ▸ bound)
      cases equal
      exact apart (itself.trans same.symm)
    exact isUnresolved_iff.mpr fun ty reached => by
      rw [find?_bind, if_neg distinct] at reached
      exact isUnresolved_iff.mp isEnd ty reached

/-- Parameters that are found in place and not before are bound in place. -/
theorem bindIn_append {before after : List (TypeParameter × Ty)} {parameter : TypeParameter}
    {earlier ty : Ty} (absent : parameter.hash ∉ before.map fun entry => entry.1.hash) :
    bindIn parameter ty (before ++ (parameter, earlier) :: after) =
      before ++ (parameter, ty) :: after := by
  induction before with
  | nil => exact if_pos rfl
  | cons entry rest inductionHypothesis =>
    rw [List.map_cons, List.mem_cons, not_or] at absent
    rw [List.cons_append, bindIn, if_neg (Ne.symm absent.1), inductionHypothesis absent.2]
    rfl

end Bindings

namespace Evidence

open Bindings

/-- Types as arguments that are bound to no parameter. -/
def unboundTypes (types : List Ty) : List Argument :=
  types.map fun ty => .unbound "" (.ofType ty)

/-- A type as a value is of this type. -/
theorem typeOf_ofType (store : Store) (ty : Ty) : store.typeOf (Value.ofType ty) = ty := by
  cases ty <;> rfl

/-- Types bind the parameters that are left by position, from those on that are bound already. -/
theorem bindRemaining_positional (store : Store) {types : List Ty}
    (known : ∀ ty ∈ types, ty.isUnknown = false) :
    ∀ {parameters : List TypeParameter} (bound : List (TypeParameter × Ty)),
      types.length = parameters.length →
      Distinct (bound.map (·.1) ++ parameters) →
      bindRemaining store parameters (unboundTypes types)
          ⟨bound ++ (identity parameters).entries⟩ =
        ⟨bound ++ (positional parameters types).entries⟩ := by
  induction types with
  | nil =>
    intro parameters bound length _
    rw [List.length_nil, eq_comm, List.length_eq_zero_iff] at length
    rw [length]
    rfl
  | cons ty rest inductionHypothesis =>
    intro parameters bound length distinct
    obtain ⟨isKnown, others⟩ := List.forall_mem_cons.mp known
    cases parameters with
    | nil => cases length
    | cons parameter more =>
      have keys : (Bindings.mk (bound ++ (identity (parameter :: more)).entries)).keys =
          bound.map (·.1) ++ parameter :: more := by
        rw [Bindings.keys, List.map_append]
        exact congrArg _ (keys_identity (parameter :: more))
      have itself :
          (Bindings.mk (bound ++ (identity (parameter :: more)).entries)).find? parameter =
          some (.parameter parameter) :=
        find?_of_mem (keys ▸ distinct) (List.mem_append_right _ List.mem_cons_self)
      have unresolved : (Bindings.mk (bound ++ (identity (parameter :: more)).entries)).isUnresolved
          parameter = true := by
        refine isUnresolved_iff.mpr fun found reached => ?_
        rw [itself] at reached
        exact ⟨parameter, (Option.some.inj reached).symm, rfl⟩
      have absent : parameter.hash ∉ bound.map fun entry => entry.1.hash := by
        intro listed
        rw [Distinct, List.map_append, List.map_map] at distinct
        exact (List.nodup_append.mp distinct).2.2 _ listed _ List.mem_cons_self rfl
      have now : (Bindings.mk (bound ++ (identity (parameter :: more)).entries)).bind parameter ty =
          ⟨(bound ++ [(parameter, ty)]) ++ (identity more).entries⟩ := by
        rw [List.append_assoc]
        exact congrArg Bindings.mk (bindIn_append absent)
      have further : Distinct ((bound ++ [(parameter, ty)]).map (·.1) ++ more) := by
        rwa [List.map_append, List.append_assoc]
      unfold bindRemaining
      rw [if_pos unresolved]
      simp only [unboundTypes, List.map_cons, Argument.unbound, typeOf_ofType, isKnown,
        Bool.false_eq_true, if_false, now]
      refine (inductionHypothesis others _ (Nat.succ.inj length) further).trans ?_
      rw [List.append_assoc]
      rfl

/-- Types show nothing by themselves. -/
theorem foldl_takeArgument_ofTypes (store : Store) {template : ClassId}
    (apart : store.typeHash (.cls template) ≠ .unknown) (types : List Ty) :
    ∀ evidence : Evidence, (unboundTypes types).foldl (takeArgument store template) evidence =
      { evidence with unused := evidence.unused ++ unboundTypes types } := by
  have differs : store.sameType .unknown (.cls template) = false :=
    decide_eq_false fun same => apart same.symm
  induction types with
  | nil =>
    intro evidence
    rw [unboundTypes, List.map_nil, List.foldl_nil, List.append_nil]
  | cons ty rest inductionHypothesis =>
    intro evidence
    have one : takeArgument store template evidence (.unbound "" (.ofType ty)) =
        { evidence with unused := evidence.unused ++ [.unbound "" (.ofType ty)] } := by
      have abstract : isConcreteObject (.ofType ty) = false := by cases ty <;> rfl
      simp only [takeArgument, Argument.unbound, Ty.asParameter?, Option.filter_none, abstract,
        Bool.false_eq_true, if_false, differs]
    rw [unboundTypes, List.map_cons, List.foldl_cons, one, ← unboundTypes, inductionHypothesis,
      List.append_assoc]
    rfl

/-- Types that are given for parameters are taken in turn, and then chains are followed. -/
theorem ofTypes_bindings {store : Store} {template : ClassId}
    (apart : store.typeHash (.cls template) ≠ .unknown) {parameters : List TypeParameter}
    {types : List Ty} {span : Span} :
    (ofArguments store template parameters (.ofTypes types span)).bindings =
      (bindRemaining store parameters (unboundTypes types)
        (.identity parameters)).followChains parameters := by
  have given : (Arguments.ofTypes types span).list = unboundTypes types := List.map_map
  unfold ofArguments
  rw [given, foldl_takeArgument_ofTypes store apart]
  rfl

/-- If the parameters are different, they are taken by position. -/
theorem bindings_ofTypes (store : Store) {template : ClassId} {parameters : List TypeParameter}
    {types : List Ty} (length : types.length = parameters.length)
    (distinct : Distinct parameters) (known : ∀ ty ∈ types, ty.isUnknown = false)
    (apart : store.typeHash (.cls template) ≠ .unknown) (span : Span) :
    (ofArguments store template parameters (.ofTypes types span)).bindings =
      (positional parameters types).followChains parameters := by
  have bound := bindRemaining_positional store known [] length distinct
  rw [List.nil_append, List.nil_append] at bound
  rw [ofTypes_bindings apart]
  exact congrArg (·.followChains parameters) bound

end Evidence

end TypeInference
