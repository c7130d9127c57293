import TypeInference.Proofs.Chains
import TypeInference.Proofs.Memoization

/-!
# What a template applied to types binds

A template that is applied to as many types as it has type parameters, none of them unknown, gives
a class whose parameters are bound to these types by position, after chains of parameters were
followed. This is so whether the class was there, is being made or is made now: it is told by the
identities of the types that its parameters are bound to. So a parameter gets its type, unless
this is another parameter of the template that is bound to something else in turn.
-/

namespace TypeInference

open Analysis Store TypeParameter

/-- Bindings of the same parameters to types of the same identities give a parameter types of one
identity. -/
theorem Bindings.map_find?_eq {first second : Bindings}
    (keys : first.keys.map TypeParameter.hash = second.keys.map TypeParameter.hash)
    {identity : Ty → TypeHash} (types : first.types.map identity = second.types.map identity)
    (parameter : TypeParameter) :
    (first.find? parameter).map identity = (second.find? parameter).map identity := by
  have inEntries : ∀ {first second : List (TypeParameter × Ty)},
      first.map (fun entry => entry.1.hash) = second.map (fun entry => entry.1.hash) →
      first.map (fun entry => identity entry.2) = second.map (fun entry => identity entry.2) →
        (findIn parameter.hash first).map identity =
          (findIn parameter.hash second).map identity := by
    intro first
    induction first with
    | nil =>
      intro second keys _
      rw [List.map_eq_nil_iff.mp keys.symm]
    | cons entry rest inductionHypothesis =>
      intro second keys types
      cases second with
      | nil => cases keys
      | cons other more =>
        rw [List.map_cons, List.map_cons, List.cons.injEq] at keys types
        rw [findIn, findIn, keys.1]
        split
        · exact congrArg some types.1
        · exact inductionHypothesis keys.2 types.2
  simp only [Bindings.keys, Bindings.types, List.map_map] at keys types
  exact inEntries keys types

/-- A parameter that is found is among the keys. -/
theorem Bindings.exists_key_of_find? {bindings : Bindings} {parameter : TypeParameter} {ty : Ty}
    (found : bindings.find? parameter = some ty) :
    ∃ own ∈ bindings.keys, own.hash = parameter.hash := by
  obtain ⟨own, listed, same⟩ := mem_entries_of_find? found
  exact ⟨own, List.mem_map.mpr ⟨_, listed, rfl⟩, same⟩

/-- A parameter that is not open is among the keys. -/
theorem Bindings.exists_key_of_resolved {bindings : Bindings} {parameter : TypeParameter}
    (resolved : bindings.isUnresolved parameter = false) :
    ∃ own ∈ bindings.keys, own.hash = parameter.hash := by
  cases found : bindings.find? parameter with
  | none =>
    rw [isUnresolved, found] at resolved
    cases resolved
  | some ty => exact exists_key_of_find? found

/-- Chains never lead back to all parameters being open: what is followed leads to a parameter
that is bound, and that one stays so. -/
theorem Bindings.exists_resolved_followChains {bindings : Bindings} {parameter : TypeParameter}
    (resolved : bindings.isUnresolved parameter = false) (parameters : List TypeParameter) :
    ∃ other, (bindings.followChains parameters).isUnresolved other = false := by
  refine followChains_induction (motive := fun followed =>
    ∃ other, followed.isUnresolved other = false) ?_ ⟨parameter, resolved⟩ parameters
  intro followed changed target ty _ apart on bound _
  have same : (followed.bind changed ty).find? target = followed.find? target := by
    rw [find?_bind, if_neg (Ne.symm apart)]
  exact ⟨target, by rw [← on, isUnresolved, isUnresolved, same]⟩

/-- Parameters that are not all given for themselves are not all open in the end. -/
theorem Bindings.not_all_unresolved {parameters : List TypeParameter} {types : List Ty}
    (distinct : Distinct parameters) (length : types.length = parameters.length)
    (differs : ∃ pair ∈ parameters.zip types,
      pair.2.asParameter?.map TypeParameter.hash ≠ some pair.1.hash) :
    parameters.all ((positional parameters types).followChains parameters).isUnresolved ≠ true := by
  have keys : (positional parameters types).keys = parameters := keys_positional length
  have distinctKeys : Distinct (positional parameters types).keys := keys.symm ▸ distinct
  obtain ⟨pair, listed, other⟩ := differs
  have resolved : (positional parameters types).isUnresolved pair.1 = false := by
    refine Bool.eq_false_iff.mpr fun unresolved => ?_
    obtain ⟨target, isParameter, same⟩ :=
      isUnresolved_iff.mp unresolved _ (find?_of_mem distinctKeys listed)
    exact other (by rw [isParameter, ← same]; rfl)
  intro all
  obtain ⟨last, stays⟩ := exists_resolved_followChains resolved parameters
  obtain ⟨own, among, same⟩ := exists_key_of_resolved stays
  rw [keys_followChains, keys] at among
  have open_ := List.all_eq_true.mp all own among
  rw [isUnresolved_congr same, stays] at open_
  cases open_

namespace Store

variable {store next : Store}

/-- Every specialization of a template has its parameters, in their order. -/
def Keyed (store : Store) (template : ClassId) : Prop :=
  ∀ record ∈ store.classes.toList, record.template = some template →
    record.parameters.keys.map TypeParameter.hash =
      (store.typeParameters template).map TypeParameter.hash

instance (store : Store) (template : ClassId) : Decidable (store.Keyed template) :=
  List.decidableBAll _ _

/-- The record of a class is among the records. -/
theorem classAt_mem {id : ClassId} (present : store.HasClass id) :
    store.classAt id ∈ store.classes.toList := by
  have inside : id.index < store.classes.size := present
  rw [classAt, Array.getElem?_eq_getElem inside, Option.getD_some]
  exact Array.mem_toList_iff.mpr (Array.getElem_mem inside)

/-- Signatures stay the same wherever moves lead. -/
theorem LeadsTo.signature (leads : store.LeadsTo next) {bindings : Bindings}
    (given : ∀ ty ∈ bindings.types, store.HasType ty) :
    next.signature bindings = store.signature bindings :=
  congrArg ResolvedSignature.mk (List.map_congr_left fun ty listed =>
    (leads.keepsType (given ty listed)).2)

/-- What a template answers for a signature was drafted for it. -/
theorem Tidy.draftedFrom (tidy : store.Tidy) {template answer : ClassId}
    {signature : ResolvedSignature} (answered : store.answer? template signature = some answer) :
    store.DraftedFrom template signature answer := by
  rcases Option.or_eq_some_iff.mp answered with finished | ⟨-, unfinished⟩
  · exact tidy.finished template (signature, answer) (OrderedTable.mem_of_find? finished)
  · obtain ⟨entry, found, rfl⟩ := Option.map_eq_some_iff.mp unfinished
    have same := List.find?_some found
    rw [Bool.and_eq_true, decide_eq_true_eq, decide_eq_true_eq] at same
    exact same.2 ▸ (tidy.unfinished template entry (List.mem_of_find?_eq_some found)).1

end Store

/-- The bases of a class are there. -/
theorem Progress.Grounded.hasBases {environment : Environment} {progress : Progress}
    (grounded : progress.Grounded environment) (id : ClassId) : progress.store.HasBases id := by
  intro base listed
  obtain ⟨ty, among, isClass⟩ := List.mem_filterMap.mp listed
  cases ty with
  | cls found =>
    cases isClass
    exact (grounded.stored.1 id).bases _ among
  | unknown | parameter _ | function _ | marker _ => cases isClass

/-- Engines of any depth keep progress grounded. -/
theorem Engine.areGrounded_atDepth (depth : Nat) :
    AreGrounded fun _ : Unit => Engine.atDepth depth :=
  @areGrounded_of_deeper Unit (fun depth _ => Engine.atDepth depth) (fun _ => rfl)
    (fun _ _ _ _ _ evaluated => evaluated) (fun _ _ _ _ _ _ specialized => specialized) depth

/-- A result of analyses that are grounded is reached by changes that keep progress grounded. -/
theorem Grounds.of_ok {environment : Environment} {making : Option ClassId} {α : Type} [Refers α]
    {before after : Progress} {analysis : Analysis α} {result : α}
    (grounds : Grounds environment making before fun _ : Unit => analysis)
    (returned : analysis environment before = .ok result after) :
    before.Reaches environment making after ∧ after.Grounded environment :=
  after_of_ok returned ▸ grounds.after ()

namespace Engine

variable {environment : Environment} {before after : Progress} {template specialized : ClassId}
  {types : List Ty}

/-- What a request for a class that is no specialization comes to, if some parameter is resolved
when its constructor was evaluated. -/
theorem requested?_of_original {depth : Nat} {id : ClassId} {arguments : Arguments}
    {middle : Progress} (original : (before.store.classAt id).template = none)
    (constructed : (Engine.atDepth depth).ensureConstructed id environment before = .ok () middle)
    (resolved : (middle.store.typeParameters id).all
      (middle.store.evidenceOf id arguments).bindings.isUnresolved = false) :
    requested? (depth + 1) id arguments environment before =
      .ok (some (id, middle.store.signatureOf id arguments)) middle := by
  rw [requested?, bind_apply, store_apply]
  dsimp only
  rw [original]
  dsimp only
  rw [bind_apply, constructed]
  dsimp only
  rw [bind_apply, store_apply]
  dsimp only
  unfold evidenceOf at resolved
  rw [if_neg (Bool.eq_false_iff.mp resolved)]
  rfl

/-- The application of a class to types that are there keeps progress grounded. -/
theorem specialize_grounded (grounded : before.Grounded environment) (depth : Nat)
    (present : before.store.HasClass template) (given : ∀ ty ∈ types, before.store.HasType ty)
    {span : Span} (returned : (Engine.atDepth depth).specialize template (.ofTypes types span)
      environment before = .ok specialized after) :
    before.Reaches environment none after ∧ after.Grounded environment := by
  have within : Within grounded.references (Arguments.ofTypes types span) :=
    within_ofTypes (fun ty listed => by
      cases ty with
      | cls _ | function _ => exact given _ listed
      | unknown | parameter _ | marker _ => trivial) span
  exact ((areGrounded_atDepth depth grounded.references).specialize present within environment
    before grounded fun _ => id).of_ok returned

/-- A template that is applied to known types, one for each parameter, is the answer itself if
they leave all parameters open in the end. Otherwise the answer was made from the template, for
these types in their order and with chains followed. -/
theorem specialize_ofTypes (grounded : before.Grounded environment) (depth : Nat)
    (present : before.store.HasClass template)
    (original : (before.store.classAt template).template = none)
    (apart : before.store.typeHash (.cls template) ≠ .unknown)
    (distinct : Distinct (before.store.typeParameters template))
    (length : types.length = (before.store.typeParameters template).length)
    (known : ∀ ty ∈ types, ty.isUnknown = false)
    (given : ∀ ty ∈ types, before.store.HasType ty) {span : Span}
    (returned : (Engine.atDepth depth).specialize template (.ofTypes types span) environment
      before = .ok specialized after) :
    let parameters := before.store.typeParameters template
    let bound := (Bindings.positional parameters types).followChains parameters
    (specialized = template ∧ parameters.all bound.isUnresolved = true) ∨
      after.store.DraftedFrom template (after.store.signature bound) specialized := by
  intro parameters bound
  have boundGiven : ∀ ty ∈ bound.types, before.store.HasType ty := fun ty listed =>
    given ty (Bindings.types_positional length ▸ Bindings.mem_types_followChains listed)
  obtain ⟨reaches, groundedAfter⟩ := specialize_grounded grounded depth present given returned
  cases depth with
  | zero => cases returned
  | succ depth =>
    have request := returned
    change specializeClass (Engine.atDepth depth) template _ environment before = _ at returned
    rw [specializeClass_of_original _ _ environment original] at returned
    obtain ⟨_, middle, constructed, ending⟩ := bind_eq_ok.mp returned
    have leads := ((ensureConstructed_holds (areGrounded_atDepth depth grounded.references) template
      environment before grounded fun _ => id).of_ok constructed).1.store
    have there : before.store.HasType (.cls template) := present
    have sameHash := (leads.keepsType there).2
    have shapes := (ensureConstructed_keeps (atDepth_shaping depth) template).shaping.of_ok
      constructed
    have parametersStill := shapes.keeps.typeParameters present (grounded.hasBases template)
    have evidence : (middle.store.evidenceOf template (.ofTypes types span)).bindings = bound := by
      rw [evidenceOf, parametersStill]
      exact Evidence.bindings_ofTypes middle.store length distinct known
        (sameHash ▸ apart) span
    rw [specializeConstructed_apply, parametersStill, evidence] at ending
    by_cases unresolved : parameters.all bound.isUnresolved = true
    · rw [if_pos unresolved] at ending
      cases ending
      exact .inl ⟨rfl, unresolved⟩
    · have resolved : (middle.store.typeParameters template).all (middle.store.evidenceOf template
          (.ofTypes types span)).bindings.isUnresolved = false := by
        rw [parametersStill, evidence]
        exact Bool.eq_false_iff.mpr unresolved
      have asked := requested?_of_original original constructed resolved
      rw [signatureOf, evidence] at asked
      refine .inr ?_
      have drafted := groundedAfter.tidy.draftedFrom
        (specialize_answers (depth + 1) template _ environment asked request)
      rwa [leads.signature boundGiven, ← reaches.store.signature boundGiven] at drafted

/-- Types bind the parameters of a template by position. A template with different parameters is
applied to as many types, none of them unknown and not all of them its own parameters in their
places. If this gives a class, at any depth and whether it was there before or not, then its
parameters are those of the template, bound to what chains lead to from the types in their places.
A type that is no parameter of the template, or one that is given for itself, is bound as it is.

The identities of types are taken for the types: the template must not have the identity of the
unknown type, and its specializations must have its own parameters.

Proof: the answer was drafted for the types after chains were followed
(`Engine.specialize_ofTypes`), and not everything is open then
(`Bindings.not_all_unresolved`). It has the parameters of the template, since it was
drafted with them before or since (`Engine.atDepth_shaping`), and it is known by them and its
signature. Chains do not lead on from a type at which they end (`Bindings.find?_followChains`). -/
theorem types_bound_by_position (grounded : before.Grounded environment) (depth : Nat)
    (present : before.store.HasClass template)
    (original : (before.store.classAt template).template = none)
    (apart : before.store.typeHash (.cls template) ≠ .unknown)
    (keyed : before.store.Keyed template)
    (distinct : Distinct (before.store.typeParameters template))
    (length : types.length = (before.store.typeParameters template).length)
    (known : ∀ ty ∈ types, ty.isUnknown = false)
    (given : ∀ ty ∈ types, before.store.HasType ty)
    (differs : ∃ pair ∈ (before.store.typeParameters template).zip types,
      pair.2.asParameter?.map TypeParameter.hash ≠ some pair.1.hash) {span : Span}
    (returned : (Engine.atDepth depth).specialize template (.ofTypes types span) environment
      before = .ok specialized after) :
    let parameters := before.store.typeParameters template
    let positional := Bindings.positional parameters types
    let bound := (after.store.classAt specialized).parameters
    bound.keys.map TypeParameter.hash = parameters.map TypeParameter.hash ∧
      ∀ pair ∈ parameters.zip types,
        (bound.find? pair.1).map after.store.typeHash =
            ((positional.followChains parameters).find? pair.1).map after.store.typeHash ∧
          (positional.ends pair.2 = true →
            (bound.find? pair.1).map after.store.typeHash =
              some (before.store.typeHash pair.2)) := by
  intro parameters positional bound
  have keys : positional.keys = parameters := Bindings.keys_positional length
  have followedKeys : (positional.followChains parameters).keys = parameters := by
    rw [Bindings.keys_followChains, keys]
  have drafted := (specialize_ofTypes grounded depth present original apart distinct length known
    given returned).resolve_left fun itself =>
      Bindings.not_all_unresolved distinct length differs itself.2
  have shapes := ((atDepth_shaping depth).specialize template _).shaping.of_ok returned
  have sameKeys : bound.keys.map TypeParameter.hash = parameters.map TypeParameter.hash := by
    by_cases earlier : before.store.HasClass specialized
    · have same := shapes.keeps.shapes specialized earlier
      have made := (ClassRecord.template_of_shape same).symm.trans drafted.made
      rw [show bound = (before.store.classAt specialized).parameters from
        ClassRecord.parameters_of_shape same]
      exact keyed _ (classAt_mem earlier) made
    · rw [shapes.drafted specialized template earlier drafted.made present
        (grounded.hasBases template)]
  have sameIdentities (parameter : TypeParameter) :
      (bound.find? parameter).map after.store.typeHash =
        ((positional.followChains parameters).find? parameter).map after.store.typeHash :=
    Bindings.map_find?_eq (followedKeys ▸ sameKeys)
      (congrArg ResolvedSignature.hashes drafted.bound) parameter
  refine ⟨sameKeys, fun pair listed => ⟨sameIdentities pair.1, fun isEnd => ?_⟩⟩
  have found : positional.find? pair.1 = some pair.2 :=
    Bindings.find?_of_mem (keys ▸ distinct) listed
  have leads := (specialize_grounded grounded depth present given returned).1.store
  rw [sameIdentities, Bindings.find?_followChains found isEnd]
  exact congrArg some (leads.keepsType (given _ (List.of_mem_zip listed).2)).2

end Engine

namespace Analyzer

/-- A module with a class of two type parameters. -/
def pairingModule : Module :=
  ⟨[.typeVariable "K", .typeVariable "V",
    .defineClass 1 "C" [.index (.ofName "Generic")
      (.display .tuple [.ofName "K", .ofName "V"] .unknown) .unknown] [.pass .unknown]]⟩

/-- The progress of a fresh analyzer after that module. -/
def paired : Progress :=
  (Analysis.ofModule pairingModule).after Registry.environment Registry.start

/-- The class of the module. -/
def pairClass : ClassId :=
  Registry.standard.store.nextClass

/-- The class applied to two types. -/
def appliedTo (first second : Ty) : Analysis ClassId :=
  (Engine.atDepth Engine.depthLimit).specialize pairClass (.ofTypes [first, second] .unknown)

/-- A class of two parameters applied to the first one, for itself, and to integers: these are what
the two parameters are bound to. -/
theorem types_bound_by_position_pair :
    let types := [.parameter (.named "K"), builtinType .int]
    let after := (appliedTo (.parameter (.named "K")) (builtinType .int)).after Registry.environment
      paired
    let specialized : ClassId := ⟨pairClass.index + 1⟩
    let bound := (after.store.classAt specialized).parameters
    Distinct (paired.store.typeParameters pairClass) ∧ paired.store.Keyed pairClass ∧
      types.length = (paired.store.typeParameters pairClass).length ∧
      appliedTo (.parameter (.named "K")) (builtinType .int) Registry.environment paired =
        .ok specialized after ∧
      ∀ pair ∈ (paired.store.typeParameters pairClass).zip types,
        (bound.find? pair.1).map after.store.typeHash =
          some (paired.store.typeHash pair.2) := by
  intro types after specialized bound
  have grounded : paired.Grounded Registry.environment :=
    ((Progress.Grounded.initial {}).after_ofModuleWithin Engine.depthLimit pairingModule).2
  have distinct : Distinct (paired.store.typeParameters pairClass) := by decide +kernel
  have keyed : paired.store.Keyed pairClass := by decide +kernel
  have length : types.length = (paired.store.typeParameters pairClass).length := by decide +kernel
  have returned : appliedTo (.parameter (.named "K")) (builtinType .int) Registry.environment
      paired = .ok specialized after := ok_of_yields (by decide +kernel)
  have present : paired.store.HasClass pairClass := by decide +kernel
  have given : ∀ ty ∈ types, paired.store.HasType ty := by decide +kernel
  obtain ⟨-, pairs⟩ := Engine.types_bound_by_position grounded Engine.depthLimit present
    (by decide +kernel) (by decide +kernel) keyed distinct length (by decide) given
    (by decide +kernel) returned
  have ended : ∀ pair ∈ (paired.store.typeParameters pairClass).zip types,
      (Bindings.positional (paired.store.typeParameters pairClass) types).ends pair.2 = true := by
    decide +kernel
  exact ⟨distinct, keyed, length, returned, fun pair listed =>
    (pairs pair listed).2 (ended pair listed)⟩

/-- Types do not always bind parameters by position: a class of two parameters applied to these
two, the second one first, has both bound to its first one. -/
theorem permuted_parameters_lost :
    let after := (appliedTo (.parameter (.named "V")) (.parameter (.named "K"))).after
      Registry.environment paired
    let specialized : ClassId := ⟨pairClass.index + 1⟩
    let bound := (after.store.classAt specialized).parameters
    Distinct (paired.store.typeParameters pairClass) ∧ paired.store.Keyed pairClass ∧
      (paired.store.typeParameters pairClass).map (·.name) = ["K", "V"] ∧
      (appliedTo (.parameter (.named "V")) (.parameter (.named "K"))).yields Registry.environment
        paired specialized = true ∧
      (bound.find? (.named "K")).map after.store.typeHash = some (TypeParameter.named "K").hash ∧
      (bound.find? (.named "V")).map after.store.typeHash = some (TypeParameter.named "K").hash ∧
      (TypeParameter.named "V").hash ≠ (TypeParameter.named "K").hash := by
  decide +kernel

end Analyzer

end TypeInference
