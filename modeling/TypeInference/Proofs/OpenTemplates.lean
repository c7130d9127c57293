import TypeInference.Proofs.Instantiation
import TypeInference.Proofs.Replacing

/-!
# Classes with parameters of their own

A class that is declared has its type parameters bound to themselves, and keeps them so. Where
bindings of its parameters are to be substituted in the class, a specialization of it is asked for,
by what the parameters are bound to. If all of this is known, the request is for the signature of
the bindings. The unknown type, however, binds no parameter when it is asked for, so that the
request comes to another signature if a parameter is bound to it.
-/

namespace TypeInference

open Analysis TypeParameter

namespace Bindings

variable {bindings own : Bindings}

/-- Different parameters are bound to the types that are listed for them. -/
theorem types_eq_inOrder (distinct : Distinct bindings.keys) :
    bindings.types = bindings.inOrder bindings.keys := by
  unfold types inOrder keys
  rw [List.map_map]
  refine List.map_congr_left fun entry listed => ?_
  rw [Function.comp_apply, find?_of_mem distinct listed]
  rfl

/-- Bindings that leave their keys open have a parameter of its own identity for every parameter. -/
theorem exists_own (open_ : ∀ key ∈ own.keys, own.isUnresolved key = true)
    (parameter : TypeParameter) : ∃ target,
      (own.find? parameter).getD (.parameter parameter) = .parameter target ∧
        target.hash = parameter.hash := by
  have unresolved : own.isUnresolved parameter = true := by
    refine Bool.not_eq_false _ ▸ fun resolved => ?_
    obtain ⟨key, among, same⟩ := exists_key_of_resolved resolved
    rw [← isUnresolved_congr same, open_ key among] at resolved
    cases resolved
  cases found : own.find? parameter with
  | none => exact ⟨parameter, rfl, rfl⟩
  | some ty =>
    obtain ⟨target, rfl, same⟩ := isUnresolved_iff.mp unresolved ty found
    exact ⟨target, rfl, same⟩

/-- What takes the place of a parameter of a class, that has its own bindings, where others are
substituted. -/
def requested (own bindings : Bindings) (parameter : TypeParameter) : Ty :=
  let present := (own.find? parameter).getD (.parameter parameter)
  (Engine.replacement? bindings present).getD present

/-- Where a parameter stands for itself, this is what it is bound to, up to the object that an open
parameter is. -/
theorem requested_alike (store : Store)
    (open_ : ∀ key ∈ own.keys, own.isUnresolved key = true) (bindings : Bindings)
    (parameter : TypeParameter) :
    let bound := (bindings.find? parameter).getD (.parameter parameter)
    store.typeHash (own.requested bindings parameter) = store.typeHash bound ∧
      (own.requested bindings parameter).isUnknown = bound.isUnknown ∧
      (own.requested bindings parameter).asParameter?.map TypeParameter.hash =
        bound.asParameter?.map TypeParameter.hash := by
  obtain ⟨target, stands, same⟩ := exists_own open_ parameter
  have sameBound : bindings.find? target = bindings.find? parameter := by
    rw [find?, find?, same]
  have asked : own.requested bindings parameter =
      (bindings.resolve? target).getD (.parameter target) := by
    unfold requested
    rw [stands]
    rfl
  have itself : store.typeHash (.parameter target) = store.typeHash (.parameter parameter) := same
  rw [asked, resolve?, sameBound]
  cases bindings.find? parameter with
  | none => exact ⟨itself, rfl, congrArg some same⟩
  | some ty =>
    cases ty with
    | parameter other =>
      dsimp only
      split
      · next equal => exact ⟨equal.symm, rfl, congrArg some equal.symm⟩
      · exact ⟨rfl, rfl, rfl⟩
    | unknown | cls _ | function _ | marker _ => exact ⟨rfl, rfl, rfl⟩

end Bindings

namespace Evidence

variable {store : Store}

/-- The rest of the arguments binds known types only. -/
theorem mem_types_bindRemaining {parameters : List TypeParameter} {arguments : List Argument}
    {bindings : Bindings} :
    ∀ ty ∈ (bindRemaining store parameters arguments bindings).types,
      ty ∈ bindings.types ∨ ty.isUnknown = false ∧
        ∃ argument ∈ arguments, store.typeOf argument.value = ty := by
  refine bindRemaining_induction (motive := fun bound => ∀ ty ∈ bound.types,
    ty ∈ bindings.types ∨ ty.isUnknown = false ∧
      ∃ argument ∈ arguments, store.typeOf argument.value = ty) ?_ fun _ => .inl
  intro parameter _ argument among bound _ known earlier ty listed
  rcases Bindings.mem_types_bind listed with rfl | before
  · exact .inr ⟨known, argument, among, rfl⟩
  · exact earlier ty before

/-- Types that are given for parameters bind these to known ones among them, or leave them open. -/
theorem mem_types_ofTypes {template : ClassId} (apart : store.typeHash (.cls template) ≠ .unknown)
    {parameters : List TypeParameter} {types : List Ty} {span : Span} {ty : Ty}
    (listed : ty ∈
      (ofArguments store template parameters (.ofTypes types span)).bindings.types) :
    (∃ parameter ∈ parameters, ty = .parameter parameter) ∨ ty.isUnknown = false ∧ ty ∈ types := by
  rw [ofTypes_bindings apart] at listed
  rcases mem_types_bindRemaining _ (Bindings.mem_types_followChains listed) with
    before | ⟨known, argument, among, shows⟩
  · obtain ⟨⟨parameter, _⟩, entry, rfl⟩ := List.mem_map.mp before
    obtain ⟨own, itself, same⟩ := List.mem_map.mp entry
    cases same
    exact .inl ⟨_, itself, rfl⟩
  · obtain ⟨given, itself, rfl⟩ := List.mem_map.mp among
    have same : given = ty := (typeOf_ofType store given).symm.trans shows
    exact .inr ⟨known, same ▸ itself⟩

end Evidence

namespace Store

/-- A class as its definition leaves it, with its type parameters bound to themselves. -/
structure IsOpenTemplate (store : Store) (id : ClassId) : Prop where
  original : (store.classAt id).template = none
  builtin : (store.classAt id).builtin = none
  flags : (store.classAt id).flags = {}
  keyed : (store.classAt id).parameters.keys = [] → store.typeParameters id = []
  own : ∀ key ∈ (store.classAt id).parameters.keys,
    (store.classAt id).parameters.isUnresolved key = true

instance (store : Store) (id : ClassId) : Decidable (store.IsOpenTemplate id) :=
  decidable_of_iff ((store.classAt id).template = none ∧ (store.classAt id).builtin = none ∧
      (store.classAt id).flags = {} ∧
      ((store.classAt id).parameters.keys = [] → store.typeParameters id = []) ∧
      ∀ key ∈ (store.classAt id).parameters.keys,
        (store.classAt id).parameters.isUnresolved key = true)
    ⟨fun ⟨original, builtin, flags, keyed, own⟩ => ⟨original, builtin, flags, keyed, own⟩,
      fun ⟨original, builtin, flags, keyed, own⟩ => ⟨original, builtin, flags, keyed, own⟩⟩

/-- The types that a class is asked for where bindings are substituted in it. -/
def selfRequest (store : Store) (id : ClassId) (bindings : Bindings) : List Ty :=
  (store.typeParameters id).map ((store.classAt id).parameters.requested bindings)

theorem length_selfRequest (store : Store) (id : ClassId) (bindings : Bindings) :
    (store.selfRequest id bindings).length = (store.typeParameters id).length :=
  List.length_map _

section SelfRequest

variable {store : Store} {id : ClassId} {bindings : Bindings}

/-- A class with type parameters is generic. -/
theorem IsOpenTemplate.isGeneric (declared : store.IsOpenTemplate id)
    (generic : store.typeParameters id ≠ []) : store.isGeneric id = true := by
  obtain ⟨key, among⟩ := List.exists_mem_of_ne_nil _ fun none => generic (declared.keyed none)
  obtain ⟨ty, bound⟩ := Bindings.exists_find?_of_hash (List.mem_map_of_mem among)
  obtain ⟨target, rfl, -⟩ := Bindings.isUnresolved_iff.mp (declared.own key among) ty bound
  refine Bool.not_eq_false _ ▸ fun closed => ?_
  cases asParameter?_of_not_isGeneric closed (Bindings.mem_types_of_find? bound)

variable (declared : store.IsOpenTemplate id) (distinct : Distinct (store.typeParameters id))
  (keys : bindings.keys = store.typeParameters id)

include distinct keys in
/-- The types that different parameters are bound to, in their order. -/
theorem types_of_keys : bindings.types = (store.typeParameters id).map fun parameter =>
    (bindings.find? parameter).getD (.parameter parameter) := by
  rw [Bindings.types_eq_inOrder (keys.symm ▸ distinct), keys]
  rfl

include declared distinct keys

/-- What is asked for has the identities of what the parameters are bound to. -/
theorem map_typeHash_selfRequest :
    (store.selfRequest id bindings).map store.typeHash = bindings.types.map store.typeHash := by
  rw [types_of_keys distinct keys, selfRequest, List.map_map, List.map_map]
  exact List.map_congr_left fun parameter _ =>
    (Bindings.requested_alike store declared.own bindings parameter).1

/-- It is unknown where that is. -/
theorem map_isUnknown_selfRequest :
    (store.selfRequest id bindings).map Ty.isUnknown = bindings.types.map Ty.isUnknown := by
  rw [types_of_keys distinct keys, selfRequest, List.map_map, List.map_map]
  exact List.map_congr_left fun parameter _ =>
    (Bindings.requested_alike store declared.own bindings parameter).2.1

/-- What is asked for is known where that is. -/
theorem known_selfRequest (known : ∀ ty ∈ bindings.types, ty.isUnknown = false) :
    ∀ ty ∈ store.selfRequest id bindings, ty.isUnknown = false := by
  intro ty listed
  have among : ty.isUnknown ∈ bindings.types.map Ty.isUnknown :=
    map_isUnknown_selfRequest declared distinct keys ▸ List.mem_map_of_mem listed
  obtain ⟨other, bound, same⟩ := List.mem_map.mp among
  exact same ▸ known other bound

omit distinct keys in
/-- Where no parameter is bound to another one, none is asked for in the place of another one. -/
theorem unchained_selfRequest (unchained : bindings.Unchained) :
    (Bindings.positional (store.typeParameters id)
      (store.selfRequest id bindings)).Unchained := by
  intro parameter target found
  obtain ⟨key, listed, same⟩ := Bindings.mem_entries_of_find? found
  rw [Bindings.positional, selfRequest, ← List.map_prod_left_eq_zip] at listed
  obtain ⟨own, -, pair⟩ := List.mem_map.mp listed
  obtain ⟨rfl, asked⟩ := Prod.mk.inj pair
  have alike := (Bindings.requested_alike store declared.own bindings own).2.2
  rw [asked] at alike
  refine Eq.trans ?_ same
  cases bound : bindings.find? own with
  | none =>
    rw [bound] at alike
    exact Option.some.inj alike
  | some ty =>
    rw [bound] at alike
    cases ty with
    | parameter other => exact (Option.some.inj alike).trans (unchained own other bound)
    | unknown | cls _ | function _ | marker _ => cases alike

/-- Where all parameters are bound to known types, these are what the request binds. -/
theorem evidenceOf_selfRequest (apart : store.typeHash (.cls id) ≠ .unknown)
    (known : ∀ ty ∈ bindings.types, ty.isUnknown = false) (unchained : bindings.Unchained)
    (span : Span) :
    (store.evidenceOf id (.ofTypes (store.selfRequest id bindings) span)).bindings =
      .positional (store.typeParameters id) (store.selfRequest id bindings) := by
  rw [evidenceOf, Evidence.bindings_ofTypes store (length_selfRequest ..) distinct
    (known_selfRequest declared distinct keys known) apart]
  exact (unchained_selfRequest declared unchained).followChains _

/-- So the request is for the signature of the bindings. -/
theorem signatureOf_selfRequest (apart : store.typeHash (.cls id) ≠ .unknown)
    (known : ∀ ty ∈ bindings.types, ty.isUnknown = false) (unchained : bindings.Unchained)
    (span : Span) :
    store.signatureOf id (.ofTypes (store.selfRequest id bindings) span) =
      store.signature bindings := by
  rw [signatureOf, evidenceOf_selfRequest declared distinct keys apart known unchained, signature,
    Bindings.types_positional (length_selfRequest ..),
    map_typeHash_selfRequest declared distinct keys]
  rfl

/-- And it leaves open what the bindings leave open. -/
theorem resolved_selfRequest (apart : store.typeHash (.cls id) ≠ .unknown)
    (known : ∀ ty ∈ bindings.types, ty.isUnknown = false) (unchained : bindings.Unchained)
    (resolved : (store.typeParameters id).all bindings.isUnresolved = false) (span : Span) :
    (store.typeParameters id).all (store.evidenceOf id
      (.ofTypes (store.selfRequest id bindings) span)).bindings.isUnresolved = false := by
  obtain ⟨parameter, among, other⟩ := List.all_eq_false.mp resolved
  refine List.all_eq_false.mpr ⟨parameter, among, fun unresolved => other ?_⟩
  rw [evidenceOf_selfRequest declared distinct keys apart known unchained] at unresolved
  have sameKeys : (Bindings.positional (store.typeParameters id)
      (store.selfRequest id bindings)).keys = store.typeParameters id :=
    Bindings.keys_positional (length_selfRequest ..)
  have listed : (parameter, (store.classAt id).parameters.requested bindings parameter) ∈
      (Bindings.positional (store.typeParameters id) (store.selfRequest id bindings)).entries := by
    rw [Bindings.positional, selfRequest, ← List.map_prod_left_eq_zip]
    exact List.mem_map_of_mem among
  obtain ⟨target, stands, same⟩ := Bindings.isUnresolved_iff.mp unresolved _
    (Bindings.find?_of_mem (sameKeys.symm ▸ distinct) listed)
  have alike := (Bindings.requested_alike store declared.own bindings parameter).2.2
  rw [stands] at alike
  refine Bindings.isUnresolved_iff.mpr fun ty bound => ?_
  rw [bound] at alike
  cases ty with
  | parameter found => exact ⟨found, rfl, (Option.some.inj alike).symm.trans same⟩
  | unknown | cls _ | function _ | marker _ => cases alike

/-- Where a parameter is bound to the unknown type, the request is for another signature. -/
theorem signatureOf_selfRequest_ne
    (named : ∀ ty ∈ .cls id :: (store.typeParameters id).map .parameter ++ bindings.types,
      ty.isUnknown = false → store.typeHash ty ≠ .unknown)
    (unknown : .unknown ∈ bindings.types) (span : Span) :
    store.signatureOf id (.ofTypes (store.selfRequest id bindings) span) ≠
      store.signature bindings := by
  intro same
  have apart : store.typeHash (.cls id) ≠ .unknown :=
    named _ (List.mem_append_left _ List.mem_cons_self) rfl
  have hashes := congrArg ResolvedSignature.hashes same
  have shown : TypeHash.unknown ∈ (store.evidenceOf id
      (.ofTypes (store.selfRequest id bindings) span)).bindings.types.map store.typeHash := by
    change _ ∈ (store.signatureOf id (.ofTypes (store.selfRequest id bindings) span)).hashes
    rw [hashes]
    exact List.mem_map.mpr ⟨.unknown, unknown, rfl⟩
  obtain ⟨ty, listed, hash⟩ := List.mem_map.mp shown
  rcases Evidence.mem_types_ofTypes apart listed with ⟨parameter, among, rfl⟩ | ⟨known, asked⟩
  · exact named _ (List.mem_append_left _ (List.mem_cons_of_mem _ (List.mem_map_of_mem among)))
      rfl hash
  · obtain ⟨parameter, among, rfl⟩ := List.mem_map.mp asked
    obtain ⟨sameHash, sameKnown, -⟩ :=
      Bindings.requested_alike store declared.own bindings parameter
    refine named _ (List.mem_append_right _ ?_) (sameKnown ▸ known) (sameHash ▸ hash)
    rw [types_of_keys distinct keys]
    exact List.mem_map_of_mem among

end SelfRequest

/-- A class keeps its parameters open where it keeps its shape. -/
theorem IsOpenTemplate.keep {store later : Store} {id : ClassId} (declared : store.IsOpenTemplate id)
    (keeps : store.KeepsShapes later) (present : store.HasClass id) (based : store.HasBases id) :
    later.IsOpenTemplate id := by
  have same := keeps.shapes id present
  have parameters := ClassRecord.parameters_of_shape same
  exact ⟨(ClassRecord.template_of_shape same).trans declared.original,
    (ClassRecord.builtin_of_shape same).trans declared.builtin,
    (ClassRecord.flags_of_shape same).trans declared.flags,
    by rw [parameters, keeps.typeParameters present based]; exact declared.keyed,
    parameters ▸ declared.own⟩

/-- A class that had nothing is open when it was given its bases. -/
theorem isOpenTemplate_derive {store : Store} {id : ClassId} (bases : List Ty)
    (present : store.HasClass id) (original : (store.classAt id).template = none)
    (builtin : (store.classAt id).builtin = none) (flags : (store.classAt id).flags = {})
    (unbound : (store.classAt id).parameters = .empty) :
    (store.derive id bases).IsOpenTemplate id := by
  have ordered : (store.setBases id bases).HasClass id :=
    (store.hasClass_modifyClass id id _).mpr present
  have records (asked : ClassId) : (store.derive id bases).classAt asked =
      if asked = id then
        { (store.setBases id bases).classAt id with
          parameters := .identity ((store.setBases id bases).typeParameters id) }
      else (store.setBases id bases).classAt asked := by
    rw [derive, classAt_modifyClass_eq]
    exact if_ctx_congr ⟨And.left, fun same => ⟨same, ordered⟩⟩ (fun same => same ▸ rfl) fun _ => rfl
  have own := records id
  rw [if_pos rfl, classAt_setBases, if_pos ⟨rfl, present⟩] at own
  refine ⟨by rw [own]; exact original, by rw [own]; exact builtin, by rw [own]; exact flags,
    fun none => ?_, ?_⟩
  · -- Then nothing was added, and the parameters are those that the bases had before.
    rw [own] at none
    have none : (store.setBases id bases).typeParameters id = [] :=
      (Bindings.keys_identity _).symm.trans none
    have same (asked : ClassId) :
        (store.derive id bases).classAt asked = (store.setBases id bases).classAt asked := by
      rw [records]
      split
      · next equal =>
        rw [equal, none, classAt_setBases, if_pos ⟨rfl, present⟩]
        dsimp only
        rw [unbound]
        rfl
      · rfl
    rw [← none, typeParameters, typeParameters]
    simp only [same]
  · intro key _
    rw [own]
    refine Bindings.isUnresolved_iff.mpr fun ty found => ?_
    obtain ⟨other, listed, same⟩ := Bindings.mem_entries_of_find? found
    obtain ⟨parameter, -, pair⟩ := List.mem_map.mp listed
    obtain ⟨rfl, rfl⟩ := Prod.mk.inj pair
    exact ⟨_, rfl, same⟩

end Store

namespace Engine

variable {environment : Environment} {before : Progress} {id : ClassId}

/-- A generic class is specialized where its bindings are to be substituted in it. -/
theorem substituteClass_self (engine : Engine) {bindings : Bindings}
    (declared : before.store.IsOpenTemplate id)
    (resolved : (before.store.typeParameters id).all bindings.isUnresolved = false) :
    engine.substituteClass bindings id environment before =
      engine.specialize id (.ofTypes (before.store.selfRequest id bindings) .unknown) environment
        before := by
  obtain ⟨parameter, among, bound⟩ := List.all_eq_false.mp resolved
  have generic : before.store.isGeneric id = true :=
    declared.isGeneric (List.ne_nil_of_mem among)
  have itself : before.store.templateOf id = id := by
    rw [Store.templateOf, declared.original]
    rfl
  have replaced : ((before.store.typeParameters id).map fun parameter =>
      ((before.store.classAt id).parameters.find? parameter).getD (.parameter parameter)).all
        (fun ty => (replacement? bindings ty).isNone) = false := by
    refine List.all_eq_false.mpr ⟨_, List.mem_map_of_mem among, fun kept => bound ?_⟩
    obtain ⟨target, stands, same⟩ := Bindings.exists_own declared.own parameter
    rw [stands] at kept
    have kept : bindings.resolve? target = none := Option.isNone_iff_eq_none.mp kept
    rw [Bindings.resolve?_congr same] at kept
    refine Bindings.isUnresolved_iff.mpr fun ty found => ?_
    rw [Bindings.resolve?, found] at kept
    cases ty with
    | parameter other =>
      dsimp only at kept
      split at kept
      · next equal => exact ⟨other, rfl, equal⟩
      · cases kept
    | unknown | cls _ | function _ | marker _ => cases kept
  unfold substituteClass
  rw [bind_apply, store_apply]
  dsimp only
  rw [generic, itself, replaced, List.map_map]
  rfl

/-- When a class has been declared for the first time, its type parameters are bound to
themselves. -/
theorem declareClass_isOpenTemplate {depth : Nat} {definition : ClassDefinition}
    {after : Progress} {declared : ClassId} (grounded : before.Grounded environment)
    (new : before.symbols.class? definition.id = none)
    (returned : (Engine.atDepth depth).declareClass definition environment before =
      .ok declared after) : after.store.IsOpenTemplate declared := by
  obtain ⟨qualifiedName, created, begun⟩ :=
    declareClass_of_new (Engine.atDepth depth) new environment
  rw [begun] at returned
  obtain ⟨node, identifier, bases, body, decorators, span⟩ := definition
  obtain ⟨_, derived, gives, returned⟩ := bind_eq_ok.mp returned
  obtain ⟨_, named, names, returned⟩ := bind_eq_ok.mp returned
  obtain ⟨_, walked, walks, returned⟩ := bind_eq_ok.mp returned
  cases returned
  have follows := atDepth_shaping depth
  -- The bases are there, since what they were evaluated to is.
  have based : derived.Grounded environment := by
    have evaluated (middle : Progress) (grounded : middle.Grounded environment) :
        (Logic.grounding Unit).Holds grounded.references fun _ =>
          (Engine.atDepth depth).evaluateBases bases :=
      evaluateBases_holds (areGrounded_atDepth depth _) fun _ _ _ _ => trivial
    have grounds : Grounds environment none before fun _ : Unit => (do
        let id ← createClass ⟨node, identifier, bases, body, decorators, span⟩
        (Engine.atDepth depth).giveBases id bases
        Pure.pure () : Analysis Unit) :=
      .createClass grounded _
        (fun middle still _ => evaluated middle still environment middle still fun _ has => has)
        fun _ _ still _ _ => .pure still trivial
    exact (grounds.of_ok ((bind_of_ok created _).trans ((bind_of_ok gives _).trans rfl))).2
  obtain ⟨present, declared⟩ : derived.store.HasClass before.store.nextClass ∧
      derived.store.IsOpenTemplate before.store.nextClass := by
    obtain ⟨types, middle, found, given⟩ := bind_eq_ok.mp gives
    cases given
    have there : (before.store.addClass (declaredClass ⟨node, identifier, bases, body, decorators,
        span⟩ qualifiedName)).2.HasClass before.store.nextClass :=
      (Store.hasClass_addClass ..).mpr (.inr rfl)
    have keeps := ((evaluateBases_keeps follows bases).shaping.of_ok found).keeps
    have still := keeps.shapes before.store.nextClass there
    rw [Store.classAt_addClass_eq, if_pos rfl] at still
    have present := keeps.hasClass there
    refine ⟨?_, Store.isOpenTemplate_derive _ present (ClassRecord.template_of_shape still)
      (ClassRecord.builtin_of_shape still) (ClassRecord.flags_of_shape still)
      (ClassRecord.parameters_of_shape still)⟩
    simpa [Store.setBases] using present
  have declares : (Analysis.declare identifier.name (.type (.cls before.store.nextClass)) .local
      (some node) identifier.span).Respects .shaping := .changeScopes _
  have first := (declares.of_ok names).keeps
  have body : (Analysis.inScope node .classBody none fun _ => do
      Analysis.declare classCell (.type (.cls before.store.nextClass)) .local (some node) span
      (Engine.atDepth depth).collectMembers before.store.nextClass body).Respects .shaping :=
    .inScope fun _ => .bind (.changeScopes _) fun _ =>
      (collectMembers_keeps follows trivial body).shaping
  exact declared.keep (first.trans (body.of_ok walks).keeps) present (based.hasBases _)

end Engine

end TypeInference
