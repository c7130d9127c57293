import TypeInference.Proofs.Caching
import TypeInference.Proofs.OpenTemplates

/-!
# Classes that mention themselves

A declared class has its type parameters bound to themselves. If one of its members is the class
itself, or an object of it, then its specialization asks for a specialization of the class again
while it is made. It asks with the types that its parameters are bound to, and where all of these
are known, this is the very signature that is being made, so that the member becomes the
specialization itself. An unknown type, however, binds no parameter when it is asked for: the
request comes to another signature then, and to a class that is not the specialization.
-/

namespace TypeInference

open Analysis TypeParameter

/-- A new object that is a plain object of a class is one of the class that it was made for. -/
theorem Store.eq_of_newObject {store : Store} {id made : ClassId}
    (same : store.newObject made = .object (.cls id) .plain) : made = id := by
  unfold newObject at same
  dsimp only at same
  split at same
  · cases types : (store.classAt made).parameters.types.head? with
    | none =>
      rw [types] at same
      cases same
    | some ty =>
      rw [types] at same
      cases ty <;> cases same
  · exact Ty.cls.inj (Value.object.inj same).1

namespace Engine

variable {environment : Environment} {before after : Progress} {id result : ClassId}
  {arguments : Arguments} {depth : Nat}

/-- Where no overload is pending, the constructor of a class that is given has been evaluated. -/
theorem specializeConstructed_of_settled (settled : before.store.NoOverloadIs .pending)
    (original : (before.store.classAt id).template = none)
    (returned : (Engine.atDepth depth).specialize id arguments environment before =
      .ok result after) : ∃ shallower, depth = shallower + 1 ∧
        (Engine.atDepth shallower).specializeConstructed id arguments environment before =
          .ok result after := by
  cases depth with
  | zero => cases returned
  | succ depth =>
    refine ⟨depth, rfl, ?_⟩
    change specializeClass (Engine.atDepth depth) id arguments environment before = _ at returned
    rw [specializeClass_of_original _ _ environment original] at returned
    rcases ensureConstructed_of_settled depth id environment settled with constructed | failed
    · rwa [bind_of_ok constructed] at returned
    · rw [bind_of_error failed] at returned
      cases returned

/-- A request gives the class itself, one that is stored or being made for its signature, or the
next class of the store. -/
theorem specializeConstructed_cases
    (returned : (Engine.atDepth depth).specializeConstructed id arguments environment before =
      .ok result after) :
    result = id ∨
      (before.store.classAt id).specializations.find? (before.store.signatureOf id arguments) =
        some result ∨
      unfinished? before.store id (before.store.signatureOf id arguments) = some result ∨
      result = before.store.nextClass := by
  rcases (Engine.atDepth depth).specializeConstructed_outcomes id arguments environment before with
    ⟨-, done⟩ | ⟨_, -, stored, done⟩ | ⟨_, -, -, unfinished, done⟩ |
      ⟨resolved, uncached, idle, made⟩
  · cases done.symm.trans returned
    exact .inl rfl
  · cases done.symm.trans returned
    exact .inr (.inl stored)
  · cases done.symm.trans returned
    exact .inr (.inr (.inl unfinished))
  · rw [made] at returned
    exact .inr (.inr (.inr (makeSpecialization_gives (atDepth_proceeds depth) id _ environment
      (hasClass_of_typeParameters resolved) uncached idle returned)))

/-- What is being made for the signature of a request is what it gives. -/
theorem specializeConstructed_of_unfinished {placeholder : ClassId}
    (resolved : (before.store.typeParameters id).all
      (before.store.evidenceOf id arguments).bindings.isUnresolved = false)
    (uncached : (before.store.classAt id).specializations.find?
      (before.store.signatureOf id arguments) = none)
    (unfinished : unfinished? before.store id (before.store.signatureOf id arguments) =
      some placeholder)
    (returned : (Engine.atDepth depth).specializeConstructed id arguments environment before =
      .ok result after) : result = placeholder := by
  rw [specializeConstructed_apply, if_neg (Bool.eq_false_iff.mp resolved), uncached,
    unfinished] at returned
  cases returned
  rfl

end Engine

/-- Progress while a specialization is made: since it was begun, its placeholder was given bases and
members, and caches were filled. -/
def Progress.Makes (start : Progress) (template : ClassId) (bindings : Bindings)
    (progress : Progress) : Prop :=
  Progress.Caches (some start.store.nextClass)
    { start with store := start.store.begin template bindings } progress

namespace Progress.Makes

variable {start progress : Progress} {template id : ClassId} {bindings : Bindings}
  (makes : start.Makes template bindings progress)

include makes

theorem settled (settled : start.store.NoOverloadIs .pending) :
    progress.store.NoOverloadIs .pending :=
  makes.stores.settled settled

/-- The placeholder is there. -/
theorem hasClass_placeholder : progress.store.HasClass start.store.nextClass :=
  Nat.lt_of_lt_of_le ((start.store.hasClass_begin template _ bindings).mpr (.inr rfl))
    makes.stores.grown

theorem placeholder_lt : start.store.nextClass.index < progress.store.classes.size :=
  makes.hasClass_placeholder

variable (present : start.store.HasClass template)
  (idle : Engine.unfinished? start.store template (start.store.signature bindings) = none)

include present idle

/-- A class that was there has gained what its cache has, and the template a place on its stack. -/
theorem gains (old : start.store.HasClass id) :
    (if id = template then
        { start.store.classAt id with
          unfinished := ⟨⟨(start.store.classAt template).hash, start.store.signature bindings,
            start.store.nextClass⟩ :: (start.store.classAt template).unfinished.entries⟩ }
      else start.store.classAt id).Gains (start.store.begin template bindings).classes.size
        (progress.store.classAt id) := by
  have apart := Store.ne_nextClass old
  have gains := makes.stores.gains id (fun same => apart (Option.some.inj same).symm)
    ((start.store.hasClass_begin template id bindings).mpr (.inl old))
  rwa [start.store.classAt_begin template id bindings present idle, if_neg apart] at gains

theorem keepsShapes : start.store.KeepsShapes progress.store where
  grown := Nat.le_of_lt makes.placeholder_lt
  shapes id old := by
    rw [(makes.gains present idle old).kept]
    split <;> rfl

theorem members (old : start.store.HasClass id) :
    (progress.store.classAt id).members = (start.store.classAt id).members := by
  rw [(makes.gains present idle old).kept]
  split <;> rfl

theorem typeHash {ty : Ty} (given : start.store.HasType ty) :
    progress.store.typeHash ty = start.store.typeHash ty := by
  cases ty with
  | cls id => exact ClassRecord.hash_of_shape ((makes.keepsShapes present idle).shapes id given)
  | function id =>
    have functions : progress.store.functions = start.store.functions := makes.stores.functions
    rw [Store.typeHash, Store.functionAt, functions]
    rfl
  | unknown | parameter _ | marker _ => rfl

theorem signature {others : Bindings} (given : ∀ ty ∈ others.types, start.store.HasType ty) :
    progress.store.signature others = start.store.signature others :=
  congrArg ResolvedSignature.mk (List.map_congr_left fun ty listed =>
    makes.typeHash present idle (given ty listed))

/-- The stack of the template has the placeholder on top. -/
theorem unfinished?_template (signature : ResolvedSignature) :
    Engine.unfinished? progress.store template signature =
      if start.store.signature bindings = signature then some start.store.nextClass
      else Engine.unfinished? start.store template signature := by
  have gains := makes.gains present idle present
  rw [if_pos rfl] at gains
  unfold Engine.unfinished?
  rw [gains.kept]
  exact Store.find?_cons _ _ _ _ rfl

/-- Nothing is stored for the signature meanwhile. -/
theorem uncached (uncached : (start.store.classAt template).specializations.find?
      (start.store.signature bindings) = none) :
    (progress.store.classAt template).specializations.find? (start.store.signature bindings) =
      none := by
  have gains := makes.gains present idle present
  rw [if_pos rfl] at gains
  refine (gains.reserved _ ?_).trans uncached
  rw [Store.find?_cons _ _ _ _ rfl, if_pos rfl]
  rfl

/-- What is stored was there before, or stands behind the placeholder. -/
theorem cached_ne (grounded : start.store.Tidy) {signature : ResolvedSignature}
    {finished : ClassId}
    (cached : (progress.store.classAt template).specializations.find? signature = some finished) :
    finished ≠ start.store.nextClass := by
  have gains := makes.gains present idle present
  rw [if_pos rfl] at gains
  obtain ⟨entries, further, new⟩ := gains.gained
  have listed := OrderedTable.mem_of_find? cached
  rw [further] at listed
  rintro rfl
  rcases List.mem_append.mp listed with earlier | later
  · exact start.store.not_hasClass_nextClass
      (grounded.finished template (signature, start.store.nextClass) earlier).present
  · exact absurd (new _ later) (Nat.not_le.mpr
      ((start.store.hasClass_begin template _ bindings).mpr (.inr rfl)))

/-- A plain object of the placeholder is one of a declared template, but for its class. -/
theorem newObject_placeholder (declared : start.store.IsOpenTemplate template) :
    progress.store.newObject start.store.nextClass =
      .object (.cls start.store.nextClass) .plain := by
  have drafts := makes.stores.drafts start.store.nextClass
    ((start.store.hasClass_begin template _ bindings).mpr (.inr rfl))
  rw [start.store.classAt_begin template _ bindings present idle, if_pos rfl] at drafts
  have named := Store.namedAfter_placeholderRecord start.store template bindings
  have builtin : (progress.store.classAt start.store.nextClass).builtin = none := by
    rw [drafts.builtin, named.builtin, declared.builtin]
  have flags : (progress.store.classAt start.store.nextClass).flags.typeOfType = false := by
    rw [drafts.flags, named.flags, declared.flags]
    rfl
  unfold Store.newObject
  dsimp only
  rw [flags, builtin]
  rfl

variable {depth : Nat} {environment : Environment} {after : Progress} {result : ClassId}
  (settled : start.store.NoOverloadIs .pending) (declared : start.store.IsOpenTemplate template)
  (based : start.store.HasBases template)
  (distinct : Distinct (start.store.typeParameters template))
  (keys : bindings.keys = start.store.typeParameters template)
  (resolved : (start.store.typeParameters template).all bindings.isUnresolved = false)
  (given : ∀ ty ∈ bindings.types, start.store.HasType ty)
  (returned : (Engine.atDepth depth).substituteClass bindings template environment progress =
    .ok result after)

include settled declared based resolved returned in
/-- Where its bindings are to be substituted in the template, it is asked for again. -/
theorem requests : progress.store.IsOpenTemplate template ∧
    progress.store.typeParameters template = start.store.typeParameters template ∧
    ∃ shallower, (Engine.atDepth shallower).specializeConstructed template
      (.ofTypes (progress.store.selfRequest template bindings) .unknown) environment progress =
        .ok result after := by
  have keeps := makes.keepsShapes present idle
  have still := declared.keep keeps present based
  have parameters := keeps.typeParameters present based
  rw [Engine.substituteClass_self _ still (parameters.symm ▸ resolved)] at returned
  obtain ⟨shallower, -, answered⟩ :=
    Engine.specializeConstructed_of_settled (makes.settled settled) still.original returned
  exact ⟨still, parameters, shallower, answered⟩

include settled declared based distinct keys resolved given returned in
/-- Where the bindings are known, the request gives the placeholder. -/
theorem gives_placeholder
    (uncached : (start.store.classAt template).specializations.find?
      (start.store.signature bindings) = none)
    (unchained : bindings.Unchained) (apart : start.store.typeHash (.cls template) ≠ .unknown)
    (known : ∀ ty ∈ bindings.types, ty.isUnknown = false) : result = start.store.nextClass := by
  obtain ⟨still, parameters, shallower, answered⟩ :=
    makes.requests present idle settled declared based resolved returned
  have there : start.store.HasType (.cls template) := present
  rw [← parameters] at distinct keys resolved
  rw [← makes.typeHash present idle there] at apart
  have asked : progress.store.signatureOf template
      (.ofTypes (progress.store.selfRequest template bindings) .unknown) =
        start.store.signature bindings := by
    rw [Store.signatureOf_selfRequest still distinct keys apart known unchained,
      makes.signature present idle given]
  refine Engine.specializeConstructed_of_unfinished
    (Store.resolved_selfRequest still distinct keys apart known unchained resolved .unknown)
    ?_ ?_ answered
  · rw [asked]
    exact makes.uncached present idle uncached
  · rw [asked, makes.unfinished?_template present idle, if_pos rfl]

include settled declared based distinct keys resolved given returned in
/-- Where a parameter is bound to the unknown type, it gives another class. -/
theorem gives_other (tidy : start.store.Tidy)
    (named : ∀ ty ∈ .cls template :: (start.store.typeParameters template).map .parameter ++
      bindings.types, ty.isUnknown = false → start.store.typeHash ty ≠ .unknown)
    (unknown : .unknown ∈ bindings.types) : result ≠ start.store.nextClass := by
  obtain ⟨still, parameters, shallower, answered⟩ :=
    makes.requests present idle settled declared based resolved returned
  have there {ty : Ty} (listed : ty ∈ .cls template ::
      (start.store.typeParameters template).map .parameter ++ bindings.types) :
      start.store.HasType ty := by
    rcases List.mem_append.mp listed with first | bound
    · rcases List.mem_cons.mp first with rfl | among
      · exact present
      · obtain ⟨parameter, -, rfl⟩ := List.mem_map.mp among
        trivial
    · exact given ty bound
  have stillNamed : ∀ ty ∈ .cls template ::
      (progress.store.typeParameters template).map .parameter ++ bindings.types,
        ty.isUnknown = false → progress.store.typeHash ty ≠ .unknown := by
    intro ty listed known
    rw [parameters] at listed
    rw [makes.typeHash present idle (there listed)]
    exact named ty listed known
  rw [← parameters] at distinct keys
  have other := Store.signatureOf_selfRequest_ne still distinct keys stillNamed unknown .unknown
  rw [makes.signature present idle given] at other
  rcases Engine.specializeConstructed_cases answered with rfl | cached | unfinished | rfl
  · exact Store.ne_nextClass present
  · exact makes.cached_ne present idle tidy cached
  · rw [makes.unfinished?_template present idle, if_neg other.symm] at unfinished
    obtain ⟨entry, found, rfl⟩ := Option.map_eq_some_iff.mp unfinished
    exact Store.ne_nextClass
      (tidy.unfinished template entry (List.mem_of_find?_eq_some found)).1.present
  · exact fun same => progress.store.not_hasClass_nextClass
      (same.symm ▸ makes.hasClass_placeholder)

include settled declared based distinct keys resolved given returned in
/-- So the placeholder is what comes of the template where all types that are bound are known, and
nowhere else. -/
theorem gives_placeholder_iff
    (uncached : (start.store.classAt template).specializations.find?
      (start.store.signature bindings) = none)
    (unchained : bindings.Unchained) (tidy : start.store.Tidy)
    (named : ∀ ty ∈ .cls template :: (start.store.typeParameters template).map .parameter ++
      bindings.types, ty.isUnknown = false → start.store.typeHash ty ≠ .unknown) :
    result = start.store.nextClass ↔ ∀ ty ∈ bindings.types, ty.isUnknown = false := by
  constructor
  · intro placeholder ty listed
    refine Bool.eq_false_iff.mpr fun unknown => ?_
    cases ty with
    | unknown =>
      exact makes.gives_other present idle settled declared based distinct keys resolved given
        returned tidy named listed placeholder
    | cls _ | parameter _ | function _ | marker _ => cases unknown
  · exact makes.gives_placeholder present idle settled declared based distinct keys resolved given
      returned uncached unchained
      (named _ (List.mem_append_left _ List.mem_cons_self) rfl)

end Progress.Makes

namespace Engine

variable {environment : Environment} {bindings : Bindings}

/-- A substitution fills caches only. -/
theorem substitute_caches (depth : Nat) (bindings : Bindings) (value : Value) :
    ((Engine.atDepth depth).substitute bindings value).Caches none := by
  have substitutes := substitutes_caching (atDepth_caching depth) none bindings
  exact substitute_holds substitutes (within_every value)

theorem substituteBases_caches (depth : Nat) (bindings : Bindings) (bases : List Ty)
    (making : Option ClassId) :
    ((Engine.atDepth depth).substituteBases bindings bases).Caches making := by
  have substitutes := substitutes_caching (atDepth_caching depth) making bindings
  exact substituteBases_holds substitutes (within_every bases)

/-- Members that are copied are what comes of them, at some time, where the bindings are
substituted, and other members stay. The induction is on the members. -/
theorem copyMembers_gives {depth : Nat} {target : ClassId} {members : List (String × Value)}
    (distinct : (members.map (·.1)).Nodup) : ∀ {start before after : Progress},
      before.store.NoOverloadIs .pending → before.store.HasClass target →
      start.Caches (some target) before →
      (Engine.atDepth depth).copyMembers bindings target members environment before =
        .ok () after →
      (∀ name, name ∉ members.map (·.1) →
        after.store.ownMember? target name = before.store.ownMember? target name) ∧
      ∀ name value, (name, value) ∈ members → ∃ moment later found,
        start.Caches (some target) moment ∧ start.Caches (some target) later ∧
        (Engine.atDepth depth).substitute bindings value environment moment = .ok found later ∧
        after.store.ownMember? target name = some found := by
  induction members with
  | nil =>
    rintro start before _ - - - ⟨⟩
    exact ⟨fun _ _ => rfl, nofun⟩
  | cons member rest inductionHypothesis =>
    obtain ⟨name, value⟩ := member
    obtain ⟨apart, others⟩ := List.nodup_cons.mp distinct
    intro start before after settled present caches copied
    obtain ⟨replaced, middle, substituted, continued⟩ := bind_eq_ok.mp copied
    obtain ⟨_, set, given, further⟩ := bind_eq_ok.mp continued
    cases given
    have filled := (substitute_caches depth bindings value).of_ok settled substituted
    have still := Nat.lt_of_lt_of_le present filled.stores.grown
    have added := Progress.Caches.addMember middle target name replaced true
    obtain ⟨kept, gives⟩ := inductionHypothesis others
      (added.stores.settled (filled.stores.settled settled))
      (Nat.lt_of_lt_of_le still added.stores.grown) ((caches.trans filled.relax).trans added) further
    have set (asked : String) : (middle.store.addMember target name replaced true).2.ownMember?
        target asked = if name = asked then some replaced else before.store.ownMember? target asked := by
      have same : middle.store.ownMember? target asked = before.store.ownMember? target asked := by
        rw [Store.ownMember?, (filled.stores.all present).kept]
        rfl
      rw [Store.ownMember?_addMember, same]
      simp only [true_and, or_true, and_true]
      exact if_congr ⟨And.right, fun equal => ⟨still, equal⟩⟩ rfl rfl
    refine ⟨fun asked absent => ?_, fun asked original listed => ?_⟩
    · rw [List.map_cons, List.mem_cons, not_or] at absent
      rw [kept asked absent.2, set asked, if_neg (Ne.symm absent.1)]
    · rcases List.mem_cons.mp listed with same | among
      · cases same
        refine ⟨before, middle, replaced, caches, caches.trans filled.relax, substituted, ?_⟩
        rw [kept _ apart, set, if_pos rfl]
      · exact gives asked original among

/-- A member of a specialization is what came of that of its template when the bindings were
substituted in it, at some time while the specialization was made. -/
theorem makeSpecialization_members {depth : Nat} {template specialized : ClassId}
    {evidence : Evidence} {before after : Progress}
    (settled : before.store.NoOverloadIs .pending) (present : before.store.HasClass template)
    (members : (before.store.classAt template).members.keys.Nodup)
    (uncached : (before.store.classAt template).specializations.find?
      (before.store.signature evidence.bindings) = none)
    (idle : unfinished? before.store template (before.store.signature evidence.bindings) = none)
    (returned : (Engine.atDepth depth).makeSpecialization template evidence environment before =
      .ok specialized after) {name : String} {value : Value}
    (own : before.store.ownMember? template name = some value)
    (proper : name ∉ structuralMembers) :
    specialized = before.store.nextClass ∧ ∃ moment later found,
      before.Makes template evidence.bindings moment ∧
      before.Makes template evidence.bindings later ∧
      (Engine.atDepth depth).substitute evidence.bindings value environment moment =
        .ok found later ∧
      after.store.ownMember? specialized name = some found := by
  have itself := makeSpecialization_gives (atDepth_proceeds depth) template evidence environment
    present uncached idle returned
  refine ⟨itself, ?_⟩
  rw [itself]
  rw [makeSpecialization_apply, materialize_apply] at returned
  cases based : (Engine.atDepth depth).substituteBases evidence.bindings
      ((before.store.begin template evidence.bindings).classAt template).bases environment
      { before with store := before.store.begin template evidence.bindings } with
  | error failure left =>
    rw [based] at returned
    cases returned
  | ok common middle =>
    rw [based] at returned
    dsimp only at returned
    have specialized : before.Makes template evidence.bindings middle :=
      (substituteBases_caches depth _ _ (some before.store.nextClass)).of_ok settled based
    have derived : before.Makes template evidence.bindings
        { middle with
          store := middle.store.setBases before.store.nextClass
            (evidence.bases.foldl (addDiscovered middle.store) common) } :=
      specialized.trans ⟨.modifyClass _ _ fun _ => rfl, rfl, rfl, rfl⟩
    cases copied : (Engine.atDepth depth).copyAll evidence.bindings template
        before.store.nextClass environment
        { middle with
          store := middle.store.setBases before.store.nextClass
            (evidence.bases.foldl (addDiscovered middle.store) common) } with
    | error failure left =>
      rw [copied] at returned
      cases returned
    | ok _ final =>
      rw [copied] at returned
      cases returned
      unfold copyAll at copied
      rw [bind_apply, store_apply] at copied
      dsimp only at copied
      rw [derived.members present idle present] at copied
      have listed : (name, value) ∈ (before.store.classAt template).members.entries.filter
          fun member => !structuralMembers.contains member.1 :=
        List.mem_filter.mpr ⟨OrderedTable.mem_of_find? own, by simpa using proper⟩
      obtain ⟨-, gives⟩ := copyMembers_gives ((List.filter_sublist.map _).nodup members)
        (derived.settled settled) derived.hasClass_placeholder derived copied
      obtain ⟨moment, later, found, one, other, substituted, member⟩ := gives name value listed
      refine ⟨moment, later, found, one, other, substituted, ?_⟩
      have apart := Store.ne_nextClass present
      rw [Store.ownMember?, Store.classAt_finish, if_neg fun both => apart both.1.symm]
      exact member

section SelfReference

variable {depth : Nat} {bindings : Bindings} {id : ClassId} {before after : Progress}
  {result : Value}

/-- What comes of a plain object of a class when bindings are substituted in it. -/
theorem substitute_object
    (substituted : (Engine.atDepth depth).substitute bindings (.object (.cls id) .plain) environment
      before = .ok result after) : ∃ specialized,
      (Engine.atDepth depth).substituteClass bindings id environment before =
        .ok specialized after ∧
      result = if specialized = id then .object (.cls id) .plain
        else after.store.newObject specialized := by
  rw [substitute] at substituted
  obtain ⟨specialized, middle, replaced, given⟩ := bind_eq_ok.mp substituted
  dsimp only at given
  refine ⟨specialized, ?_⟩
  split at given
  · next same =>
    cases given
    exact ⟨replaced, (if_pos same).symm⟩
  · next apart =>
    cases given
    exact ⟨replaced, (if_neg apart).symm⟩

/-- What comes of a class itself. -/
theorem substitute_type
    (substituted : (Engine.atDepth depth).substitute bindings (.type (.cls id)) environment
      before = .ok result after) : ∃ specialized,
      (Engine.atDepth depth).substituteClass bindings id environment before =
        .ok specialized after ∧ result = .type (.cls specialized) := by
  rw [substitute] at substituted
  obtain ⟨ty, middle, replaced, given⟩ := bind_eq_ok.mp substituted
  obtain ⟨specialized, last, found, same⟩ := bind_eq_ok.mp replaced
  cases same
  cases given
  exact ⟨specialized, found, rfl⟩

end SelfReference

open TypeParameter in
/-- Self-reference ties the knot where no parameter is bound to the unknown type, and nowhere else.
Let no overload be pending, and let a class with different type parameters, as its declaration left
it (`declareClass_isOpenTemplate`, `Store.IsOpenTemplate.keep`), be specialized to arguments that
ask for what it neither has nor is making. Let them bind no parameter to another one, and let the
identities of the types involved be none of the unknown type. A member of the class that is a plain
object of it becomes a plain object of the specialization, and a member that is the class itself
becomes the specialization, if and only if all types that were bound are known.

Proof: a member of the specialization is what substitution gave while the specialization was made
(`makeSpecialization_members`). Where the bindings are known the class is asked for the signature
that is being made, and its placeholder is the answer (`Progress.Makes.gives_placeholder`).
Otherwise it is asked for another one, for which there is no answer that is new
(`Progress.Makes.gives_other`). -/
theorem self_reference_tied_iff {depth : Nat} {template specialized : ClassId}
    {arguments : Arguments} {before after : Progress} (grounded : before.Grounded environment)
    (settled : before.store.NoOverloadIs .pending)
    (declared : before.store.IsOpenTemplate template)
    (distinct : Distinct (before.store.typeParameters template))
    (given : Within grounded.references arguments)
    (anew : before.store.AsksAnew template arguments)
    (unchained : (before.store.evidence template arguments).bindings.Unchained)
    (named : ∀ ty ∈ .cls template :: (before.store.typeParameters template).map .parameter ++
      (before.store.evidence template arguments).bindings.types,
        ty.isUnknown = false → before.store.typeHash ty ≠ .unknown)
    (returned : (Engine.atDepth depth).specialize template arguments environment before =
      .ok specialized after) {name : String} (proper : name ∉ structuralMembers) :
    let known := ∀ ty ∈ (before.store.evidence template arguments).bindings.types,
      ty.isUnknown = false
    (before.store.ownMember? template name = some (.object (.cls template) .plain) →
      (after.store.ownMember? specialized name = some (.object (.cls specialized) .plain) ↔
        known)) ∧
    (before.store.ownMember? template name = some (.type (.cls template)) →
      (after.store.ownMember? specialized name = some (.type (.cls specialized)) ↔ known)) := by
  intro known
  obtain ⟨shallower, -, answered⟩ := specializeConstructed_of_settled settled anew.original returned
  have asked : before.store.signatureOf template arguments =
      before.store.signature (before.store.evidence template arguments).bindings := rfl
  have shown : before.store.evidenceOf template arguments =
      before.store.evidence template arguments := rfl
  rw [specializeConstructed_apply, asked, shown, if_neg (Bool.eq_false_iff.mp anew.resolved),
    anew.uncached, anew.idle] at answered
  dsimp only at answered
  have present : before.store.HasClass template :=
    hasClass_of_typeParameters anew.resolved
  have there : ∀ ty ∈ (before.store.evidence template arguments).bindings.types,
      before.store.HasType ty := fun ty listed =>
    Store.hasType_of_within (fun _ has => has) ((within_ofArguments _ given).1 ty listed)
  have tied {moment later : Progress} {result : ClassId}
      (makes : before.Makes template (before.store.evidence template arguments).bindings moment)
      (replaced : (Engine.atDepth shallower).substituteClass
        (before.store.evidence template arguments).bindings template environment moment =
          .ok result later) : result = before.store.nextClass ↔ known :=
    makes.gives_placeholder_iff present anew.idle settled declared (grounded.hasBases template)
      distinct (Evidence.keys_ofArguments ..) anew.resolved there replaced anew.uncached unchained
      grounded.tidy named
  have members {value : Value} (own : before.store.ownMember? template name = some value) :=
    makeSpecialization_members settled present (grounded.distinct template) anew.uncached anew.idle
      answered own proper
  constructor
  · intro own
    obtain ⟨rfl, moment, later, found, one, other, substituted, member⟩ := members own
    obtain ⟨result, replaced, rfl⟩ := substitute_object substituted
    rw [member, Option.some.injEq, ← tied one replaced]
    constructor
    · intro same
      split at same
      · next equal => exact equal.trans (Ty.cls.inj (Value.object.inj same).1)
      · exact Store.eq_of_newObject same
    · rintro rfl
      rw [if_neg (Store.ne_nextClass present).symm]
      exact other.newObject_placeholder present anew.idle declared
  · intro own
    obtain ⟨rfl, moment, later, found, one, -, substituted, member⟩ := members own
    obtain ⟨result, replaced, rfl⟩ := substitute_type substituted
    rw [member, Option.some.injEq, ← tied one replaced, Value.type.injEq, Ty.cls.injEq]

end Engine

namespace Analyzer

open TypeParameter

/-- A module with a generic class that has an object of itself, and itself, as members. -/
def linkedModule : Module :=
  ⟨[.typeVariable "T",
    .defineClass 1 "Stack" [.indexed "List" "T"]
      [.annotated (.ofName "next") (.ofName "Stack") none .unknown,
        .define "kind" (.ofName "Stack")]]⟩

/-- The progress of a fresh analyzer after that module. -/
def linked : Progress :=
  (Analysis.ofModule linkedModule).after Registry.environment Registry.start

/-- The class of the module. -/
def linkedClass : ClassId :=
  Registry.standard.store.nextClass

/-- The next class that is made of it. -/
def linkedSpecialized : ClassId :=
  linked.store.nextClass

/-- The class specialized to what a constructor is given. -/
def linkedTo (values : List Value) : Analysis ClassId :=
  (Engine.atDepth Engine.depthLimit).specialize linkedClass (.ofValues values .unknown)

/-- What arguments bind its type parameter to. -/
def linkedTypes (values : List Value) : List Ty :=
  (linked.store.evidence linkedClass (.ofValues values .unknown)).bindings.types

/-- The class of a plain object. -/
def plainClass? : Value → Option ClassId
  | .object (.cls id) .plain => some id
  | _ => none

/-- The class that a value is. -/
def classItself? : Value → Option ClassId
  | .type (.cls id) => some id
  | _ => none

/-- A plain object is known by its class. -/
theorem eq_of_plainClass? {found : Option Value} {id : ClassId}
    (plain : found.bind plainClass? = some id) : found = some (.object (.cls id) .plain) := by
  obtain ⟨value, rfl, isPlain⟩ := Option.bind_eq_some_iff.mp plain
  unfold plainClass? at isPlain
  split at isPlain
  · cases isPlain
    rfl
  · cases isPlain

/-- A list of what is an integer or a text. -/
def sampledUnion : Value :=
  .object (Store.builtinType .list) (.sequence
    ⟨[.union [Store.constantObject (.int 1), Store.constantObject (.str "s")]], false⟩)

/-- A list of an integer binds the type parameter to integers, and what is linked is of the
specialization. -/
theorem self_reference_tied_integers :
    linked.store.NoOverloadIs .pending ∧
      linked.store.AsksAnew linkedClass (.ofValues [sampledIntegers] .unknown) ∧
      (linkedTypes [sampledIntegers]).map Ty.asClass? = [some (Store.builtinClass .int)] ∧
      linked.store.ownMember? linkedClass "next" = some (.object (.cls linkedClass) .plain) ∧
      ((linkedTo [sampledIntegers]).after Registry.environment linked).store.ownMember?
        linkedSpecialized "next" = some (.object (.cls linkedSpecialized) .plain) := by
  have grounded : linked.Grounded Registry.environment :=
    ((Progress.Grounded.initial {}).after_ofModuleWithin Engine.depthLimit linkedModule).2
  obtain ⟨settled, declared, distinct, anew, named, types⟩ :
      linked.store.NoOverloadIs .pending ∧ linked.store.IsOpenTemplate linkedClass ∧
      Distinct (linked.store.typeParameters linkedClass) ∧
      linked.store.AsksAnew linkedClass (.ofValues [sampledIntegers] .unknown) ∧
      (∀ ty ∈ .cls linkedClass :: (linked.store.typeParameters linkedClass).map .parameter ++
        linkedTypes [sampledIntegers],
          ty.isUnknown = false → linked.store.typeHash ty ≠ .unknown) ∧
      (linkedTypes [sampledIntegers]).map Ty.asClass? = [some (Store.builtinClass .int)] := by
    decide +kernel
  have integers : linkedTypes [sampledIntegers] = [Store.builtinType .int] :=
    Engine.types_of_classes [Store.builtinClass .int] types
  have unchained : (linked.store.evidence linkedClass
      (.ofValues [sampledIntegers] .unknown)).bindings.Unchained := by
    intro parameter target found
    have listed : .parameter target ∈ linkedTypes [sampledIntegers] :=
      Bindings.mem_types_of_find? found
    rw [integers] at listed
    cases List.mem_singleton.mp listed
  have own : linked.store.ownMember? linkedClass "next" =
      some (.object (.cls linkedClass) .plain) := eq_of_plainClass? (by decide +kernel)
  have given : Refers.Within grounded.references [sampledIntegers] :=
    (within_cons _ _).mpr ⟨(within_sequence _ _ _).mpr ⟨grounded.builtin .list,
      (within_cons _ _).mpr ⟨within_constantObject _, within_nil⟩⟩, within_nil⟩
  have returned : linkedTo [sampledIntegers] Registry.environment linked = .ok linkedSpecialized
      ((linkedTo [sampledIntegers]).after Registry.environment linked) :=
    ok_of_yields (by decide +kernel)
  have tied := (Engine.self_reference_tied_iff grounded settled declared distinct
    (within_ofValues given .unknown) anew unchained named returned (by decide)).1 own
  have known : ∀ ty ∈ linkedTypes [sampledIntegers], ty.isUnknown = false := by
    rw [integers]
    exact fun ty listed => List.mem_singleton.mp listed ▸ rfl
  exact ⟨settled, anew, types, own, tied.mpr known⟩

/-- The knot is not always tied. A list of what is an integer or a text binds the type parameter to
the unknown type, and what is linked stays what it was. -/
theorem self_reference_untied :
    let after := ((linkedTo [sampledUnion]).after Registry.environment linked).store
    linked.store.NoOverloadIs .pending ∧ Distinct (linked.store.typeParameters linkedClass) ∧
      linked.store.AsksAnew linkedClass (.ofValues [sampledUnion] .unknown) ∧
      (linkedTo [sampledUnion]).yields Registry.environment linked linkedSpecialized = true ∧
      (∀ ty ∈ linkedTypes [sampledUnion], ty.asParameter? = none) ∧
      (linked.store.ownMember? linkedClass "next").bind plainClass? = some linkedClass ∧
      (linked.store.ownMember? linkedClass "kind").bind classItself? = some linkedClass ∧
      (after.ownMember? linkedSpecialized "next").bind plainClass? = some linkedClass ∧
      (after.ownMember? linkedSpecialized "kind").bind classItself? = some linkedClass ∧
      linkedClass ≠ linkedSpecialized := by
  decide +kernel

end Analyzer

end TypeInference
