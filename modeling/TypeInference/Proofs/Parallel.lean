import TypeInference.Proofs.Placeholder

/-!
# Parallel stores

Two runs that differ in the bases of one class only go on in parallel: they create the same
classes with the same members, although the order along which members are looked up may
differ wherever that class is reached. They stay in parallel as long as they read bases and
parameters of earlier classes only, and that is what a specialization does, since the
records of earlier classes refer to earlier classes.
-/

namespace TypeInference

namespace Value

mutual

/-- The classes that a value refers to. -/
def classes : Value → List ClassId
  | .unknown => []
  | .type ty => ty.asClass?.toList
  | .union alternatives => classesOfAll alternatives
  | .object ty .plain => ty.asClass?.toList
  | .object ty (.constant _) => ty.asClass?.toList
  | .object ty (.sequence ⟨items, _⟩) => ty.asClass?.toList ++ classesOfAll items
  | .object ty (.mapping ⟨entries, _⟩) => ty.asClass?.toList ++ classesOfEntries entries
  | .object ty (.iterator element) => ty.asClass?.toList ++ classes element

/-- The classes that several values refer to. -/
def classesOfAll : List Value → List ClassId
  | [] => []
  | value :: rest => classes value ++ classesOfAll rest

/-- The classes that the entries of a mapping refer to. -/
def classesOfEntries : List (Value × Value) → List ClassId
  | [] => []
  | (key, value) :: rest => classes key ++ classes value ++ classesOfEntries rest

end

end Value

namespace ClassRecord

/-- The classes that a class refers to: its template, its bases, and those of its members. -/
def referents (record : ClassRecord) : List ClassId :=
  record.template.toList ++ record.baseClasses
    ++ record.members.entries.flatMap fun member => member.2.classes

/-- A class without what it derives from. -/
def underived (record : ClassRecord) : ClassRecord :=
  { record with bases := [], resolutionOrder := [] }

/-- What specializations do not change about a class that was there before. The order is
left out since nothing here reads it. -/
def lasting (record : ClassRecord) : ClassRecord :=
  { record with resolutionOrder := [], specializations := {}, unfinished := {} }

end ClassRecord

namespace Store

/-- The classes of the store refer to classes of the store only. -/
def Closed (store : Store) : Prop :=
  ∀ record ∈ store.classes, ∀ id ∈ record.referents, store.HasClass id

instance (store : Store) : Decidable store.Closed :=
  inferInstanceAs (Decidable (∀ record ∈ store.classes, _))

/-- What the record at any place refers to is in the store. -/
theorem Closed.hasClass {store : Store} (closed : store.Closed) (id : ClassId) {other : ClassId}
    (referred : other ∈ (store.classAt id).referents) : store.HasClass other := by
  unfold classAt at referred
  cases found : store.classes[id.index]? with
  | none =>
    rw [found] at referred
    cases referred
  | some record =>
    rw [found] at referred
    exact closed record (Array.mem_of_getElem? found) other referred

/-- Two stores that come from an origin and differ in the bases of one later class, and in
the orders that depend on them. -/
structure Parallel (origin : Store) (made : ClassId) (bases : List Ty × List Ty)
    (first second : Store) : Prop where
  functions : first.functions = origin.functions
  sameFunctions : second.functions = origin.functions
  grown : origin.classes.size ≤ first.classes.size
  sameSize : second.classes.size = first.classes.size
  lasting : ∀ id, origin.HasClass id → (first.classAt id).lasting = (origin.classAt id).lasting
  alike : ∀ id, (second.classAt id).underived = (first.classAt id).underived
  sameBases : ∀ id, id ≠ made → (second.classAt id).bases = (first.classAt id).bases
  later : ¬origin.HasClass made
  present : first.HasClass made
  bases : ((first.classAt made).bases, (second.classAt made).bases) = bases

namespace Parallel

variable {origin first second : Store} {made : ClassId} {bases : List Ty × List Ty}

/-- A class of the origin is a class of the first store. -/
theorem hasClass (parallel : Parallel origin made bases first second) {id : ClassId}
    (old : origin.HasClass id) : first.HasClass id :=
  Nat.lt_of_lt_of_le old parallel.grown

/-- A class of the one store is one of the other. -/
theorem hasClass_iff (parallel : Parallel origin made bases first second) (id : ClassId) :
    second.HasClass id ↔ first.HasClass id := by
  unfold HasClass
  rw [parallel.sameSize]

/-- The next class is the same in both. -/
theorem nextClass (parallel : Parallel origin made bases first second) :
    second.nextClass = first.nextClass :=
  congrArg ClassId.mk parallel.sameSize

/-- What does not depend on bases is read alike from both. -/
theorem reads {α : Type} (parallel : Parallel origin made bases first second)
    (part : ClassRecord → α) (blind : ∀ record : ClassRecord, part record.underived = part record)
    (id : ClassId) : part (second.classAt id) = part (first.classAt id) := by
  rw [← blind, parallel.alike id, blind]

/-- What specializations do not change about a class of the origin is read from it. -/
theorem readsLasting {α : Type} (parallel : Parallel origin made bases first second)
    (part : ClassRecord → α) (blind : ∀ record : ClassRecord, part record.lasting = part record)
    {id : ClassId} (old : origin.HasClass id) :
    part (first.classAt id) = part (origin.classAt id) := by
  rw [← blind, parallel.lasting id old, blind]

/-- The bases of a class of the origin are the same in both. -/
theorem basesOf (parallel : Parallel origin made bases first second) {id : ClassId}
    (old : origin.HasClass id) : (second.classAt id).bases = (first.classAt id).bases :=
  parallel.sameBases id fun same => parallel.later (same ▸ old)

/-- The bases of a class of the origin are classes of the origin. -/
theorem hasClass_base (parallel : Parallel origin made bases first second)
    (closed : origin.Closed) {id base : ClassId} (old : origin.HasClass id)
    (among : base ∈ (first.classAt id).baseClasses) : origin.HasClass base := by
  rw [parallel.readsLasting (·.baseClasses) (fun _ => rfl) old] at among
  exact closed.hasClass id (by simp [ClassRecord.referents, among])

/-- The template of a class of the origin is a class of the origin. -/
theorem hasClass_templateOf (parallel : Parallel origin made bases first second)
    (closed : origin.Closed) {id : ClassId} (old : origin.HasClass id) :
    origin.HasClass (first.templateOf id) := by
  unfold Store.templateOf
  rw [parallel.readsLasting (·.template) (fun _ => rfl) old]
  cases made : (origin.classAt id).template with
  | none => exact old
  | some template => exact closed.hasClass id (by simp [ClassRecord.referents, made])

/-- Types have the same identity. -/
theorem typeHash (parallel : Parallel origin made bases first second) :
    second.typeHash = first.typeHash := by
  funext ty
  cases ty with
  | cls id => exact parallel.reads (·.hash) (fun _ => rfl) id
  | function id =>
    change (second.functionAt id).hash = (first.functionAt id).hash
    rw [functionAt, functionAt, parallel.functions, parallel.sameFunctions]
  | _ => rfl

/-- Types are the same in both stores if they are in one of them. -/
theorem sameType (parallel : Parallel origin made bases first second) :
    second.sameType = first.sameType := by
  funext one other
  rw [Store.sameType, Store.sameType, parallel.typeHash]

/-- Types have the same nature. -/
theorem builtin? (parallel : Parallel origin made bases first second) :
    second.builtin? = first.builtin? := by
  funext ty
  cases ty with
  | cls id => exact parallel.reads (·.builtin) (fun _ => rfl) id
  | _ => rfl

/-- Bindings have the same signature. -/
theorem signature (parallel : Parallel origin made bases first second) :
    second.signature = first.signature := by
  funext bindings
  rw [Store.signature, Store.signature, parallel.typeHash]

/-- A class has the same template. -/
theorem templateOf (parallel : Parallel origin made bases first second) :
    second.templateOf = first.templateOf := by
  funext id
  exact congrArg (Option.getD · id) (parallel.reads (·.template) (fun _ => rfl) id)

/-- A class has the same object. -/
theorem newObject (parallel : Parallel origin made bases first second) :
    second.newObject = first.newObject := by
  funext id
  unfold Store.newObject
  simp only [parallel.reads (·.parameters) (fun _ => rfl) id,
    parallel.reads (·.flags) (fun _ => rfl) id, parallel.reads (·.builtin) (fun _ => rfl) id,
    parallel.reads (·.hasArguments) (fun _ => rfl) id]

mutual

/-- A value has the same type. -/
theorem typeOf (parallel : Parallel origin made bases first second) :
    ∀ value, second.typeOf value = first.typeOf value
  | .unknown => rfl
  | .type _ => rfl
  | .object _ _ => rfl
  | .union alternatives => by
    rw [Store.typeOf, Store.typeOf, parallel.typesOf alternatives, parallel.sameType]

/-- Several values have the same types. -/
theorem typesOf (parallel : Parallel origin made bases first second) :
    ∀ values, second.typesOf values = first.typesOf values
  | [] => rfl
  | value :: rest => by
    rw [Store.typesOf, Store.typesOf, parallel.typeOf value, parallel.typesOf rest]

end

/-- Values have the same union. -/
theorem union (parallel : Parallel origin made bases first second) :
    second.union = first.union := by
  have sameKey (value : Value) : second.unionKey value = first.unionKey value := by
    rw [unionKey, unionKey, parallel.typeOf, parallel.typeHash]
  have sameStep : second.addAlternative = first.addAlternative := by
    funext known value
    simp only [addAlternative, sameKey]
  funext values
  rw [Store.union, Store.union, sameStep]

/-- A class of the origin is generic in both stores or in none. The induction is on the depth
to which bases are followed, which stay in the origin. -/
theorem isGeneric (parallel : Parallel origin made bases first second) (closed : origin.Closed)
    {id : ClassId} (old : origin.HasClass id) : second.isGeneric id = first.isGeneric id := by
  have within (depth : Nat) : ∀ entered id, origin.HasClass id →
      second.isGenericWithin depth entered id = first.isGenericWithin depth entered id := by
    induction depth with
    | zero => exact fun _ _ _ => rfl
    | succ depth inductionHypothesis =>
      intro entered id old
      have sameClasses : (second.classAt id).baseClasses = (first.classAt id).baseClasses :=
        congrArg (List.filterMap Ty.asClass?) (parallel.basesOf old)
      have deeper : (first.classAt id).baseClasses.any
            (second.isGenericWithin depth (id :: entered)) =
          (first.classAt id).baseClasses.any (first.isGenericWithin depth (id :: entered)) := by
        rw [Bool.eq_iff_iff, List.any_eq_true, List.any_eq_true]
        refine exists_congr fun base => and_congr_right fun among => ?_
        rw [inductionHypothesis _ base (parallel.hasClass_base closed old among)]
      simp only [isGenericWithin, sameClasses, deeper,
        parallel.reads (·.openParameters) (fun _ => rfl) id]
  rw [Store.isGeneric, Store.isGeneric, parallel.sameSize]
  exact within _ [] id old

/-- A class of the origin has the same parameters. -/
theorem typeParameters (parallel : Parallel origin made bases first second)
    {id : ClassId} (old : origin.HasClass id) :
    second.typeParameters id = first.typeParameters id := by
  have sameMarker : (second.classAt id).explicitParameters? =
      (first.classAt id).explicitParameters? :=
    congrArg (List.findSome? Ty.asMarker?) (parallel.basesOf old)
  have sameClasses : (second.classAt id).baseClasses = (first.classAt id).baseClasses :=
    congrArg (List.filterMap Ty.asClass?) (parallel.basesOf old)
  simp only [Store.typeParameters, sameMarker, sameClasses,
    parallel.reads (·.openParameters) (fun _ => rfl)]

/-- A value shows the same through the bases of a template of the origin. -/
theorem sampleBases? (parallel : Parallel origin made bases first second)
    (closed : origin.Closed) {template : ClassId} (old : origin.HasClass template)
    (evidence : Evidence) (value : Value) :
    evidence.sampleBases? second template value = evidence.sampleBases? first template value := by
  have sameClasses : (second.classAt template).baseClasses =
      (first.classAt template).baseClasses :=
    congrArg (List.filterMap Ty.asClass?) (parallel.basesOf old)
  have sameStructure : Evidence.sameStructure second = Evidence.sameStructure first := by
    funext base found
    simp only [Evidence.sameStructure, parallel.templateOf,
      parallel.reads (·.builtin) (fun _ => rfl), parallel.reads (·.hash) (fun _ => rfl)]
  have sameBase (evidence : Evidence) :
      evidence.addBase second template = evidence.addBase first template := by
    funext ty
    rw [Evidence.addBase, Evidence.addBase, parallel.sameType]
  have sameSample (evidence : Evidence) :
      evidence.bindSample second = evidence.bindSample first := by
    funext parameter sample
    cases sample with
    | none => rfl
    | some value => simp only [Evidence.bindSample, parallel.typeOf]
  -- All that sampling reads is read alike, so both find the same base, if any.
  unfold Evidence.sampleBases?
  dsimp only
  rw [parallel.typeOf]
  split
  · next found _ =>
    simp only [sameClasses, sameStructure, sameBase, sameSample,
      parallel.reads (·.openParameters) (fun _ => rfl), parallel.reads (·.builtin) (fun _ => rfl)]
    refine Option.map_congr fun base among => ?_
    rw [parallel.isGeneric closed
      (parallel.hasClass_base closed old (List.mem_of_find?_eq_some among))]
  · rfl

/-- Arguments show the same of a template of the origin. -/
theorem ofArguments (parallel : Parallel origin made bases first second)
    (closed : origin.Closed) {template : ClassId} (old : origin.HasClass template)
    (parameters : List TypeParameter) (arguments : Arguments) :
    Evidence.ofArguments second template parameters arguments =
      Evidence.ofArguments first template parameters arguments := by
  have sameArgument : Evidence.takeArgument second template =
      Evidence.takeArgument first template := by
    funext evidence argument
    simp only [Evidence.takeArgument, parallel.typeOf, parallel.sameType,
      parallel.sampleBases? closed old]
  have sameRest (parameters : List TypeParameter) : Evidence.bindRemaining second parameters =
      Evidence.bindRemaining first parameters := by
    induction parameters with
    | nil => rfl
    | cons parameter rest inductionHypothesis =>
      funext arguments bindings
      cases arguments <;>
        simp only [Evidence.bindRemaining, parallel.typeOf, inductionHypothesis]
  simp only [Evidence.ofArguments, sameArgument, sameRest]

/-- A discovered type is added to the same bases. -/
theorem addDiscovered (parallel : Parallel origin made bases first second) :
    Engine.addDiscovered second = Engine.addDiscovered first := by
  funext known discovered
  have sameRepresents : Engine.represents second = Engine.represents first := by
    funext discovered base
    simp only [Engine.represents, parallel.sameType, parallel.builtin?]
  rw [Engine.addDiscovered, Engine.addDiscovered, sameRepresents]

/-- The same class is created in both stores. -/
theorem addClass (parallel : Parallel origin made bases first second) (record : ClassRecord) :
    Parallel origin made bases (first.addClass record).2 (second.addClass record).2 := by
  have apart : made ≠ first.nextClass := ne_nextClass parallel.present
  have sameNext := parallel.nextClass
  exact
    { functions := parallel.functions
      sameFunctions := parallel.sameFunctions
      grown := by
        simpa [Store.addClass] using Nat.le_succ_of_le parallel.grown
      sameSize := by simp [Store.addClass, parallel.sameSize]
      lasting := fun id old => by
        rw [first.classAt_addClass_of_hasClass record id (parallel.hasClass old),
          parallel.lasting id old]
      alike := fun id => by
        rw [classAt_addClass_eq, classAt_addClass_eq, sameNext]
        split
        · rfl
        · exact parallel.alike id
      sameBases := fun id other => by
        rw [classAt_addClass_eq, classAt_addClass_eq, sameNext]
        split
        · rfl
        · exact parallel.sameBases id other
      later := parallel.later
      present := (first.hasClass_addClass record made).mpr (.inl parallel.present)
      bases := by
        rw [classAt_addClass_eq, classAt_addClass_eq, sameNext, if_neg apart, if_neg apart,
          parallel.bases] }

/-- A class is changed alike in both stores, and keeps its bases. -/
theorem modifyClass (parallel : Parallel origin made bases first second) (id : ClassId)
    {change : ClassRecord → ClassRecord}
    (kept : ∀ record : ClassRecord, (change record).bases = record.bases)
    (blind : ∀ record : ClassRecord, (change record).underived = change record.underived)
    (lasting : origin.HasClass id →
      ∀ record : ClassRecord, (change record).lasting = record.lasting) :
    Parallel origin made bases (first.modifyClass id change) (second.modifyClass id change) where
  functions := parallel.functions
  sameFunctions := parallel.sameFunctions
  grown := by simpa using parallel.grown
  sameSize := by simpa using parallel.sameSize
  lasting asked old := by
    rw [classAt_modifyClass_eq, ← parallel.lasting asked old]
    split
    · next reached => exact lasting (reached.1 ▸ old) _
    · rfl
  alike asked := by
    simp only [classAt_modifyClass_eq, parallel.hasClass_iff]
    split
    · rw [blind, blind, parallel.alike asked]
    · exact parallel.alike asked
  sameBases asked apart := by
    simp only [classAt_modifyClass_eq, parallel.hasClass_iff]
    split
    · rw [kept, kept, parallel.sameBases asked apart]
    · exact parallel.sameBases asked apart
  later := parallel.later
  present := by simpa using parallel.present
  bases := by
    simp only [classAt_modifyClass_eq, parallel.hasClass_iff]
    split
    · rw [kept, kept, parallel.bases]
    · exact parallel.bases

/-- A template has the same placeholder for the same bindings. -/
theorem placeholderRecord (parallel : Parallel origin made bases first second)
    (template : ClassId) (bindings : Bindings) :
    Engine.placeholderRecord second template bindings =
      Engine.placeholderRecord first template bindings := by
  simp only [Engine.placeholderRecord, parallel.signature,
    parallel.reads (·.name) (fun _ => rfl), parallel.reads (·.qualifiedName) (fun _ => rfl),
    parallel.reads (·.hash) (fun _ => rfl), parallel.reads (·.builtin) (fun _ => rfl),
    parallel.reads (·.flags) (fun _ => rfl), parallel.reads (·.node) (fun _ => rfl)]

/-- A specialization begins in both stores. -/
theorem begin (parallel : Parallel origin made bases first second) (template : ClassId)
    (bindings : Bindings) :
    Parallel origin made bases (first.begin template bindings)
      (second.begin template bindings) := by
  have created := parallel.addClass (Engine.placeholderRecord first template bindings)
  simp only [Store.begin, Engine.beginSpecialization, parallel.placeholderRecord,
    parallel.signature, addClass_fst, parallel.nextClass, created.reads (·.hash) (fun _ => rfl),
    created.reads (·.unfinished) (fun _ => rfl)]
  exact created.modifyClass template (fun _ => rfl) (fun _ => rfl) fun _ _ => rfl

/-- A specialization is over in both stores. -/
theorem endSpecialization (parallel : Parallel origin made bases first second)
    (template : ClassId) :
    Parallel origin made bases (Engine.endSpecialization first template)
      (Engine.endSpecialization second template) :=
  parallel.modifyClass template (fun _ => rfl) (fun _ => rfl) fun _ _ => rfl

/-- A specialization is over and stored in both stores. -/
theorem finish (parallel : Parallel origin made bases first second) (template : ClassId)
    (signature : ResolvedSignature) (placeholder : ClassId) :
    Parallel origin made bases (first.finish template signature placeholder)
      (second.finish template signature placeholder) :=
  (parallel.endSpecialization template).modifyClass template (fun _ => rfl) (fun _ => rfl)
    fun _ _ => rfl

/-- A later class is given a member in both stores. -/
theorem addMember (parallel : Parallel origin made bases first second) {owner : ClassId}
    (later : ¬origin.HasClass owner) (name : String) (value : Value) (overwrite : Bool) :
    Parallel origin made bases (first.addMember owner name value overwrite).2
      (second.addMember owner name value overwrite).2 := by
  rw [addMember_eq, addMember_eq, parallel.reads (·.members) (fun _ => rfl)]
  exact parallel.modifyClass owner (fun _ => rfl) (fun _ => rfl) fun old => absurd old later

/-- A later class is given the same bases in both stores. -/
theorem setBases (parallel : Parallel origin made bases first second) {id : ClassId}
    (later : ¬origin.HasClass id) (apart : id ≠ made) (given : List Ty) :
    Parallel origin made bases (first.setBases id given) (second.setBases id given) where
  functions := parallel.functions
  sameFunctions := parallel.sameFunctions
  grown := by simpa [Store.setBases] using parallel.grown
  sameSize := by simpa [Store.setBases] using parallel.sameSize
  lasting asked old := by
    have other : asked ≠ id := fun same => later (same ▸ old)
    rw [classAt_setBases, if_neg fun reached => other reached.1, parallel.lasting asked old]
  alike asked := by
    simp only [classAt_setBases, parallel.hasClass_iff]
    split <;> exact parallel.alike asked
  sameBases asked other := by
    simp only [classAt_setBases, parallel.hasClass_iff]
    split
    · rfl
    · exact parallel.sameBases asked other
  later := parallel.later
  present := by simpa using parallel.present
  bases := by
    rw [classAt_setBases, classAt_setBases, if_neg fun reached => apart reached.1.symm,
      if_neg fun reached => apart reached.1.symm, parallel.bases]

/-- From one store two stores go on in parallel when the later class is given bases. -/
theorem diverge {store : Store} (parallel : Parallel origin made bases store store)
    (given others : List Ty) :
    Parallel origin made (given, others) (store.setBases made given)
      (store.setBases made others) where
  functions := parallel.functions
  sameFunctions := parallel.sameFunctions
  grown := by simpa [Store.setBases] using parallel.grown
  sameSize := by simp [Store.setBases]
  lasting id old := by
    have other : id ≠ made := fun same => parallel.later (same ▸ old)
    rw [classAt_setBases, if_neg fun reached => other reached.1, parallel.lasting id old]
  alike id := by
    simp only [classAt_setBases]
    split <;> rfl
  sameBases id apart := by
    rw [classAt_setBases, classAt_setBases, if_neg fun reached => apart reached.1,
      if_neg fun reached => apart reached.1]
  later := parallel.later
  present := by simpa using parallel.present
  bases := by
    rw [classAt_setBases, classAt_setBases, if_pos ⟨rfl, parallel.present⟩,
      if_pos ⟨rfl, parallel.present⟩]

end Parallel
end Store
end TypeInference
