import Mathlib.Logic.Relation
import TypeInference.Proofs.Formation

/-!
# Shapes of classes

Members and specializations are added to a class as long as there is something to analyze. The
rest of it, its shape, is given to it once and by whoever creates it: a class that a definition
declares is created blank, and its bases come with its parameters; a specialization is drafted
with the parameters of its template, and gets its bases afterwards. An analysis thus leaves the
shapes of all classes alone that are there when it begins, and it makes those of its own classes
in adjustments of these four kinds.
-/

namespace TypeInference

namespace ClassRecord

/-- A class without its members and specializations. -/
def shape (record : ClassRecord) : ClassRecord :=
  { record with members := {}, specializations := {}, unfinished := {} }

variable {before after : ClassRecord}

theorem template_of_shape (same : after.shape = before.shape) :
    after.template = before.template :=
  show after.shape.template = before.shape.template by rw [same]

theorem bases_of_shape (same : after.shape = before.shape) : after.bases = before.bases :=
  show after.shape.bases = before.shape.bases by rw [same]

theorem parameters_of_shape (same : after.shape = before.shape) :
    after.parameters = before.parameters :=
  show after.shape.parameters = before.shape.parameters by rw [same]

theorem hash_of_shape (same : after.shape = before.shape) : after.hash = before.hash :=
  show after.shape.hash = before.shape.hash by rw [same]

theorem resolutionOrder_of_shape (same : after.shape = before.shape) :
    after.resolutionOrder = before.resolutionOrder :=
  show after.shape.resolutionOrder = before.shape.resolutionOrder by rw [same]

theorem builtin_of_shape (same : after.shape = before.shape) : after.builtin = before.builtin :=
  show after.shape.builtin = before.shape.builtin by rw [same]

theorem flags_of_shape (same : after.shape = before.shape) : after.flags = before.flags :=
  show after.shape.flags = before.shape.flags by rw [same]

/-- A class that was given neither bases nor parameters. -/
structure Unshaped (record : ClassRecord) : Prop where
  bases : record.bases = []
  parameters : record.parameters = .empty

theorem Unshaped.of_shape (same : after.shape = before.shape) (unshaped : before.Unshaped) :
    after.Unshaped :=
  ⟨(bases_of_shape same).trans unshaped.bases,
    (parameters_of_shape same).trans unshaped.parameters⟩

end ClassRecord

namespace Store

/-- The bases of a class are in the store. -/
def HasBases (store : Store) (id : ClassId) : Prop :=
  ∀ base ∈ (store.classAt id).baseClasses, store.HasClass base

/-- A store that has the classes of an earlier one in the shapes that they had. -/
structure KeepsShapes (before after : Store) : Prop where
  grown : before.classes.size ≤ after.classes.size
  shapes : ∀ id, before.HasClass id → (after.classAt id).shape = (before.classAt id).shape

namespace KeepsShapes

variable {before middle after : Store}

theorem refl (store : Store) : store.KeepsShapes store :=
  ⟨Nat.le_refl _, fun _ _ => rfl⟩

theorem hasClass (keeps : before.KeepsShapes after) {id : ClassId} (present : before.HasClass id) :
    after.HasClass id :=
  Nat.lt_of_lt_of_le present keeps.grown

theorem trans (first : before.KeepsShapes middle) (second : middle.KeepsShapes after) :
    before.KeepsShapes after where
  grown := Nat.le_trans first.grown second.grown
  shapes id present :=
    (second.shapes id (first.hasClass present)).trans (first.shapes id present)

/-- A class is created. -/
theorem addClass (keeps : before.KeepsShapes after) (record : ClassRecord) :
    before.KeepsShapes (after.addClass record).2 where
  grown := by simpa [Store.addClass] using Nat.le_succ_of_le keeps.grown
  shapes id present := by
    rw [classAt_addClass_of_hasClass after record id (keeps.hasClass present),
      keeps.shapes id present]

/-- A class keeps its template. -/
theorem templateOf (keeps : before.KeepsShapes after) {id : ClassId}
    (present : before.HasClass id) : after.templateOf id = before.templateOf id := by
  rw [Store.templateOf, ClassRecord.template_of_shape (keeps.shapes id present), Store.templateOf]

/-- A class whose bases are in the store keeps its type parameters. -/
theorem typeParameters (keeps : before.KeepsShapes after) {id : ClassId}
    (present : before.HasClass id) (based : before.HasBases id) :
    after.typeParameters id = before.typeParameters id := by
  have own := keeps.shapes id present
  have sameBases := ClassRecord.bases_of_shape own
  have sameOpen (asked : ClassId) (there : before.HasClass asked) :
      (after.classAt asked).openParameters = (before.classAt asked).openParameters := by
    rw [ClassRecord.openParameters, ClassRecord.parameters_of_shape (keeps.shapes asked there)]
    rfl
  have inherited : (before.classAt id).baseClasses.flatMap
        (fun base => (after.classAt base).openParameters) =
      (before.classAt id).baseClasses.flatMap
        fun base => (before.classAt base).openParameters :=
    List.flatMap_congr fun base listed => sameOpen base (based base listed)
  simp only [Store.typeParameters, ClassRecord.explicitParameters?, ClassRecord.baseClasses,
    sameBases, sameOpen id present]
  rw [← ClassRecord.baseClasses, inherited]

/-- Objects of a class that was there are made as before. -/
theorem newObject (keeps : before.KeepsShapes after) {id : ClassId} (present : before.HasClass id) :
    after.newObject id = before.newObject id := by
  have same := keeps.shapes id present
  unfold Store.newObject
  simp only [ClassRecord.hasArguments, ClassRecord.parameters_of_shape same,
    ClassRecord.template_of_shape same, ClassRecord.builtin_of_shape same,
    ClassRecord.flags_of_shape same]

theorem hasBases (keeps : before.KeepsShapes after) {id : ClassId} (present : before.HasClass id)
    (based : before.HasBases id) : after.HasBases id := by
  intro base listed
  rw [ClassRecord.baseClasses, ClassRecord.bases_of_shape (keeps.shapes id present)] at listed
  exact keeps.hasClass (based base listed)

end KeepsShapes

/-- The store in which a class is given bases and its parameters with them. -/
def derive (store : Store) (id : ClassId) (bases : List Ty) : Store :=
  let ordered := store.setBases id bases
  ordered.modifyClass id fun record =>
    { record with parameters := .identity (ordered.typeParameters id) }

/-- The class then has these bases, and their parameters with them. -/
theorem classAt_derive {store : Store} {id : ClassId} (bases : List Ty)
    (present : store.HasClass id) :
    ((store.derive id bases).classAt id).bases = bases ∧
      ((store.derive id bases).classAt id).parameters =
        .identity ((store.setBases id bases).typeParameters id) ∧
      ((store.derive id bases).classAt id).template = (store.classAt id).template := by
  have still : (store.setBases id bases).HasClass id :=
    (store.hasClass_modifyClass id id _).mpr present
  rw [derive, classAt_modifyClass_eq, if_pos ⟨rfl, still⟩, classAt_setBases,
    if_pos ⟨rfl, present⟩]
  exact ⟨rfl, rfl, rfl⟩

/-- No other class changes. -/
theorem classAt_derive_of_ne {store : Store} {id other : ClassId} (bases : List Ty)
    (missed : other ≠ id ∨ ¬store.HasClass id) :
    (store.derive id bases).classAt other = store.classAt other := by
  have apart : ¬(other = id ∧ store.HasClass id) := fun reached =>
    missed.elim (fun differ => differ reached.1) fun absent => absent reached.2
  have still : ¬(other = id ∧ (store.setBases id bases).HasClass id) := fun reached =>
    apart ⟨reached.1, (store.hasClass_modifyClass id id _).mp reached.2⟩
  rw [derive, classAt_modifyClass_eq, if_neg still, classAt_setBases, if_neg apart]

/-- A single change of a store as far as the shapes of classes go. -/
inductive Adjusts : Store → Store → Prop
  | keep {store next : Store} (size : next.classes.size = store.classes.size)
      (shapes : ∀ id, (next.classAt id).shape = (store.classAt id).shape) : Adjusts store next
  | create (store : Store) {record : ClassRecord} (blank : record.Blank)
      (original : record.template = none) (unshaped : record.Unshaped) :
      Adjusts store (store.addClass record).2
  | derive (store : Store) {id : ClassId} (bases : List Ty)
      (original : (store.classAt id).template = none) (unshaped : (store.classAt id).Unshaped) :
      Adjusts store (store.derive id bases)
  | draft (store : Store) {template : ClassId} {bindings : Bindings}
      (original : (store.classAt template).template = none)
      (keys : bindings.keys = store.typeParameters template)
      (parametrized : store.typeParameters template ≠ []) :
      Adjusts store (store.addClass (Engine.placeholderRecord store template bindings)).2
  | order (store : Store) {id : ClassId} {bases : List Ty}
      (specialized : (store.classAt id).template ≠ none)
      (unmarked : ∀ base ∈ bases, base.asMarker? = none) :
      Adjusts store (store.setBases id bases)

/-- The stores that adjustments lead to. -/
def AdjustsTo : Store → Store → Prop :=
  Relation.ReflTransGen Adjusts

namespace AdjustsTo

variable {before middle after : Store}

theorem trans (first : before.AdjustsTo middle) (second : middle.AdjustsTo after) :
    before.AdjustsTo after :=
  Relation.ReflTransGen.trans first second

theorem single (adjusts : before.Adjusts after) : before.AdjustsTo after :=
  Relation.ReflTransGen.single adjusts

/-- A property of stores that every adjustment keeps holds wherever adjustments lead. -/
theorem invariant (adjusted : before.AdjustsTo after) (property : Store → Prop)
    (initially : property before)
    (kept : ∀ {store next : Store}, store.Adjusts next → property store → property next) :
    property after := by
  induction adjusted with
  | refl => exact initially
  | tail _ adjusts inductionHypothesis => exact kept adjusts inductionHypothesis

end AdjustsTo

/-- A store that adjustments lead to and that keeps the shapes there were. What was drafted since
then from a class that was there has the type parameters of that class. -/
structure Shapes (before after : Store) : Prop where
  adjusted : before.AdjustsTo after
  keeps : before.KeepsShapes after
  drafted : ∀ id template, ¬before.HasClass id → (after.classAt id).template = some template →
    before.HasClass template → before.HasBases template →
      (after.classAt id).parameters.keys = before.typeParameters template

namespace Shapes

variable {before middle after : Store}

/-- An adjustment that creates no class leaves all shapes alone. -/
theorem of_keep (size : after.classes.size = before.classes.size)
    (shapes : ∀ id, (after.classAt id).shape = (before.classAt id).shape) :
    before.Shapes after where
  adjusted := .single (.keep size shapes)
  keeps := ⟨size.ge, fun id _ => shapes id⟩
  drafted id template absent made := by
    rw [ClassRecord.template_of_shape (shapes id),
      classAt_of_not_hasClass _ id absent] at made
    cases made

theorem refl (store : Store) : store.Shapes store :=
  .of_keep rfl fun _ => rfl

theorem trans (first : before.Shapes middle) (second : middle.Shapes after) :
    before.Shapes after where
  adjusted := first.adjusted.trans second.adjusted
  keeps := first.keeps.trans second.keeps
  drafted id template absent made present based := by
    by_cases earlier : middle.HasClass id
    · have same := second.keeps.shapes id earlier
      rw [ClassRecord.parameters_of_shape same]
      exact first.drafted id template absent (ClassRecord.template_of_shape same ▸ made) present
        based
    · rw [← first.keeps.typeParameters present based]
      exact second.drafted id template earlier made (first.keeps.hasClass present)
        (first.keeps.hasBases present based)

/-- A class that is new is adjusted, which leaves the parameters of a specialization alone. -/
theorem adjust (shapes : before.Shapes middle) {id : ClassId} (new : ¬before.HasClass id)
    (adjusts : middle.Adjusts after) (size : after.classes.size = middle.classes.size)
    (others : ∀ other, other ≠ id → after.classAt other = middle.classAt other)
    (template : (after.classAt id).template = (middle.classAt id).template)
    (parameters : (middle.classAt id).template ≠ none →
      (after.classAt id).parameters = (middle.classAt id).parameters) : before.Shapes after where
  adjusted := shapes.adjusted.tail adjusts
  keeps :=
    { grown := size ▸ shapes.keeps.grown
      shapes := fun other present => by
        have apart : other ≠ id := fun same => new (same ▸ present)
        rw [others other apart, shapes.keeps.shapes other present] }
  drafted other origin absent made := by
    by_cases same : other = id
    · subst same
      rw [template] at made
      rw [parameters (by rw [made]; exact Option.some_ne_none origin)]
      exact shapes.drafted other origin absent made
    · rw [others other same] at made ⊢
      exact shapes.drafted other origin absent made

/-- A class is created by an adjustment, if as a specialization then with the parameters of its
template. -/
theorem create {record : ClassRecord} (adjusts : before.Adjusts (before.addClass record).2)
    (keys : ∀ template, record.template = some template →
      record.parameters.keys = before.typeParameters template) :
    before.Shapes (before.addClass record).2 where
  adjusted := .single adjusts
  keeps := (KeepsShapes.refl before).addClass record
  drafted id template absent made _ _ := by
    rw [classAt_addClass_eq] at made ⊢
    split at made
    · next created =>
      rw [if_pos created]
      exact keys template made
    · rw [classAt_of_not_hasClass _ id absent] at made
      cases made

/-- A change of something else than classes. -/
theorem of_same_classes (same : after.classes = before.classes) : before.Shapes after := by
  have records (id : ClassId) : after.classAt id = before.classAt id := by
    unfold classAt
    rw [same]
  exact .of_keep (by rw [same]) fun id => by rw [records]

/-- A change of a class that leaves its shape alone. -/
theorem modifyClass (store : Store) (id : ClassId) {change : ClassRecord → ClassRecord}
    (kept : ∀ record : ClassRecord, (change record).shape = record.shape) :
    store.Shapes (store.modifyClass id change) :=
  .of_keep (by simp) fun asked => by
    rw [classAt_modifyClass_eq]
    split
    · exact kept _
    · rfl

theorem addMember (store : Store) (id : ClassId) (name : String) (value : Value)
    (overwrite : Bool) : store.Shapes (store.addMember id name value overwrite).2 := by
  rw [addMember_eq]
  exact modifyClass store id fun _ => rfl

end Shapes

end Store

open Analysis Store

/-- To adjust shapes, and to keep those that there were. -/
def StorePreorder.shaping : StorePreorder where
  Relates := Shapes
  Failing := True
  refl := .refl
  trans := .trans

namespace Analysis.Respects

variable {α : Type}

theorem changeOverload_shaping (id : OverloadId) (change : Overload → Overload) :
    (Engine.changeOverload id change).Respects .shaping :=
  .modifyStore fun _ => .of_same_classes rfl

theorem setMember_shaping (owner : ClassId) (name : String) (value : Value) (overwrite : Bool) :
    (Analysis.modifyStore fun store =>
      (store.addMember owner name value overwrite).2).Respects .shaping :=
  .modifyStore fun store => .addMember store owner name value overwrite

theorem setAttribute_shaping (owner : ClassId) (name : String) (value : Value) :
    (Analysis.setAttribute owner name value).Respects .shaping := by
  refine .modifyStore fun store => ?_
  split
  · split
    · exact .addMember store owner name value true
    · exact .refl store
  · exact .addMember store owner name value true

/-- A class is created blank, and still is so when its bases are known. -/
theorem createClass_shaping {engine : Engine} (definition : ClassDefinition)
    {bases : List Expression} {next : ClassId → Analysis α}
    (based : (engine.evaluateBases bases).Respects .shaping)
    (onwards : ∀ id, (next id).Respects .shaping) :
    (do
      let id ← Engine.createClass definition
      engine.giveBases id bases
      next id).Respects .shaping := by
  refine .of_onwards fun environment before => ?_
  obtain ⟨qualifiedName, created⟩ := Engine.createClass_apply definition environment before
  let id := before.store.nextClass
  let record := Engine.declaredClass definition qualifiedName
  let begun : Progress :=
    { before with
      store := (before.store.addClass record).2
      symbols := before.symbols.insertClass definition.id id }
  have creation : before.store.Shapes begun.store :=
    .create (.create before.store ⟨rfl, rfl, rfl, rfl, rfl⟩ rfl ⟨rfl, rfl⟩) fun _ impossible =>
      nomatch impossible
  have evaluated := based.onwards trivial environment begun
  rw [after_congr (bind_of_ok created _)]
  simp only [Engine.giveBases, bind_assoc]
  rcases after_bind_cases (engine.evaluateBases bases) _ environment begun with
    ⟨_, stops⟩ | ⟨types, _, goesOn⟩
  · rw [stops]
    exact creation.trans evaluated
  · rw [goesOn]
    generalize (engine.evaluateBases bases).after environment begun = middle at evaluated
    have there : begun.store.HasClass id := (hasClass_addClass ..).mpr (.inr rfl)
    have present := evaluated.keeps.hasClass there
    have still := evaluated.keeps.shapes id there
    rw [classAt_addClass_eq, if_pos rfl] at still
    have original : (middle.store.classAt id).template = none := ClassRecord.template_of_shape still
    have given : before.store.Shapes (middle.store.derive id (Engine.withObject types)) :=
      (creation.trans evaluated).adjust before.store.not_hasClass_nextClass
        (.derive _ _ original (.of_shape still ⟨rfl, rfl⟩)) (by simp [Store.derive, setBases])
        (fun _ apart => classAt_derive_of_ne _ (.inl apart)) (classAt_derive _ present).2.2
        fun specialized => absurd original specialized
    have further := (onwards id).onwards trivial environment
      { middle with store := middle.store.derive id (Engine.withObject types) }
    exact given.trans further

end Analysis.Respects

/-- To adjust shapes, and to keep those that there were. -/
def Discipline.shaping : Discipline where
  World := Unit
  Holds _ _ analysis := analysis.Respects .shaping
  MayOwn _ _ := True
  IsDefined _ _ := True
  MayChange _ := True
  MayRecord _ := True
  pure _ _ := .pure
  throw _ _ := .throw
  bind := .bind
  store _ := .store
  options _ := .of_still fun _ _ => rfl
  lookupName? _ := .lookupName?
  declare _ _ _ _ _ _ := .changeScopes _
  redirectGlobal _ _ := .changeScopes _
  redirectNonlocal _ _ := .changeScopes _
  qualifiedName _ _ := .of_still fun _ _ => rfl
  report _ _ _ := .of_still fun _ _ => rfl
  read _ respects := .bind (.of_still fun _ _ => rfl) respects
  currentScope := .currentScope
  globals _ _ := .of_still fun _ _ => rfl
  inScope := .inScope
  clearVariables _ _ := .of_still fun _ _ => rfl
  insertEntry _ _ := .of_still fun _ _ => rfl
  createFunction {_ _} _ {_} _ {_} _ onwards :=
    .bind (.onStore fun _ => .of_same_classes rfl) fun id => onwards id trivial
  changeFunction {_ _ _} _ _ := .modifyStore fun _ => .of_same_classes rfl
  changeOverload {_ _ _} _ _ := .changeOverload_shaping _ _
  evaluation {_ _} _ {_} _ respects := .whenPending <|
    .bind (.changeOverload_shaping _ _) fun _ => .inScope fun scope =>
      .bind (respects trivial scope) fun _ => .changeOverload_shaping _ _
  setMember {_ _} name value overwrite _ := .setMember_shaping _ name value overwrite
  setAttribute {_ _} name value _ := .setAttribute_shaping _ name value
  createClass {_ _ _} definition {_ _} based onwards :=
    .createClass_shaping definition (based ()) fun id => onwards () id trivial
  readDefinition {_ _} _ {_} onwards := .bind .store fun store =>
    onwards () store fun _ => ⟨trivial, trivial⟩
  readOwner {_ _ _ _} _ onwards := .bind .store fun store =>
    onwards () store fun _ _ => trivial

/-- What keeps the discipline of shapes does so. -/
theorem Analysis.Keeps.shaping {α : Type} {analysis : Analysis α}
    (keeps : analysis.Keeps .shaping ()) : analysis.Respects .shaping :=
  keeps

namespace Engine

variable {engine : Engine}

theorem copyMembers_shaping (follows : engine.Follows .shaping) (bindings : Bindings)
    (target : ClassId) (members : List (String × Value)) :
    (engine.copyMembers bindings target members).Respects .shaping := by
  induction members with
  | nil => exact .pure ()
  | cons member rest inductionHypothesis =>
    exact .bind (substitute_keeps follows bindings member.2).shaping fun value =>
      .bind (.setMember_shaping target member.1 value true) fun _ => inductionHypothesis

/-- A placeholder that is new gets its bases, which have no markers, and its members. -/
theorem materialize_shaping (follows : engine.Follows .shaping) {origin : Store}
    (template : ClassId) {placeholder : ClassId} {evidence : Evidence}
    (unmarked : ∀ base ∈ evidence.bases, base.asMarker? = none) (environment : Environment)
    {before : Progress} (shapes : origin.Shapes before.store) (new : ¬origin.HasClass placeholder)
    (present : before.store.HasClass placeholder)
    (specialized : (before.store.classAt placeholder).template ≠ none) :
    origin.Shapes
      ((engine.materialize template placeholder evidence).after environment before).store := by
  have substituted := (substituteBases_keeps follows evidence.bindings
    (before.store.classAt template).bases).shaping.onwards trivial environment before
  unfold materialize
  rw [after_congr (bind_of_ok (store_apply environment before) _)]
  rcases after_bind_cases (engine.substituteBases evidence.bindings
      (before.store.classAt template).bases) _ environment before with
    ⟨_, stops⟩ | ⟨bases, found, goesOn⟩
  · rw [stops]
    exact shapes.trans substituted
  · rw [goesOn]
    generalize (engine.substituteBases evidence.bindings
      (before.store.classAt template).bases).after environment before = middle at substituted found
    have still : (middle.store.classAt placeholder).template ≠ none :=
      ClassRecord.template_of_shape (substituted.keeps.shapes placeholder present) ▸ specialized
    have ordered : middle.store.Adjusts (middle.store.setBases placeholder
        (evidence.bases.foldl (addDiscovered middle.store) bases)) :=
      .order _ still (unmarked_addDiscovered middle.store unmarked
        (unmarked_substituteBases found))
    have same : ((middle.store.setBases placeholder
          (evidence.bases.foldl (addDiscovered middle.store) bases)).classAt placeholder).template =
        (middle.store.classAt placeholder).template ∧ ((middle.store.setBases placeholder
          (evidence.bases.foldl (addDiscovered middle.store) bases)).classAt
            placeholder).parameters = (middle.store.classAt placeholder).parameters := by
      rw [classAt_setBases]
      split <;> exact ⟨rfl, rfl⟩
    have given : origin.Shapes (middle.store.setBases placeholder
        (evidence.bases.foldl (addDiscovered middle.store) bases)) :=
      (shapes.trans substituted).adjust new ordered (by simp [setBases])
        (fun other apart => by rw [classAt_setBases, if_neg fun reached => apart reached.1])
        same.1 fun _ => same.2
    exact given.trans ((copyMembers_shaping follows _ _ _).onwards trivial environment
      { middle with store := _ })

/-- A specialization is drafted from its template and made. -/
theorem makeSpecialization_shaping (follows : engine.Follows .shaping) {template : ClassId}
    {evidence : Evidence} (unmarked : ∀ base ∈ evidence.bases, base.asMarker? = none)
    (environment : Environment) {before : Progress}
    (original : (before.store.classAt template).template = none)
    (keys : evidence.bindings.keys = before.store.typeParameters template)
    (parametrized : before.store.typeParameters template ≠ []) :
    before.store.Shapes
      ((engine.makeSpecialization template evidence).after environment before).store := by
  let record := placeholderRecord before.store template evidence.bindings
  have drafted : before.store.Shapes (before.store.addClass record).2 :=
    .create (.draft _ original keys parametrized) fun _ made => Option.some.inj made ▸ keys
  have begun : (before.store.addClass record).2.Shapes
      (before.store.begin template evidence.bindings) :=
    .modifyClass _ template fun _ => rfl
  have created : (before.store.addClass record).2.HasClass before.store.nextClass :=
    (hasClass_addClass ..).mpr (.inr rfl)
  have specialized : ((before.store.begin template evidence.bindings).classAt
      before.store.nextClass).template ≠ none := by
    rw [ClassRecord.template_of_shape (begun.keeps.shapes _ created), classAt_addClass_eq,
      if_pos rfl]
    exact Option.some_ne_none template
  have made : before.store.Shapes ((engine.materialize template before.store.nextClass
      evidence).after environment
        { before with store := before.store.begin template evidence.bindings }).store :=
    materialize_shaping follows template unmarked environment (drafted.trans begun)
      before.store.not_hasClass_nextClass (begun.keeps.hasClass created) specialized
  have ended := made.trans (.modifyClass _ template fun _ => rfl :
    Store.Shapes _ (endSpecialization _ template))
  rcases engine.after_makeSpecialization_cases template evidence environment before with
    finished | abandoned
  · exact finished ▸ ended.trans (.modifyClass _ template fun _ => rfl)
  · exact abandoned ▸ ended

/-- A request is answered once the constructor was evaluated. -/
theorem specializeConstructed_shaping (follows : engine.Follows .shaping) {id : ClassId}
    (arguments : Arguments) (environment : Environment) {before : Progress}
    (original : (before.store.classAt id).template = none) :
    before.store.Shapes
      ((engine.specializeConstructed id arguments).after environment before).store := by
  rcases engine.specializeConstructed_outcomes id arguments environment before with
    ⟨-, done⟩ | ⟨_, -, -, done⟩ | ⟨_, -, -, -, done⟩ | ⟨resolved, -, -, made⟩
  · rw [after_of_ok done]
    exact .refl _
  · rw [after_of_ok done]
    exact .refl _
  · rw [after_of_ok done]
    exact .refl _
  · rw [after_congr made]
    refine makeSpecialization_shaping follows (Evidence.unmarked_ofArguments _ _ _ _)
      environment original (Evidence.keys_ofArguments _ _ _ _) fun none => ?_
    rw [none] at resolved
    cases resolved

/-- There is nothing to construct where no class is. -/
theorem ensureConstructed_of_not_hasClass (engine : Engine) {id : ClassId}
    (environment : Environment) {before : Progress} (absent : ¬before.store.HasClass id) :
    engine.ensureConstructed id environment before = .ok () before := by
  have unknown := before.store.classAt_of_not_hasClass id absent
  have none : (before.store.ownMember? (before.store.templateOf id) "__init__").bind
      Value.asFunction? = none := by
    simp only [templateOf, unknown]
    change ((before.store.classAt id).members.find? "__init__").bind Value.asFunction? = none
    rw [unknown]
    rfl
  unfold ensureConstructed
  rw [bind_apply, store_apply]
  dsimp only
  split
  · rfl
  · rw [none]
    rfl

theorem specializeClass_shaping (follows : engine.Follows .shaping) (id : ClassId)
    (arguments : Arguments) : (engine.specializeClass id arguments).Respects .shaping := by
  refine .of_onwards fun environment before => ?_
  cases made : (before.store.classAt id).template with
  | some template =>
    have answered := (follows.specialize template arguments).shaping.onwards trivial environment
      before
    rwa [after_congr (specializeClass_of_template engine arguments environment made)]
  | none =>
    have constructed := (ensureConstructed_keeps follows id).shaping.onwards trivial environment
      before
    have still {middle : Progress} (ended : engine.ensureConstructed id environment before =
        .ok () middle) (keeps : before.store.KeepsShapes middle.store) :
        (middle.store.classAt id).template = none := by
      by_cases present : before.store.HasClass id
      · exact (ClassRecord.template_of_shape (keeps.shapes id present)).trans made
      · rw [ensureConstructed_of_not_hasClass engine environment present] at ended
        cases ended
        exact made
    rw [after_congr (specializeClass_of_original engine arguments environment made)]
    rcases after_bind_cases (engine.ensureConstructed id)
        (fun _ => engine.specializeConstructed id arguments) environment before with
      ⟨_, stops⟩ | ⟨_, found, goesOn⟩
    · exact stops ▸ constructed
    · rw [goesOn]
      exact constructed.trans (specializeConstructed_shaping follows arguments environment
        (still found constructed.keeps))

/-- The engine of every depth adjusts shapes and keeps those that there were. -/
theorem atDepth_shaping (depth : Nat) : (Engine.atDepth depth).Follows .shaping :=
  atDepth_follows (fun _ follows _ id arguments =>
    specializeClass_shaping follows id arguments) depth

end Engine

end TypeInference
