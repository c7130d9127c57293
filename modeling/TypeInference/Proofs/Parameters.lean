import TypeInference.Proofs.Shapes

/-!
# Type parameters are bound once

Bindings are found by the identity of a parameter, so a parameter that is listed twice has a
second type which is never found and never changed. The parameters of a class are collected from
its bases, each of them once, unless a marker among the bases lists them: then they are those of
the marker, and are not compared with one another. This is the only way in which a class comes to
have a parameter twice, be it a template or a specialization of one. Where no marker does this, a
specialization whose parameters are all bound to something else than parameters is closed.
-/

namespace TypeInference

/-- Type parameters of which no two are the same. -/
def TypeParameter.Distinct (parameters : List TypeParameter) : Prop :=
  (parameters.map TypeParameter.hash).Nodup

instance (parameters : List TypeParameter) : Decidable (TypeParameter.Distinct parameters) :=
  inferInstanceAs (Decidable (List.Nodup _))

/-- A marker among the bases, if there is one, lists no parameter twice. -/
def ClassRecord.ListsDistinct (record : ClassRecord) : Prop :=
  TypeParameter.Distinct (record.explicitParameters?.getD [])

instance (record : ClassRecord) : Decidable record.ListsDistinct :=
  inferInstanceAs (Decidable (TypeParameter.Distinct _))

namespace Bindings

open TypeParameter

theorem keys_identity (parameters : List TypeParameter) :
    (identity parameters).keys = parameters := by
  simp [keys, identity, Function.comp_def]

/-- A parameter is added where it is not among the others. -/
theorem distinct_addDistinct {parameters : List TypeParameter} (distinct : Distinct parameters)
    (parameter : TypeParameter) : Distinct (addDistinct parameters parameter) := by
  unfold addDistinct
  split
  · exact distinct
  · next absent =>
    have apart : parameter.hash ∉ parameters.map TypeParameter.hash := by
      intro listed
      obtain ⟨known, among, same⟩ := List.mem_map.mp listed
      exact absent (List.any_eq_true.mpr ⟨known, among, decide_eq_true same⟩)
    rw [Distinct, List.map_append, List.map_singleton]
    exact List.nodup_append.mpr ⟨distinct, List.nodup_singleton _,
      fun hash listed last among equal =>
        apart (List.mem_singleton.mp among ▸ equal ▸ listed)⟩

theorem distinct_foldl_addDistinct (added : List TypeParameter) :
    ∀ {parameters : List TypeParameter}, Distinct parameters →
      Distinct (added.foldl addDistinct parameters) := by
  induction added with
  | nil => exact id
  | cons parameter rest inductionHypothesis =>
    exact fun distinct => inductionHypothesis (distinct_addDistinct distinct parameter)

/-- Among different parameters every one is found with its own type. -/
theorem find?_of_mem {bindings : Bindings} (distinct : Distinct bindings.keys)
    {parameter : TypeParameter} {ty : Ty} (listed : (parameter, ty) ∈ bindings.entries) :
    bindings.find? parameter = some ty := by
  have inEntries (entries : List (TypeParameter × Ty))
      (distinct : Distinct (entries.map (·.1))) (listed : (parameter, ty) ∈ entries) :
      findIn parameter.hash entries = some ty := by
    induction entries with
    | nil => cases listed
    | cons entry rest inductionHypothesis =>
      rw [Distinct, List.map_cons, List.map_cons, List.nodup_cons] at distinct
      rcases List.mem_cons.mp listed with rfl | later
      · exact if_pos rfl
      · have among : parameter.hash ∈ (rest.map (·.1)).map TypeParameter.hash :=
          List.mem_map_of_mem (List.mem_map.mpr ⟨(parameter, ty), later, rfl⟩)
        have apart : entry.1.hash ≠ parameter.hash := by
          intro same
          rw [same] at distinct
          exact distinct.1 among
        rw [findIn, if_neg apart, inductionHypothesis distinct.2 later]
  exact inEntries bindings.entries distinct listed

/-- Different parameters that are found with no parameter leave none open. -/
theorem openParameters_eq_nil {bindings : Bindings} (distinct : Distinct bindings.keys)
    (closed : ∀ parameter ∈ bindings.keys, ∃ ty,
      bindings.find? parameter = some ty ∧ ty.asParameter? = none) :
    bindings.openParameters = [] := by
  have none : bindings.types.filterMap Ty.asParameter? = [] := by
    refine List.filterMap_eq_nil_iff.mpr fun ty listed => ?_
    obtain ⟨⟨parameter, _⟩, among, rfl⟩ := List.mem_map.mp listed
    obtain ⟨found, bound, plain⟩ := closed parameter (List.mem_map_of_mem among)
    rw [find?_of_mem distinct among] at bound
    exact Option.some.inj bound ▸ plain
  rw [openParameters, none]
  rfl

end Bindings

namespace Store

open TypeParameter

/-- The parameters of a class are different where those of its marker are. -/
theorem distinct_typeParameters_iff (store : Store) (id : ClassId) :
    Distinct (store.typeParameters id) ↔ (store.classAt id).ListsDistinct := by
  unfold typeParameters ClassRecord.ListsDistinct
  dsimp only
  cases (store.classAt id).explicitParameters? with
  | some listed => exact Iff.rfl
  | none =>
    exact iff_of_true (Bindings.distinct_foldl_addDistinct _ List.nodup_nil) List.nodup_nil

/-- A class that was given nothing has no parameters. -/
theorem typeParameters_of_unshaped {store : Store} {id : ClassId}
    (unshaped : (store.classAt id).Unshaped) : store.typeParameters id = [] := by
  simp only [typeParameters, ClassRecord.explicitParameters?, ClassRecord.baseClasses,
    ClassRecord.openParameters, unshaped.bases, unshaped.parameters]
  rfl

/-- A class that is not there has no shape. -/
theorem unshaped_nextClass (store : Store) : (store.classAt store.nextClass).Unshaped := by
  rw [store.classAt_of_not_hasClass _ store.not_hasClass_nextClass]
  exact ⟨rfl, rfl⟩

/-- What every adjustment keeps: classes have a parameter twice where a marker of their template
lists it twice. A template has its bases when something is drafted from it. -/
structure Parametrized (store : Store) : Prop where
  listed : ∀ id, Distinct (store.classAt id).parameters.keys ↔
    (store.classAt (store.templateOf id)).ListsDistinct
  original : ∀ id template, (store.classAt id).template = some template →
    (store.classAt template).template = none
  shaped : ∀ id template, (store.classAt id).template = some template →
    ¬(store.classAt template).Unshaped

namespace Parametrized

variable {store next : Store}

/-- A class with its own shape and that of its template has what it had. -/
theorem keep (parametrized : store.Parametrized)
    (shapes : ∀ id, (next.classAt id).shape = (store.classAt id).shape) : next.Parametrized := by
  have template (id : ClassId) := ClassRecord.template_of_shape (shapes id)
  have unshaped (id : ClassId) (now : (next.classAt id).Unshaped) : (store.classAt id).Unshaped :=
    .of_shape (shapes id).symm now
  refine ⟨fun id => ?_, fun id origin made => ?_, fun id origin made now => ?_⟩
  · have same : next.templateOf id = store.templateOf id := by
      rw [templateOf, template, templateOf]
    have bases := ClassRecord.bases_of_shape (shapes (store.templateOf id))
    rw [same, ClassRecord.parameters_of_shape (shapes id), parametrized.listed id,
      ClassRecord.ListsDistinct, ClassRecord.ListsDistinct, ClassRecord.explicitParameters?,
      ClassRecord.explicitParameters?, bases]
  · rw [template] at made ⊢
    exact parametrized.original id origin made
  · exact parametrized.shaped id origin (template id ▸ made) (unshaped origin now)

/-- A class that no other one is drafted from is created or changed. -/
theorem change (parametrized : store.Parametrized) {changed : ClassId}
    (others : ∀ id, id ≠ changed → next.classAt id = store.classAt id)
    (unused : ∀ id, (store.classAt id).template ≠ some changed)
    (listed : Distinct (next.classAt changed).parameters.keys ↔
      (next.classAt (next.templateOf changed)).ListsDistinct)
    (drafted : ∀ template, (next.classAt changed).template = some template →
      template ≠ changed ∧ (store.classAt template).template = none ∧
        ¬(store.classAt template).Unshaped) : next.Parametrized := by
  have apart {id template : ClassId} (made : (next.classAt id).template = some template) :
      next.classAt template = store.classAt template ∧
        (store.classAt template).template = none ∧ ¬(store.classAt template).Unshaped := by
    by_cases same : id = changed
    · subst same
      exact ⟨others _ (drafted template made).1, (drafted template made).2⟩
    · rw [others id same] at made
      have other : template ≠ changed := fun equal => unused id (equal ▸ made)
      exact ⟨others _ other, parametrized.original id template made,
        parametrized.shaped id template made⟩
  refine ⟨fun id => ?_, fun id template made => ?_, fun id template made => ?_⟩
  · by_cases same : id = changed
    · exact same ▸ listed
    · have record := others id same
      have sameTemplate : next.templateOf id = store.templateOf id := by
        rw [templateOf, record, templateOf]
      have templateApart : store.templateOf id ≠ changed := by
        intro equal
        cases made : (store.classAt id).template with
        | none => exact same (by rw [← equal, templateOf, made]; rfl)
        | some template => exact unused id (by rw [← equal, templateOf, made]; rfl)
      rw [record, sameTemplate, others _ templateApart]
      exact parametrized.listed id
  · rw [(apart made).1]
    exact (apart made).2.1
  · rw [(apart made).1]
    exact (apart made).2.2

/-- Nothing is drafted from what is not there, not shaped, or a specialization. -/
theorem unused (parametrized : store.Parametrized) {changed : ClassId}
    (unfit : (store.classAt changed).Unshaped ∨ (store.classAt changed).template ≠ none)
    (id : ClassId) : (store.classAt id).template ≠ some changed := fun made =>
  unfit.elim (parametrized.shaped id changed made) fun specialized =>
    specialized (parametrized.original id changed made)

/-- A class is created that is no specialization and has no shape yet. -/
theorem create (parametrized : store.Parametrized) {record : ClassRecord}
    (original : record.template = none) (unshaped : record.Unshaped) :
    (store.addClass record).2.Parametrized := by
  have itself : (store.addClass record).2.templateOf store.nextClass = store.nextClass := by
    rw [templateOf, classAt_addClass_eq, if_pos rfl, original]
    rfl
  refine parametrized.change (fun id apart => by rw [classAt_addClass_eq, if_neg apart])
    (parametrized.unused (.inl store.unshaped_nextClass)) ?_ ?_
  · rw [itself, classAt_addClass_eq, if_pos rfl, ClassRecord.ListsDistinct,
      ClassRecord.explicitParameters?, unshaped.bases, unshaped.parameters]
    exact Iff.rfl
  · intro template made
    rw [classAt_addClass_eq, if_pos rfl, original] at made
    cases made

/-- A class that is no specialization is given its bases, and their parameters with them. -/
theorem derive (parametrized : store.Parametrized) {id : ClassId} (bases : List Ty)
    (original : (store.classAt id).template = none) (unshaped : (store.classAt id).Unshaped) :
    (store.derive id bases).Parametrized := by
  by_cases present : store.HasClass id
  · obtain ⟨based, parameters, template⟩ := classAt_derive bases present
    have itself : (store.derive id bases).templateOf id = id := by
      rw [templateOf, template, original]
      rfl
    refine parametrized.change (fun other apart => classAt_derive_of_ne bases (.inl apart))
      (parametrized.unused (.inl unshaped)) ?_ ?_
    · rw [itself, parameters, Bindings.keys_identity, ClassRecord.ListsDistinct,
        ClassRecord.explicitParameters?, based, distinct_typeParameters_iff,
        ClassRecord.ListsDistinct, ClassRecord.explicitParameters?, classAt_setBases,
        if_pos ⟨rfl, present⟩]
    · intro origin made
      rw [template, original] at made
      cases made
  · exact parametrized.keep fun other => by rw [classAt_derive_of_ne bases (.inr present)]

/-- A specialization is drafted with the parameters of its template. -/
theorem draft (parametrized : store.Parametrized) {template : ClassId} {bindings : Bindings}
    (original : (store.classAt template).template = none)
    (keys : bindings.keys = store.typeParameters template)
    (nonempty : store.typeParameters template ≠ []) :
    (store.addClass (Engine.placeholderRecord store template bindings)).2.Parametrized := by
  have shaped : ¬(store.classAt template).Unshaped := fun unshaped =>
    nonempty (typeParameters_of_unshaped unshaped)
  have apart : template ≠ store.nextClass := fun same => shaped (same ▸ store.unshaped_nextClass)
  have others (id : ClassId) (apart : id ≠ store.nextClass) :
      (store.addClass (Engine.placeholderRecord store template bindings)).2.classAt id =
        store.classAt id := by
    rw [classAt_addClass_eq, if_neg apart]
  have made : (store.addClass (Engine.placeholderRecord store template bindings)).2.templateOf
      store.nextClass = template := by
    rw [templateOf, classAt_addClass_eq, if_pos rfl]
    rfl
  refine parametrized.change others (parametrized.unused (.inl store.unshaped_nextClass)) ?_ ?_
  · rw [made, others template apart, classAt_addClass_eq, if_pos rfl,
      ← store.distinct_typeParameters_iff template, ← keys]
    exact Iff.rfl
  · intro origin made
    rw [classAt_addClass_eq, if_pos rfl] at made
    cases made
    exact ⟨apart, original, shaped⟩

/-- A specialization is given other bases. -/
theorem order (parametrized : store.Parametrized) {id : ClassId} (bases : List Ty)
    (specialized : (store.classAt id).template ≠ none) :
    (store.setBases id bases).Parametrized := by
  have others (other : ClassId) (apart : other ≠ id) :
      (store.setBases id bases).classAt other = store.classAt other := by
    rw [classAt_setBases, if_neg fun reached => apart reached.1]
  have same : ((store.setBases id bases).classAt id).template = (store.classAt id).template ∧
      ((store.setBases id bases).classAt id).parameters = (store.classAt id).parameters := by
    rw [classAt_setBases]
    split <;> exact ⟨rfl, rfl⟩
  obtain ⟨template, made⟩ := Option.ne_none_iff_exists'.mp specialized
  have apart : template ≠ id := by
    rintro rfl
    exact specialized (parametrized.original template template made)
  have drafted : (store.setBases id bases).templateOf id = template := by
    rw [templateOf, same.1, made]
    rfl
  refine parametrized.change others (parametrized.unused (.inr specialized)) ?_ ?_
  · rw [drafted, same.2, others template apart, parametrized.listed id, templateOf, made]
    exact Iff.rfl
  · intro origin now
    rw [same.1, made] at now
    cases now
    exact ⟨apart, parametrized.original id template made, parametrized.shaped id template made⟩

end Parametrized

/-- Every adjustment keeps it that a parameter is had twice only where a marker lists it twice. -/
theorem Adjusts.parametrized {store next : Store} (adjusts : store.Adjusts next)
    (parametrized : store.Parametrized) : next.Parametrized := by
  cases adjusts with
  | keep _ shapes => exact parametrized.keep shapes
  | create _ original unshaped => exact parametrized.create original unshaped
  | derive bases original unshaped => exact parametrized.derive bases original unshaped
  | draft original keys nonempty => exact parametrized.draft original keys nonempty
  | order specialized _ => exact parametrized.order _ specialized

end Store

namespace Registry

open Store TypeParameter

/-- The registered classes list no parameter twice. -/
theorem distinct_standard : standard.store.classes.all (fun record =>
    decide (Distinct record.parameters.keys ∧ record.ListsDistinct)) = true := by
  decide +kernel

/-- Before any analysis no parameter is had twice. -/
theorem parametrized_standard : standard.store.Parametrized where
  listed id := by
    have both (id : ClassId) := of_decide_eq_true
      (classAt_of_all _ _ distinct_standard (decide_eq_true ⟨List.nodup_nil, List.nodup_nil⟩) id)
    rw [templateOf, template_standard]
    exact iff_of_true (both id).1 (both id).2
  original id template made := by
    rw [template_standard] at made
    cases made
  shaped id template made := by
    rw [template_standard] at made
    cases made

end Registry

namespace Analyzer

open Store TypeParameter

/-- Parameters are bound once. Whatever comes of the analysis of a module, at any depth,
adjustments lead from the registered classes to the store that is left. In all stores that
adjustments lead to, a class has different parameters exactly if the marker of its template, if
there is one, lists different ones; the parameters that it could be specialized in are different
exactly if its own marker lists different ones; and a class with different parameters, all of them
bound to something else than parameters, has no open one.

Proof: analyses adjust shapes (`Engine.atDepth_shaping`), and what is said of the parameters of
classes holds of the registered ones and is kept by every adjustment (`Adjusts.parametrized`).
Different parameters are all found, so nothing remains that was not asked about. -/
theorem parameters_distinct_iff (depth : Nat) (options : Options) (module : Module) :
    Registry.standard.store.AdjustsTo ((Analysis.ofModuleWithin depth module).after
        ⟨Registry.standard.registry, options⟩ { store := Registry.standard.store }).store ∧
      ∀ store, Registry.standard.store.AdjustsTo store → ∀ id,
        (Distinct (store.classAt id).parameters.keys ↔
          (store.classAt (store.templateOf id)).ListsDistinct) ∧
        (Distinct (store.typeParameters id) ↔ (store.classAt id).ListsDistinct) ∧
        (Distinct (store.classAt id).parameters.keys →
          (∀ parameter ∈ (store.classAt id).parameters.keys, ∃ ty,
            (store.classAt id).parameters.find? parameter = some ty ∧ ty.asParameter? = none) →
          (store.classAt id).openParameters = []) := by
  have shapes := (Analysis.ofModuleWithin_keeps depth (Engine.atDepth_shaping depth)
    module).shaping.onwards trivial ⟨Registry.standard.registry, options⟩
      { store := Registry.standard.store }
  refine ⟨shapes.adjusted, fun store adjusted id => ⟨?_, ?_, ?_⟩⟩
  · have parametrized := adjusted.invariant Parametrized Registry.parametrized_standard
      fun adjusts => adjusts.parametrized
    exact parametrized.listed id
  · exact store.distinct_typeParameters_iff id
  · exact Bindings.openParameters_eq_nil

/-- A module with a class that lists one parameter twice, applied to a type. -/
def repeatingModule : Module :=
  ⟨[.typeVariable "T",
    .defineClass 1 "Box" [.index (.ofName "Generic")
      (.display .tuple [.ofName "T", .ofName "T"] .unknown) .unknown] [.pass .unknown],
    .define "b" (.indexed "Box" "int")]⟩

/-- A parameter can be had twice, and its second type is never bound: the class of boxes has its
only parameter twice, and a box of integers is left open in it. -/
theorem parameter_listed_twice :
    let store := storeAfter {} repeatingModule
    let box := Registry.standard.store.nextClass
    let boxOfIntegers : ClassId := ⟨box.index + 1⟩
    ¬Distinct (store.typeParameters box) ∧ ¬Distinct (store.classAt box).parameters.keys ∧
      (store.classAt boxOfIntegers).template = some box ∧
      ((store.classAt boxOfIntegers).parameters.find? (.named "T")).bind Ty.asClass? =
        some (builtinClass .int) ∧
      ¬Distinct (store.classAt boxOfIntegers).parameters.keys ∧
      (store.classAt boxOfIntegers).openParameters.length = 1 := by
  decide +kernel

end Analyzer

end TypeInference
