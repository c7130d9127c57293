import TypeInference.Proofs.Flow
import TypeInference.Proofs.Development

/-!
# What changes of the contents of a store keep

Members, bases, flags, signatures and returned values are contents: setting them creates no
class and no function, makes no class from a template, and evaluates no definition. If the
new contents refer to known functions and classes only, then so does the store afterwards.
-/

namespace TypeInference

variable {known : References} {store : Store}

/-- A change of an overload that leaves it as far evaluated leaves all of them so. -/
theorem FunctionRecord.states_modifyOverload (record : FunctionRecord) (index : Nat)
    {change : Overload → Overload}
    (keeps : ∀ overload, (change overload).state = overload.state) :
    (record.modifyOverload index change).overloads.map (·.state) =
      record.overloads.map (·.state) := by
  refine List.ext_getElem? fun place => ?_
  unfold FunctionRecord.modifyOverload
  rw [List.getElem?_map, List.getElem?_map, List.getElem?_modify]
  cases record.overloads[place]? with
  | none => rfl
  | some overload =>
    by_cases here : index = place
    · simp [here, keeps overload]
    · simp [here]

namespace Store

/-- The store after an attribute of receivers was set on a class. -/
def withAttribute (store : Store) (owner : ClassId) (name : String) (value : Value) : Store :=
  match store.ownMember? owner name with
  | some existing =>
    if existing.isUnknown then (store.addMember owner name value true).2 else store
  | none => (store.addMember owner name value true).2

/-- An attribute becomes a member, or one that is known stays. -/
theorem withAttribute_cases (store : Store) (owner : ClassId) (name : String) (value : Value) :
    store.withAttribute owner name value = store ∨
      store.withAttribute owner name value = (store.addMember owner name value true).2 := by
  unfold withAttribute
  split
  · split
    · exact .inr rfl
    · exact .inl rfl
  · exact .inr rfl

/-- A store in which classes and functions are what they were up to their contents: the same
classes are made from the same templates, and the same definitions are evaluated as far. -/
structure Alike (before after : Store) : Prop where
  hasClass : ∀ id, after.HasClass id ↔ before.HasClass id
  template : ∀ id, (after.classAt id).template = (before.classAt id).template
  hasFunction : ∀ id, after.HasFunction id ↔ before.HasFunction id
  node : ∀ id, (after.functionAt id).node = (before.functionAt id).node
  states : ∀ id, (after.functionAt id).overloads.map (·.state) =
    (before.functionAt id).overloads.map (·.state)

theorem Alike.refl (store : Store) : store.Alike store :=
  ⟨fun _ => Iff.rfl, fun _ => rfl, fun _ => Iff.rfl, fun _ => rfl, fun _ => rfl⟩

theorem Alike.trans {first second third : Store} (one : first.Alike second)
    (other : second.Alike third) : first.Alike third where
  hasClass id := (other.hasClass id).trans (one.hasClass id)
  template id := (other.template id).trans (one.template id)
  hasFunction id := (other.hasFunction id).trans (one.hasFunction id)
  node id := (other.node id).trans (one.node id)
  states id := (other.states id).trans (one.states id)

/-- A later store, in which every class is still made from the same template and every
function is still what it was by its definition. -/
structure Extends (before after : Store) : Prop where
  hasClass : ∀ id, before.HasClass id → after.HasClass id
  template : ∀ id, before.HasClass id →
    (after.classAt id).template = (before.classAt id).template
  hasFunction : ∀ id, before.HasFunction id → after.HasFunction id
  node : ∀ id, before.HasFunction id → (after.functionAt id).node = (before.functionAt id).node

theorem Extends.refl (store : Store) : store.Extends store :=
  ⟨fun _ => id, fun _ _ => rfl, fun _ => id, fun _ _ => rfl⟩

theorem Extends.trans {first second third : Store} (one : first.Extends second)
    (other : second.Extends third) : first.Extends third where
  hasClass id present := other.hasClass id (one.hasClass id present)
  template id present :=
    (other.template id (one.hasClass id present)).trans (one.template id present)
  hasFunction id present := other.hasFunction id (one.hasFunction id present)
  node id present := (other.node id (one.hasFunction id present)).trans (one.node id present)

theorem Alike.extends {before after : Store} (alike : before.Alike after) :
    before.Extends after where
  hasClass id := (alike.hasClass id).mpr
  template id _ := alike.template id
  hasFunction id := (alike.hasFunction id).mpr
  node id _ := alike.node id

theorem extends_addClass (store : Store) (record : ClassRecord) :
    store.Extends (store.addClass record).2 where
  hasClass id present := (hasClass_addClass store record id).mpr (.inl present)
  template id present := by rw [classAt_addClass_of_hasClass store record id present]
  hasFunction _ := id
  node _ _ := rfl

theorem extends_addFunction (store : Store) (record : FunctionRecord) :
    store.Extends (store.addFunction record).2 where
  hasClass _ := id
  template _ _ := rfl
  hasFunction id present := (hasFunction_addFunction store record id).mpr (.inl present)
  node id present := by
    have before : id ≠ store.nextFunction := by
      rintro rfl
      exact Nat.lt_irrefl _ present
    rw [functionAt_addFunction_eq, if_neg before]

theorem alike_modifyClass (store : Store) (id : ClassId) {change : ClassRecord → ClassRecord}
    (keeps : ∀ record, (change record).template = record.template) :
    store.Alike (store.modifyClass id change) where
  hasClass other := hasClass_modifyClass store id other change
  template other := by
    rw [classAt_modifyClass_eq]
    split
    · exact keeps _
    · rfl
  hasFunction _ := Iff.rfl
  node _ := rfl
  states _ := rfl

theorem alike_modifyFunction (store : Store) (id : FunctionId)
    {change : FunctionRecord → FunctionRecord}
    (node : ∀ record, (change record).node = record.node)
    (states : ∀ record : FunctionRecord,
      (change record).overloads.map (·.state) = record.overloads.map (·.state)) :
    store.Alike (store.modifyFunction id change) where
  hasClass _ := Iff.rfl
  template _ := rfl
  hasFunction other := hasFunction_modifyFunction store id other change
  node other := by
    rw [functionAt_modifyFunction_eq]
    split
    · exact node _
    · rfl
  states other := by
    rw [functionAt_modifyFunction_eq]
    split
    · exact states _
    · rfl

theorem alike_addMember (store : Store) (id : ClassId) (name : String) (value : Value)
    (overwrite : Bool) : store.Alike (store.addMember id name value overwrite).2 := by
  rw [addMember_eq]
  exact alike_modifyClass store id fun _ => rfl

theorem alike_withAttribute (store : Store) (owner : ClassId) (name : String) (value : Value) :
    store.Alike (store.withAttribute owner name value) := by
  rcases store.withAttribute_cases owner name value with same | added
  · rw [same]
    exact .refl store
  · rw [added]
    exact alike_addMember store owner name value true

theorem alike_setBases (store : Store) (id : ClassId) (bases : List Ty) :
    store.Alike (store.setBases id bases) :=
  alike_modifyClass store id fun _ => rfl

end Store

theorem within_addClass (within : Within known store) {record : ClassRecord}
    (given : Within known record) : Within known (store.addClass record).2 := by
  refine ⟨fun id => ?_, within.2⟩
  rw [Store.classAt_addClass_eq]
  exact within_ite given (within.1 id)

theorem within_addFunction (within : Within known store) {record : FunctionRecord}
    (given : Within known record) : Within known (store.addFunction record).2 := by
  refine ⟨within.1, fun id => ?_⟩
  rw [Store.functionAt_addFunction_eq]
  exact within_ite given (within.2 id)

theorem within_modifyClass (within : Within known store) (id : ClassId)
    {change : ClassRecord → ClassRecord}
    (keeps : ∀ record, Within known record → Within known (change record)) :
    Within known (store.modifyClass id change) := by
  refine ⟨fun other => ?_, within.2⟩
  rw [Store.classAt_modifyClass_eq]
  split
  · exact keeps _ (within.1 other)
  · exact within.1 other

theorem within_modifyFunction (within : Within known store) (id : FunctionId)
    {change : FunctionRecord → FunctionRecord}
    (keeps : ∀ record, Within known record → Within known (change record)) :
    Within known (store.modifyFunction id change) := by
  refine ⟨within.1, fun other => ?_⟩
  rw [Store.functionAt_modifyFunction_eq]
  split
  · exact keeps _ (within.2 other)
  · exact within.2 other

theorem within_modifiedOverload {record : FunctionRecord} (given : Within known record)
    (index : Nat) {change : Overload → Overload}
    (keeps : ∀ overload, Within known overload → Within known (change overload)) :
    Within known (record.modifyOverload index change) := by
  refine ⟨fun overload listed => ?_, given.2⟩
  obtain ⟨place, found⟩ := List.mem_iff_getElem?.mp listed
  unfold FunctionRecord.modifyOverload at found
  rw [List.getElem?_modify] at found
  obtain ⟨before, there, rfl⟩ := Option.map_eq_some_iff.mp found
  have within := given.1 before (List.mem_of_getElem? there)
  split
  · exact keeps before within
  · exact within

theorem within_modifyOverload (within : Within known store) (id : OverloadId)
    {change : Overload → Overload}
    (keeps : ∀ overload, Within known overload → Within known (change overload)) :
    Within known (store.modifyOverload id change) :=
  within_modifyFunction within id.function fun _ given =>
    within_modifiedOverload given id.index keeps

theorem within_insertMember {table : MemberTable} (within : Within known table.values)
    (name : String) {value : Value} (given : Within known value) (overwrite : Bool) :
    Within known (table.insert name value overwrite).2.values := by
  unfold MemberTable.insert
  split
  · exact within
  · exact OrderedTable.within_put within name given

theorem within_addMember (within : Within known store) (id : ClassId) (name : String)
    {value : Value} (given : Within known value) (overwrite : Bool) :
    Within known (store.addMember id name value overwrite).2 := by
  rw [Store.addMember_eq]
  refine within_modifyClass within id fun record recorded => ⟨recorded.1, ?_, recorded.2.2⟩
  exact within_insertMember (within.1 id).members name given overwrite

theorem within_withAttribute (within : Within known store) (owner : ClassId) (name : String)
    {value : Value} (given : Within known value) :
    Within known (store.withAttribute owner name value) := by
  rcases store.withAttribute_cases owner name value with same | added
  · rwa [same]
  · rw [added]
    exact within_addMember within owner name given true

theorem within_withObject {bases : List Ty} (within : Within known bases) :
    Within known (Engine.withObject bases) :=
  within_ite within ((within_append _ _).mpr
    ⟨within, (within_cons _ _).mpr ⟨within_builtinType _, within_nil⟩⟩)

theorem within_setBases (within : Within known store) (id : ClassId) {bases : List Ty}
    (given : Within known bases) : Within known (store.setBases id bases) :=
  within_modifyClass within id fun _ recorded => ⟨given, recorded.2⟩

/-- The placeholder of a specialization refers to its template and to what is bound. -/
theorem within_placeholderRecord (store : Store) {template : ClassId}
    (made : known (.cls template)) {bindings : Bindings} (given : Within known bindings) :
    Within known (Engine.placeholderRecord store template bindings) :=
  ⟨within_nil, within_nil, given, (within_some _).mpr made, within_nil, within_nil⟩

theorem within_beginSpecialization (within : Within known store) (template : ClassId)
    (signature : ResolvedSignature) {placeholder : ClassId} (given : known (.cls placeholder)) :
    Within known (Engine.beginSpecialization store template signature placeholder).2 := by
  refine within_modifyClass within template fun record recorded => ?_
  refine ⟨recorded.bases, recorded.members, recorded.parameters, recorded.template,
    recorded.finished, ?_⟩
  have stack := (within.1 template).placeholders
  dsimp only [UnfinishedStack.push]
  split
  · exact stack
  · exact (within_cons _ _).mpr ⟨given, stack⟩

/-- A specialization begins with a placeholder that may be referred to. -/
theorem within_begin (within : Within known store) {template : ClassId}
    (made : known (.cls template)) (created : known (.cls store.nextClass)) {bindings : Bindings}
    (given : Within known bindings) : Within known (store.begin template bindings) :=
  within_beginSpecialization
    (within_addClass within (within_placeholderRecord store made given)) template _ created

theorem within_endSpecialization (within : Within known store) (template : ClassId) :
    Within known (Engine.endSpecialization store template) := by
  refine within_modifyClass within template fun record recorded => ?_
  refine ⟨recorded.bases, recorded.members, recorded.parameters, recorded.template,
    recorded.finished, ?_⟩
  have stack := recorded.placeholders
  dsimp only
  unfold UnfinishedStack.pop
  split
  · exact stack
  · next last rest entries =>
    rw [entries, List.map_cons] at stack
    exact stack.tail

/-- A specialization is stored that may be referred to. -/
theorem within_storeSpecialization (within : Within known store) (template : ClassId)
    (signature : ResolvedSignature) {specialized : ClassId}
    (given : known (.cls specialized)) :
    Within known (Engine.storeSpecialization store template signature specialized).2 := by
  refine within_modifyClass within template fun record recorded => ?_
  refine ⟨recorded.bases, recorded.members, recorded.parameters, recorded.template, ?_,
    recorded.placeholders⟩
  intro finished listed
  rcases OrderedTable.mem_values_putNew listed with before | rfl
  · exact recorded.finished finished before
  · exact given

end TypeInference
