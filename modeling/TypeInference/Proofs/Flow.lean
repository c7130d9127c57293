import TypeInference.Proofs.Evidence
import TypeInference.Proofs.References

/-!
# No reference comes from nowhere

Whatever is computed from values, bindings and the records of a store refers only to functions
and classes that these refer to, or to builtin classes. There is one law for every computation
that evaluation and specialization are made of.
-/

namespace TypeInference

variable {known : References} {store : Store}

namespace OrderedTable

variable {κ α : Type} [DecidableEq κ]

/-- What is found under a key is listed with it. -/
theorem mem_of_find? {table : OrderedTable κ α} {key : κ} {value : α}
    (found : table.find? key = some value) : (key, value) ∈ table.entries := by
  have inEntries (entries : List (κ × α)) (found : findIn key entries = some value) :
      (key, value) ∈ entries := by
    induction entries with
    | nil => cases found
    | cons entry rest inductionHypothesis =>
      rw [findIn] at found
      split at found
      · next same =>
        cases found
        exact same ▸ List.mem_cons_self
      · exact List.mem_cons_of_mem _ (inductionHypothesis found)
  exact inEntries table.entries found

/-- A value found in a table is one of its values. -/
theorem mem_values_of_find? {table : OrderedTable κ α} {key : κ} {value : α}
    (found : table.find? key = some value) : value ∈ table.values :=
  List.mem_map_of_mem (mem_of_find? found)

theorem within_find? [Refers α] {table : OrderedTable κ α} (within : Within known table.values)
    (key : κ) : Within known (table.find? key) :=
  fun value found => within value (mem_values_of_find? found)

theorem within_put [Refers α] {table : OrderedTable κ α} (within : Within known table.values)
    (key : κ) {value : α} (given : Within known value) : Within known (table.put key value).values := by
  intro found listed
  rcases mem_values_put listed with before | rfl
  · exact within found before
  · exact given

end OrderedTable

section Types

mutual

theorem within_typeOf : ∀ {value : Value}, Within known value →
    Within known (store.typeOf value)
  | .unknown, _ => trivial
  | .type _, within => Ty.Stands.mentions within
  | .object _ _, within => within.objectType
  | .union alternatives, within => by
    have types := within_typesOf ((within_union alternatives).mp within).2
    rw [Store.typeOf]
    split
    · exact within_unknownType
    · next first rest found =>
      rw [found] at types
      split
      · exact types first List.mem_cons_self
      · exact within_unknownType

theorem within_typesOf : ∀ {values : List Value}, Within known values →
    Within known (store.typesOf values)
  | [], _ => within_nil
  | value :: rest, within => by
    rw [within_cons] at within
    rw [Store.typesOf, within_cons]
    exact ⟨within_typeOf within.1, within_typesOf within.2⟩

end

theorem within_alternatives {value : Value} (within : Within known value) :
    Within known value.alternatives := by
  cases value with
  | union alternatives => exact ((within_union alternatives).mp within).2
  | _ => exact (within_cons _ _).mpr ⟨within, within_nil⟩

/-- The distinct alternatives of some values, in order. -/
def Store.distinctAlternatives (store : Store) (values : List Value) : List Value :=
  (values.flatMap Value.alternatives).foldl store.addAlternative []

theorem within_distinctAlternatives {values : List Value} (within : Within known values) :
    Within known (store.distinctAlternatives values) := by
  refine Refers.Within.foldl within_nil fun kept value listed before => ?_
  obtain ⟨from_, among, alternative⟩ := List.mem_flatMap.mp listed
  unfold Store.addAlternative
  split
  · exact before
  · refine (within_append _ _).mpr ⟨before, (within_cons _ _).mpr ⟨?_, within_nil⟩⟩
    exact within_alternatives (within from_ among) value alternative

/-- References among which are those of all unions that a store makes of what has them. -/
def References.ClosedIn (known : References) (store : Store) : Prop :=
  ∀ values : List Value, Within known values → Within known (store.union values)

/-- A union of some values is made of their distinct alternatives. -/
theorem within_unionOf {values : List Value} (within : Within known values)
    (united : (∀ value ∈ values, value.isUnknown = false) →
      2 ≤ (store.distinctAlternatives values).length →
        known (.union (store.distinctAlternatives values))) :
    Within known (store.union values) := by
  have distinct : Within known (store.distinctAlternatives values) :=
    within_distinctAlternatives within
  unfold Store.union
  split
  · exact within_unknown
  · next noneUnknown =>
    change Within known (Store.wrap (store.distinctAlternatives values))
    have united := united (by simpa using noneUnknown)
    generalize store.distinctAlternatives values = alternatives at distinct united
    match alternatives with
    | [] => exact within_unknown
    | [value] => exact distinct value List.mem_cons_self
    | _ :: _ :: _ => exact (within_union _).mpr ⟨united (by simp), distinct⟩

/-- References among which are all unions are closed in every store. -/
theorem References.ClosedIn.of_union (unions : ∀ alternatives, known (.union alternatives))
    (store : Store) : known.ClosedIn store :=
  fun _ within => within_unionOf within fun _ _ => unions _

end Types

section Bindings

theorem within_identity (parameters : List TypeParameter) :
    Within known (Bindings.identity parameters) := by
  intro ty listed
  simp only [Bindings.types, Bindings.identity, List.map_map, List.mem_map] at listed
  obtain ⟨parameter, -, rfl⟩ := listed
  exact within_parameterType parameter

theorem within_noBindings : Within known Bindings.empty :=
  within_nil

theorem within_bind {bindings : Bindings} (within : Within known bindings)
    (parameter : TypeParameter) {ty : Ty} (given : Within known ty) :
    Within known (bindings.bind parameter ty) := by
  intro other listed
  rcases Bindings.mem_types_bind listed with rfl | before
  · exact given
  · exact within other before

theorem within_binding {bindings : Bindings} (within : Within known bindings)
    (parameter : TypeParameter) : Within known (bindings.find? parameter) :=
  fun ty found => within ty (Bindings.mem_types_of_find? found)

theorem within_resolve? {bindings : Bindings} (within : Within known bindings)
    (parameter : TypeParameter) : Within known (bindings.resolve? parameter) := by
  have bound := within_binding within parameter
  unfold Bindings.resolve?
  split
  · split
    · exact within_none
    · exact (within_some _).mpr (within_parameterType _)
  · next ty found => rw [← found]; exact bound
  · exact within_none

theorem within_mergeResolved {bindings additional : Bindings} (within : Within known bindings)
    (added : Within known additional) :
    Within known (Store.mergeResolved bindings additional) := by
  refine Refers.Within.foldl within fun merged entry listed before => ?_
  exact within_ite before (within_bind before _ (added _ (List.mem_map_of_mem listed)))

end Bindings

section Records

theorem within_newObject (within : Within known store) {id : ClassId}
    (given : known (.cls id)) : Within known (store.newObject id) := by
  have types : Within known (store.classAt id).parameters.types := (within.1 id).parameters
  have sample (place : Nat) : Within known
      (((store.classAt id).parameters.types[place]?.map Value.ofTy).getD .unknown) := by
    refine Refers.Within.getD ?_ within_unknown
    intro value found
    obtain ⟨ty, listed, rfl⟩ := Option.map_eq_some_iff.mp found
    exact (types.getElem? place ty listed).ofTy
  unfold Store.newObject
  dsimp only
  split
  · refine Refers.Within.getD ?_ within_unknown
    intro value found
    obtain ⟨ty, listed, rfl⟩ := Option.map_eq_some_iff.mp found
    exact (types.head? ty listed).ofType
  · split <;> simp [sample, given]

@[simp] theorem within_constantObject (constant : Constant) :
    Within known (Store.constantObject constant) :=
  known.builtin constant.builtin

@[simp] theorem within_noneObject : Within known Store.noneObject :=
  within_constantObject .none

theorem within_builtinObject (within : Within known store) (builtin : Builtin) :
    Within known (store.builtinObject builtin) :=
  within_newObject within (known.builtin builtin)

theorem within_described (within : Within known store) {ty : Ty} (given : Within known ty) :
    Within known (store.described ty) := by
  cases ty with
  | cls id => exact within_newObject within given
  | _ => exact trivial

theorem within_ownMember? (within : Within known store) (id : ClassId) (name : String) :
    Within known (store.ownMember? id name) :=
  OrderedTable.within_find? (within.1 id).members name

theorem within_member? (within : Within known store) (id : ClassId) (name : String) :
    Within known (store.member? id name) := by
  intro value found
  obtain ⟨ancestor, -, own⟩ := List.exists_of_findSome?_eq_some found
  exact within_ownMember? within ancestor name value own

theorem within_method? (within : Within known store) (id : ClassId) (name : String) :
    Within known (store.method? id name) := by
  intro function found
  obtain ⟨value, member, isFunction⟩ := Option.bind_eq_some_iff.mp found
  exact (within_member? within id name value member).asFunction? function isFunction

theorem within_firstOverload (within : Within known store) (function : FunctionId) :
    Within known (store.functionAt function).overloads.head? :=
  Refers.Within.head? (within.2 function).1

theorem within_returnValue (closed : known.ClosedIn store) {overload : Overload}
    (within : Within known overload) : Within known (store.returnValue overload) := by
  unfold Store.returnValue
  split
  · next value declared => exact within.2.1 value declared
  · exact closed _ within.2.2

/-- The samples in the content of a value refer to what the value refers to. -/
theorem within_contentSamples {value : Value} (given : Within known value) :
    Within known (Store.contentSamples value) := by
  match value with
  | .object _ (.sequence ⟨items, _⟩) =>
    intro sample listed
    have items := ((within_sequence _ _ _).mp given).2
    exact items.head? sample (Option.mem_toList.mp listed)
  | .object _ (.mapping ⟨[], _⟩) => exact within_nil
  | .object _ (.mapping ⟨(key, content) :: _, _⟩) =>
    have first := ((within_mapping _ _ _).mp given).2 (key, content) List.mem_cons_self
    exact (within_cons _ _).mpr ⟨first.1, (within_cons _ _).mpr ⟨first.2, within_nil⟩⟩
  | .object _ (.iterator element) =>
    exact (within_cons _ _).mpr ⟨((within_iterator _ _).mp given).2, within_nil⟩
  | .object _ .plain | .object _ (.constant _) | .unknown | .type _ | .union _ =>
    exact within_nil

theorem within_receiverBindings (within : Within known store) {receiver : Value}
    (given : Within known receiver) : Within known (store.receiverBindings receiver) := by
  unfold Store.receiverBindings
  dsimp only
  split
  · exact within_noBindings
  · refine Refers.Within.foldl ?_ fun bindings sample listed before => ?_
    · refine Refers.Within.foldl within_noBindings fun merged additional listed before => ?_
      refine within_mergeResolved before ?_
      rcases List.mem_cons.mp listed with rfl | listed
      · exact (within.1 _).parameters
      · obtain ⟨ancestor, -, rfl⟩ := List.mem_map.mp listed
        exact (within.1 ancestor).parameters
    · split
      · exact within_bind before _
          (within_typeOf (within_contentSamples given _ (List.of_mem_zip listed).2))
      · exact before

mutual

theorem within_eraseParameters (closed : known.ClosedIn store) : ∀ {value : Value},
    Within known value → Within known (store.eraseParameters value)
  | .type (.parameter _), _ => trivial
  | .object (.parameter _) _, _ => by
    rw [Store.eraseParameters]
    exact within_unknown
  | .union alternatives, within => by
    rw [Store.eraseParameters]
    exact closed _ (within_eraseAll closed ((within_union alternatives).mp within).2)
  | .unknown, _ => trivial
  | .type .unknown, within | .type (.cls _), within | .type (.function _), within
  | .type (.marker _), within => within
  | .object .unknown _, within | .object (.cls _) _, within | .object (.function _) _, within
  | .object (.marker _) _, within => by
    rw [Store.eraseParameters] <;> simp [within]

theorem within_eraseAll (closed : known.ClosedIn store) : ∀ {values : List Value},
    Within known values → Within known (store.eraseAll values)
  | [], _ => within_nil
  | value :: rest, within => by
    rw [within_cons] at within
    rw [Store.eraseAll, within_cons]
    exact ⟨within_eraseParameters closed within.1, within_eraseAll closed within.2⟩

end

end Records

section Calls

theorem within_takeKeyword {supply : Supply} (within : Within known supply.keywords)
    (name : String) : Within known (supply.takeKeyword name).1 ∧
      Within known (supply.takeKeyword name).2.keywords ∧
        (supply.takeKeyword name).2.positional = supply.positional := by
  have inKeywords (keywords : List (String × Value)) (within : Within known keywords)
      {value : Value} {rest : List (String × Value)}
      (found : Supply.keywordIn name keywords = some (value, rest)) :
      Within known value ∧ Within known rest := by
    induction keywords generalizing value rest with
    | nil => cases found
    | cons entry others inductionHypothesis =>
      rw [within_cons] at within
      rw [Supply.keywordIn] at found
      split at found
      · cases found
        exact ⟨within.1.2, within.2⟩
      · obtain ⟨⟨later, left⟩, deeper, same⟩ := Option.map_eq_some_iff.mp found
        cases same
        have behind := inductionHypothesis within.2 deeper
        exact ⟨behind.1, (within_cons _ _).mpr ⟨within.1, behind.2⟩⟩
  unfold Supply.takeKeyword
  split
  · next value rest found =>
    have taken := inKeywords _ within found
    exact ⟨(within_some _).mpr taken.1, taken.2, rfl⟩
  · exact ⟨within_none, within, rfl⟩

theorem within_boundOrDefault {parameter : FormalParameter} (formal : Within known parameter)
    {value : Option Value} (given : Within known value) :
    Within known (Supply.boundOrDefault parameter value) := by
  intro argument listed
  obtain ⟨bound, chosen, rfl⟩ := Option.map_eq_some_iff.mp (Option.mem_toList.mp listed)
  refine ⟨?_, formal.1⟩
  cases value with
  | none => exact formal.2 bound chosen
  | some placed =>
    cases chosen
    exact given bound rfl

theorem within_supplied {supply : Supply} (positional : Within known supply.positional)
    (keywords : Within known supply.keywords) {parameter : FormalParameter}
    (formal : Within known parameter) :
    Within known (supply.bind parameter).1 ∧ Within known (supply.bind parameter).2.positional ∧
      Within known (supply.bind parameter).2.keywords := by
  have keyword := within_takeKeyword keywords parameter.name
  unfold Supply.bind
  cases parameter.kind with
  | normal =>
    dsimp only
    unfold Supply.takeNormal
    split
    · next value rest found =>
      rw [found, within_cons] at positional
      exact ⟨within_boundOrDefault formal ((within_some _).mpr positional.1), positional.2,
        keywords⟩
    · exact ⟨within_boundOrDefault formal keyword.1, keyword.2.2 ▸ positional, keyword.2.1⟩
  | keywordOnly =>
    exact ⟨within_boundOrDefault formal keyword.1, keyword.2.2 ▸ positional, keyword.2.1⟩
  | varPositional =>
    exact ⟨positional.map fun value within => ⟨within, formal.1⟩, within_nil, keywords⟩
  | varKeyword => exact ⟨within_nil, positional, keywords⟩

theorem within_forCall {parameters : List FormalParameter} (formal : Within known parameters)
    {receiver : Option Value} (received : Within known receiver) {positional : List Value}
    (placed : Within known positional) {keywords : List (String × Value)}
    (named : Within known keywords) (span : Span) :
    Within known (Arguments.forCall parameters receiver positional keywords span) := by
  have taken (parameters : List FormalParameter) (formal : Within known parameters) :
      ∀ supply : Supply, Within known supply.positional → Within known supply.keywords →
        Within known ((supply.bindAll parameters).1 ++ (supply.bindAll parameters).2.surplus) := by
    induction parameters with
    | nil =>
      intro supply positional keywords
      refine (within_append _ _).mpr ⟨within_nil, (within_append _ _).mpr ⟨?_, ?_⟩⟩
      · exact positional.map fun value within => ⟨within, within_unknownType⟩
      · exact keywords.map fun entry within => ⟨within.2, within_unknownType⟩
    | cons parameter rest inductionHypothesis =>
      intro supply positional keywords
      rw [within_cons] at formal
      have first := within_supplied positional keywords formal.1
      have others := inductionHypothesis formal.2 _ first.2.1 first.2.2
      rw [within_append] at others
      simp only [Supply.bindAll, within_append]
      exact ⟨⟨first.1, others.1⟩, others.2⟩
  unfold Arguments.forCall
  split
  next pair receivedArguments remaining chosen =>
  change Within known ((receivedArguments ++ _ ++ _ : List Argument))
  rw [List.append_assoc, within_append]
  split at chosen
  · next value first rest =>
    cases chosen
    rw [within_cons] at formal
    exact ⟨(within_cons _ _).mpr ⟨⟨received value rfl, formal.1.1⟩, within_nil⟩,
      taken _ formal.2 ⟨positional, keywords⟩ placed named⟩
  · cases chosen
    exact ⟨within_nil, taken _ formal ⟨positional, keywords⟩ placed named⟩

theorem within_ofValues {values : List Value} (within : Within known values) (span : Span) :
    Within known (Arguments.ofValues values span) :=
  Refers.Within.map within fun _ value => ⟨value, within_unknownType⟩

theorem within_ofTypes {types : List Ty} (within : Within known types) (span : Span) :
    Within known (Arguments.ofTypes types span) :=
  within_ofValues (within.map fun _ ty => ty.ofType) span

theorem within_callBindings (within : Within known store) {overload : Overload}
    (signature : Within known overload) {receiver : Option Value}
    (received : Within known receiver) {positional : List Value}
    (placed : Within known positional) {keywords : List (String × Value)}
    (named : Within known keywords) (span : Span) :
    Within known (Engine.callBindings store overload receiver positional keywords span) := by
  have arguments := within_forCall signature.1 received placed named span
  unfold Engine.callBindings
  refine Refers.Within.foldl ?_ fun bindings argument listed before => ?_
  · split
    · next value => exact within_receiverBindings within (received value rfl)
    · exact within_noBindings
  · unfold Engine.bindDeclared
    split
    · dsimp only
      split
      · exact within_bind before _ (within_typeOf (arguments argument listed).1)
      · exact before
    · exact before

theorem within_receiverFor (function : FunctionId) {target : Value}
    (given : Within known target) : Within known (Engine.receiverFor store function target) := by
  unfold Engine.receiverFor
  dsimp only
  split
  · exact within_none
  · split
    · exact (within_some _).mpr given.objectType.ofType
    · exact (within_some _).mpr given
    · exact (within_some _).mpr given
    · exact within_none

/-- The object of a builtin nature that is made from what can be iterated over. -/
def Engine.collected (store : Store) (id : ClassId) (nature : Builtin) (iterable : Value) : Value :=
  match iterable.firstElement? with
  | some sample =>
    if sample.isUnknown then store.newObject id
    else .object (Store.builtinType nature) (.sequence ⟨[sample], false⟩)
  | none => store.newObject id

theorem within_collected (within : Within known store) {id : ClassId} (given : known (.cls id))
    (nature : Builtin) {iterable : Value} (placed : Within known iterable) :
    Within known (Engine.collected store id nature iterable) := by
  have object := within_newObject within given
  have element := placed.firstElement?
  unfold Engine.collected
  split
  · next sample found =>
    split
    · exact object
    · simp [element sample found]
  · exact object

theorem within_builtinInstance (within : Within known store) {id : ClassId}
    (given : known (.cls id)) {positional : List Value} (placed : Within known positional) :
    Within known (Engine.builtinInstance store id positional) := by
  have collected (nature : Builtin) {iterable : Value} := @within_collected _ _ within _ given
    nature iterable
  unfold Engine.builtinInstance
  dsimp only
  split
  · exact (within_typeOf (placed _ List.mem_cons_self)).ofType
  · exact collected .list (placed _ List.mem_cons_self)
  · exact collected .tuple (placed _ List.mem_cons_self)
  · exact collected .set (placed _ List.mem_cons_self)
  · exact within_newObject within given

theorem within_declaredParameter (positional : List Value) (keywords : List (String × Value)) :
    Within known (Engine.declaredParameter positional keywords) := by
  unfold Engine.declaredParameter
  split
  · exact within_unknown
  · split
    · exact within_unknown
    · exact trivial

theorem within_add {values : Engine.CallValues} (within : Within known values)
    (passing : Passing) {value : Value} (given : Within known value) :
    Within known (values.add passing value) := by
  unfold Engine.CallValues.add
  split
  · exact ⟨(within_cons _ _).mpr ⟨given, within.1⟩, within.2⟩
  · exact ⟨within.1, (within_cons _ _).mpr ⟨⟨trivial, given⟩, within.2⟩⟩
  · split
    · next items found =>
      exact ⟨(within_append _ _).mpr ⟨given.sequence found, within.1⟩, within.2⟩
    · exact within
  · exact within

end Calls

section Containers

theorem within_selectItem {content : SequenceContent} (within : Within known content.items)
    (position : Value) : Within known (content.select position) := by
  have first : Within known (content.first?.getD .unknown) :=
    Refers.Within.getD (Refers.Within.head? within) within_unknown
  unfold SequenceContent.select
  split
  · split
    · next item found =>
      have placed (place : Int) (found : (if 0 ≤ place then content.items[place.toNat]? else none)
          = some item) : Within known item := by
        split at found
        · exact Refers.Within.getElem? within _ item found
        · cases found
      exact placed _ found
    · split
      · exact within_unknown
      · exact first
  · exact first

theorem within_selectValue {content : MappingContent} (within : Within known content.entries)
    (key : Value) : Within known (content.select key) := by
  unfold MappingContent.select
  refine Refers.Within.getD ?_ within_unknown
  intro value found
  rcases Option.or_eq_some_iff.mp found with byKey | ⟨-, first⟩
  · obtain ⟨constant, -, selected⟩ := Option.bind_eq_some_iff.mp byKey
    obtain ⟨entry, listed, rfl⟩ := Option.map_eq_some_iff.mp selected
    exact (within entry (List.mem_of_find?_eq_some listed)).2
  · exact Refers.Within.head? within.values value first

/-- A class that an index gives arguments is the indexed value. -/
theorem within_typeIndex {container : Value} (within : Within known container) {generic : ClassId}
    (indexed : Engine.typeIndex store container = .arguments generic) :
    known (.cls generic) := by
  unfold Engine.typeIndex at indexed
  split at indexed
  · split at indexed
    · cases indexed
    · split at indexed
      · cases indexed
        exact within
      · cases indexed
  · cases indexed

theorem within_sampled (kind : ComprehensionKind) {element value : Value}
    (sampled : Within known element) (given : Within known value) :
    Within known (Engine.sampled kind element value) := by
  unfold Engine.sampled
  split <;> simp [sampled, given]

theorem within_addEntry {entries : List (Value × Value)} (within : Within known entries)
    {entry : Value × Value} (given : Within known entry) :
    Within known (Engine.addEntry entries entry) := by
  induction entries with
  | nil => exact (within_cons _ _).mpr ⟨given, within_nil⟩
  | cons first rest inductionHypothesis =>
    rw [within_cons] at within
    rw [Engine.addEntry]
    split
    · split
      · exact (within_cons _ _).mpr ⟨⟨within.1.1, given.2⟩, within.2⟩
      · exact (within_cons _ _).mpr ⟨within.1, inductionHypothesis within.2⟩
    · exact (within_cons _ _).mpr ⟨within.1, inductionHypothesis within.2⟩

end Containers

section Parameters

/-- The receiver of a method is an object of the class that declares it. -/
theorem within_takesReceiver {record : FunctionRecord} (within : Within known record)
    (place : Nat) (parameter : Parameter) :
    Within known (Engine.takesReceiver record place parameter) := by
  unfold Engine.takesReceiver
  split
  · exact fun owner declaring => known.owner owner (within.2 owner declaring)
  · exact within_none

theorem within_parameterMeaning (within : Within known store) (record : FunctionRecord)
    {receiver : Option ClassId} (received : Within known receiver) {declared : Ty}
    (annotated : Within known declared) {default : Option Value}
    (given : Within known default) :
    Within known (Engine.parameterMeaning store record receiver declared default) := by
  unfold Engine.parameterMeaning
  split
  · split
    · next id =>
      have isKnown : known (.cls id) := received id rfl
      refine ⟨isKnown, ?_⟩
      dsimp only
      split
      · exact isKnown
      · exact within_newObject within isKnown
    · exact ⟨annotated, given.getD within_unknown⟩
  · exact ⟨annotated, within_described within annotated⟩

theorem within_gathered (within : Within known store) (kind : ParameterKind) {value : Value}
    (given : Within known value) : Within known (Engine.gathered store kind value) := by
  unfold Engine.gathered
  split
  · rw [within_sequence]
    refine ⟨within_builtinType _, ?_⟩
    split
    · exact within_nil
    · exact (within_cons _ _).mpr ⟨given, within_nil⟩
  · rw [within_mapping]
    refine ⟨within_builtinType _, ?_⟩
    split
    · exact within_nil
    · exact (within_cons _ _).mpr ⟨⟨within_builtinObject within _, given⟩, within_nil⟩
  · exact given

end Parameters

section Evidence

variable {evidence : Evidence} {template : ClassId}

theorem within_addBase (within : Within known evidence) {ty : Ty} (given : Within known ty) :
    Within known (evidence.addBase store template ty) := by
  unfold Evidence.addBase
  refine within_ite within ⟨within.1, ?_, within.2.2⟩
  exact (within_append _ _).mpr ⟨within.2.1, (within_cons _ _).mpr ⟨given, within_nil⟩⟩

theorem within_samples (nature : Option Builtin) (count : Nat) {value : Value}
    (given : Within known value) : Within known (Evidence.samples nature count value) := by
  unfold Evidence.samples
  split
  · split
    · next mapping found =>
      have entries := given.mapping found
      exact (within_cons _ _).mpr ⟨entries.keys.head?,
        (within_cons _ _).mpr ⟨entries.values.head?, within_nil⟩⟩
    · exact within_nil
  · split
    · next sequence found =>
      exact (given.sequence found).map fun item within => (within_some _).mpr within
    · exact within_nil
  · exact (within_cons _ _).mpr ⟨given.firstElement?, within_nil⟩
  · exact within_nil

theorem within_bindSample (within : Within known evidence) (parameter : TypeParameter)
    {sample : Option Value} (given : Within known sample) :
    Within known (evidence.bindSample store parameter sample) := by
  unfold Evidence.bindSample
  split
  · next value =>
    refine within_ite ⟨?_, within.2⟩ within
    exact within_bind within.1 parameter (within_typeOf (given value rfl))
  · exact within

theorem within_sampleBases? (within : Within known evidence) {value : Value}
    (given : Within known value) :
    Within known (evidence.sampleBases? store template value) := by
  intro sampled found
  unfold Evidence.sampleBases? at found
  dsimp only at found
  split at found
  · obtain ⟨base, -, rfl⟩ := Option.map_eq_some_iff.mp found
    have based : Within known (evidence.addBase store template (store.typeOf value)) :=
      within_addBase within (within_typeOf given)
    refine within_ite (Refers.Within.foldl based fun shown sample listed before => ?_) based
    exact within_bindSample before sample.1
      (within_samples _ _ given sample.2 (List.of_mem_zip listed).2)
  · cases found

theorem within_takeArgument (within : Within known evidence) {argument : Argument}
    (given : Within known argument) :
    Within known (evidence.takeArgument store template argument) := by
  unfold Evidence.takeArgument
  dsimp only
  split
  · next parameter _ =>
    refine within_ite within ⟨?_, within.2⟩
    exact within_bind within.1 parameter (within_typeOf given.1)
  · split
    · next sampled found =>
      split at found
      · exact within_sampleBases? within given.1 sampled found
      · cases found
    · refine within_ite within ⟨within.1, within.2.1, ?_⟩
      exact (within_append _ _).mpr ⟨within.2.2, (within_cons _ _).mpr ⟨given, within_nil⟩⟩

theorem within_bindRemaining (parameters : List TypeParameter) (arguments : List Argument)
    {bindings : Bindings} (within : Within known bindings) (given : Within known arguments) :
    Within known (Evidence.bindRemaining store parameters arguments bindings) := by
  refine Evidence.bindRemaining_induction (motive := fun bound => Within known bound) ?_ within
  intro parameter _ argument among bound _ _ within
  exact within_bind within parameter (within_typeOf (given argument among).1)

theorem within_followChains {bindings : Bindings} (within : Within known bindings)
    (parameters : List TypeParameter) : Within known (bindings.followChains parameters) := by
  refine Bindings.followChains_induction (motive := fun followed => Within known followed) ?_ within
    parameters
  intro followed parameter target ty _ _ _ found within
  exact within_bind within parameter (within_binding within target ty found)

theorem within_ofArguments (parameters : List TypeParameter) {arguments : Arguments}
    (given : Within known arguments) :
    Within known (Evidence.ofArguments store template parameters arguments) := by
  have shown : Within known (arguments.list.foldl (Evidence.takeArgument store template)
      { bindings := .identity parameters }) :=
    Refers.Within.foldl ⟨within_identity parameters, within_nil, within_nil⟩
      fun evidence argument listed before => within_takeArgument before (given argument listed)
  refine ⟨within_followChains ?_ _, shown.2⟩
  exact within_bindRemaining _ _ shown.1 shown.2.2

theorem within_addDiscovered {bases : List Ty} (within : Within known bases) {discovered : Ty}
    (given : Within known discovered) :
    Within known (Engine.addDiscovered store bases discovered) :=
  within_ite within
    ((within_append _ _).mpr ⟨within, (within_cons _ _).mpr ⟨given, within_nil⟩⟩)

end Evidence

end TypeInference
