import TypeInference.Definitions.Evaluation
import TypeInference.Proofs.Bookkeeping

/-!
# What is referred to

Values, types and records refer to functions and classes: a value may be a function, hold one
among its items, or have a class for its type. What is computed from values and from the
records of a store refers to nothing that these do not refer to. So the functions and classes
that an analysis can come across are those that its state refers to already, and those it
creates.

A class may be referred to in two ways: as a type, and as the class that declares a function,
on which the attributes of receivers are set.

The form of values is among what they refer to. A value that is the unknown type or an object of
it, and every union, are references of their own, so that it can be said which of them may occur.
-/

namespace TypeInference

/-- What values and records refer to. -/
inductive Reference where
  | cls (id : ClassId)
  | function (id : FunctionId)
  /-- A class on which members may be set. -/
  | owner (id : ClassId)
  /-- The unknown type, where a value is a type or has one. -/
  | vague
  /-- A union of some alternatives. -/
  | union (alternatives : List Value)

/-- Some references. The builtin classes, which need not be mentioned, are among them. -/
structure References where
  Has : Reference → Prop
  builtin : ∀ builtin, Has (.cls (Store.builtinClass builtin))
  owner : ∀ id, Has (.owner id) → Has (.cls id)

instance : CoeFun References fun _ => Reference → Prop :=
  ⟨References.Has⟩

/-- References of which nothing is asked but that the functions are among some. -/
def References.ofFunctions (known : FunctionId → Prop) : References where
  Has
    | .function id => known id
    | .cls _ | .owner _ | .vague | .union _ => True
  builtin _ := trivial
  owner _ _ := trivial

instance : Coe (FunctionId → Prop) References :=
  ⟨.ofFunctions⟩

/-- All references. -/
def References.every : References where
  Has _ := True
  builtin _ := trivial
  owner _ _ := trivial

/-- More functions are more references. -/
theorem References.ofFunctions_mono {known more : FunctionId → Prop}
    (wider : ∀ id, known id → more id) :
    ∀ reference, References.ofFunctions known reference → References.ofFunctions more reference
  | .function id => wider id
  | .cls _ | .owner _ | .vague | .union _ => id

/-- What may refer to functions and classes. -/
class Refers (α : Type) where
  /-- Every reference is among some. -/
  Within : References → α → Prop
  /-- What is among some references is among more of them. -/
  widen : ∀ {known more : References}, (∀ reference, known reference → more reference) →
    ∀ thing : α, Within known thing → Within more thing
  /-- Every reference is among all of them. -/
  all : ∀ {known : References}, (∀ reference, known reference) → ∀ thing : α, Within known thing

export Refers (Within)

/-- Whatever a thing refers to is among all references. -/
theorem within_every {α : Type} [Refers α] (thing : α) : Within .every thing :=
  Refers.all (fun _ => trivial) thing

instance : Refers Unit where
  Within _ _ := True
  widen _ _ _ := trivial
  all _ _ := trivial

instance : Refers ClassId where
  Within known id := known (.cls id)
  widen more _ := more _
  all every _ := every _

instance : Refers String where
  Within _ _ := True
  widen _ _ _ := trivial
  all _ _ := trivial

instance : Refers FunctionId where
  Within known id := known (.function id)
  widen more _ := more _
  all every _ := every _

instance {α : Type} [Refers α] : Refers (Option α) where
  Within known found := ∀ thing, found = some thing → Within known thing
  widen more _ within thing same := Refers.widen more thing (within thing same)
  all every _ thing _ := Refers.all every thing

instance {α : Type} [Refers α] : Refers (List α) where
  Within known things := ∀ thing ∈ things, Within known thing
  widen more _ within thing among := Refers.widen more thing (within thing among)
  all every _ thing _ := Refers.all every thing

instance {α β : Type} [Refers α] [Refers β] : Refers (α × β) where
  Within known pair := Within known pair.1 ∧ Within known pair.2
  widen more _ within := ⟨Refers.widen more _ within.1, Refers.widen more _ within.2⟩
  all every _ := ⟨Refers.all every _, Refers.all every _⟩

section Containers

variable {α β : Type} [Refers α] [Refers β] {known : References}

@[simp] theorem within_unit (thing : Unit) : Within known thing := trivial

@[simp] theorem within_class (id : ClassId) : Within known id ↔ known (.cls id) := Iff.rfl

@[simp] theorem within_text (text : String) : Within known text := trivial

@[simp] theorem within_function (id : FunctionId) : Within known id ↔ known (.function id) :=
  Iff.rfl

@[simp] theorem within_none : Within known (none : Option α) := fun _ impossible =>
  nomatch impossible

@[simp] theorem within_some (thing : α) : Within known (some thing) ↔ Within known thing :=
  ⟨fun within => within thing rfl, fun within _ same => Option.some.inj same ▸ within⟩

@[simp] theorem within_nil : Within known ([] : List α) := fun _ impossible =>
  nomatch impossible

@[simp] theorem within_cons (thing : α) (rest : List α) :
    Within known (thing :: rest) ↔ Within known thing ∧ Within known rest :=
  List.forall_mem_cons

@[simp] theorem within_append (first second : List α) :
    Within known (first ++ second) ↔ Within known first ∧ Within known second :=
  List.forall_mem_append

@[simp] theorem within_pair (first : α) (second : β) :
    Within known (first, second) ↔ Within known first ∧ Within known second :=
  Iff.rfl

theorem Refers.Within.getD {found : Option α} {fallback : α} (within : Within known found)
    (falls : Within known fallback) : Within known (found.getD fallback) := by
  cases found with
  | none => exact falls
  | some thing => exact within thing rfl

theorem Refers.Within.map {things : List α} {change : α → β} (within : Within known things)
    (keeps : ∀ thing, Within known thing → Within known (change thing)) :
    Within known (things.map change) := by
  intro changed among
  obtain ⟨thing, listed, rfl⟩ := List.mem_map.mp among
  exact keeps thing (within thing listed)

theorem Refers.Within.head? {things : List α} (within : Within known things) :
    Within known things.head? :=
  fun thing found => within thing (List.mem_of_head? found)

theorem Refers.Within.getElem? {things : List α} (within : Within known things) (place : Nat) :
    Within known things[place]? :=
  fun thing found => within thing (List.mem_of_getElem? found)

theorem Refers.Within.tail {things : List α} (within : Within known things) :
    Within known things.tail :=
  fun thing among => within thing (List.mem_of_mem_tail among)

/-- A choice is within if both of its outcomes are. -/
theorem within_ite {chosen : Prop} [Decidable chosen] {first second : α}
    (one : Within known first) (other : Within known second) :
    Within known (if chosen then first else second) := by
  split
  · exact one
  · exact other

/-- What is kept by every step of a fold is kept by the fold. -/
theorem Refers.Within.foldl {γ : Type} {step : β → γ → β} {things : List γ} :
    ∀ {first : β}, Within known first →
      (∀ state thing, thing ∈ things → Within known state → Within known (step state thing)) →
        Within known (things.foldl step first) := by
  induction things with
  | nil => exact fun first _ => first
  | cons thing rest inductionHypothesis =>
    exact fun first steps => inductionHypothesis (steps _ thing List.mem_cons_self first)
      fun state other among => steps state other (List.mem_cons_of_mem _ among)

end Containers

instance : Refers Ty where
  Within known
    | .cls id => known (.cls id)
    | .function id => known (.function id)
    | _ => True
  widen wider ty within := by
    cases ty with
    | cls _ | function _ => exact wider _ within
    | _ => trivial
  all every ty := by
    cases ty with
    | cls _ | function _ => exact every _
    | _ => trivial

/-- A type that a value may be, or may have. -/
def Ty.Stands (known : References) : Ty → Prop
  | .unknown => known .vague
  | ty => Within known ty

namespace Ty.Stands

variable {known more : References} {ty : Ty}

/-- What such a type refers to may be referred to. -/
theorem mentions (stands : ty.Stands known) : Within known ty := by
  cases ty with
  | unknown => trivial
  | _ => exact stands

theorem widen (wider : ∀ reference, known reference → more reference)
    (stands : ty.Stands known) : ty.Stands more := by
  cases ty with
  | unknown => exact wider _ stands
  | _ => exact Refers.widen wider _ stands.mentions

theorem all (every : ∀ reference, known reference) (ty : Ty) : ty.Stands known := by
  cases ty with
  | unknown => exact every _
  | _ => exact Refers.all every _

@[simp] theorem of_class (id : ClassId) : (Ty.cls id).Stands known ↔ known (.cls id) := Iff.rfl

@[simp] theorem of_function (id : FunctionId) :
    (Ty.function id).Stands known ↔ known (.function id) :=
  Iff.rfl

@[simp] theorem of_parameter (parameter : TypeParameter) :
    (Ty.parameter parameter).Stands known :=
  trivial

@[simp] theorem of_marker (parameters : List TypeParameter) :
    (Ty.marker parameters).Stands known :=
  trivial

@[simp] theorem of_builtin (builtin : Builtin) : (Store.builtinType builtin).Stands known :=
  known.builtin builtin

end Ty.Stands

namespace Value

mutual

/-- Every reference of a value is among some. -/
def OnlyMentions (known : References) : Value → Prop
  | .unknown => True
  | .type ty => ty.Stands known
  | .object ty .plain => ty.Stands known
  | .object ty (.constant _) => ty.Stands known
  | .object ty (.sequence ⟨items, _⟩) => ty.Stands known ∧ AllMention known items
  | .object ty (.mapping ⟨entries, _⟩) => ty.Stands known ∧ EntriesMention known entries
  | .object ty (.iterator element) => ty.Stands known ∧ OnlyMentions known element
  | .union alternatives => known (.union alternatives) ∧ AllMention known alternatives

/-- Every reference of some values is among some. -/
def AllMention (known : References) : List Value → Prop
  | [] => True
  | value :: rest => OnlyMentions known value ∧ AllMention known rest

/-- Every reference of the entries of a mapping is among some. -/
def EntriesMention (known : References) : List (Value × Value) → Prop
  | [] => True
  | (key, value) :: rest =>
    (OnlyMentions known key ∧ OnlyMentions known value) ∧ EntriesMention known rest

end

mutual

theorem OnlyMentions.widen {known more : References}
    (wider : ∀ reference, known reference → more reference) :
    ∀ value : Value, value.OnlyMentions known → value.OnlyMentions more
  | .unknown, _ => trivial
  | .type _, within => Ty.Stands.widen wider within
  | .object _ .plain, within => Ty.Stands.widen wider within
  | .object _ (.constant _), within => Ty.Stands.widen wider within
  | .object _ (.sequence ⟨items, _⟩), within =>
    ⟨within.1.widen wider, AllMention.widen wider items within.2⟩
  | .object _ (.mapping ⟨entries, _⟩), within =>
    ⟨within.1.widen wider, EntriesMention.widen wider entries within.2⟩
  | .object _ (.iterator element), within =>
    ⟨within.1.widen wider, OnlyMentions.widen wider element within.2⟩
  | .union alternatives, within =>
    ⟨wider _ within.1, AllMention.widen wider alternatives within.2⟩

theorem AllMention.widen {known more : References}
    (wider : ∀ reference, known reference → more reference) :
    ∀ values : List Value, AllMention known values → AllMention more values
  | [], _ => trivial
  | value :: rest, within =>
    ⟨OnlyMentions.widen wider value within.1, AllMention.widen wider rest within.2⟩

theorem EntriesMention.widen {known more : References}
    (wider : ∀ reference, known reference → more reference) :
    ∀ entries : List (Value × Value), EntriesMention known entries → EntriesMention more entries
  | [], _ => trivial
  | (key, value) :: rest, within =>
    ⟨⟨OnlyMentions.widen wider key within.1.1, OnlyMentions.widen wider value within.1.2⟩,
      EntriesMention.widen wider rest within.2⟩

end

mutual

theorem OnlyMentions.all {known : References}
    (every : ∀ reference, known reference) :
    ∀ value : Value, value.OnlyMentions known
  | .unknown => trivial
  | .type _ | .object _ .plain | .object _ (.constant _) => Ty.Stands.all every _
  | .object _ (.sequence ⟨items, _⟩) => ⟨Ty.Stands.all every _, AllMention.all every items⟩
  | .object _ (.mapping ⟨entries, _⟩) => ⟨Ty.Stands.all every _, EntriesMention.all every entries⟩
  | .object _ (.iterator element) => ⟨Ty.Stands.all every _, OnlyMentions.all every element⟩
  | .union alternatives => ⟨every _, AllMention.all every alternatives⟩

theorem AllMention.all {known : References}
    (every : ∀ reference, known reference) :
    ∀ values : List Value, AllMention known values
  | [] => trivial
  | value :: rest => ⟨OnlyMentions.all every value, AllMention.all every rest⟩

theorem EntriesMention.all {known : References}
    (every : ∀ reference, known reference) :
    ∀ entries : List (Value × Value), EntriesMention known entries
  | [] => trivial
  | (key, value) :: rest =>
    ⟨⟨OnlyMentions.all every key, OnlyMentions.all every value⟩, EntriesMention.all every rest⟩

end

end Value

instance : Refers Value where
  Within := Value.OnlyMentions
  widen wider value := Value.OnlyMentions.widen wider value
  all every value := Value.OnlyMentions.all every value

section Values

variable {known : References}

theorem within_allMention (values : List Value) :
    Value.AllMention known values ↔ Within known values := by
  induction values with
  | nil => simp [Value.AllMention]
  | cons value rest inductionHypothesis =>
    rw [Value.AllMention, inductionHypothesis, within_cons]
    rfl

theorem within_entriesMention (entries : List (Value × Value)) :
    Value.EntriesMention known entries ↔ Within known entries := by
  induction entries with
  | nil => simp [Value.EntriesMention]
  | cons entry rest inductionHypothesis =>
    rw [Value.EntriesMention, inductionHypothesis, within_cons]
    rfl

@[simp] theorem within_unknownType : Within known Ty.unknown := trivial

@[simp] theorem within_classType (id : ClassId) :
    Within known (Ty.cls id) ↔ known (.cls id) := Iff.rfl

@[simp] theorem within_parameterType (parameter : TypeParameter) :
    Within known (Ty.parameter parameter) := trivial

@[simp] theorem within_marker (parameters : List TypeParameter) :
    Within known (Ty.marker parameters) := trivial

@[simp] theorem within_functionType (id : FunctionId) :
    Within known (Ty.function id) ↔ known (.function id) := Iff.rfl

@[simp] theorem within_builtinType (builtin : Builtin) :
    Within known (Store.builtinType builtin) := known.builtin builtin

@[simp] theorem within_unknown : Within known Value.unknown := trivial

@[simp] theorem within_type (ty : Ty) : Within known (Value.type ty) ↔ ty.Stands known := Iff.rfl

@[simp] theorem within_plain (ty : Ty) :
    Within known (Value.object ty .plain) ↔ ty.Stands known := Iff.rfl

@[simp] theorem within_constant (ty : Ty) (constant : Constant) :
    Within known (Value.object ty (.constant constant)) ↔ ty.Stands known := Iff.rfl

@[simp] theorem within_sequence (ty : Ty) (items : List Value) (exact : Bool) :
    Within known (Value.object ty (.sequence ⟨items, exact⟩)) ↔
      ty.Stands known ∧ Within known items := by
  change (ty.Stands known ∧ Value.AllMention known items) ↔ _
  rw [within_allMention]

@[simp] theorem within_mapping (ty : Ty) (entries : List (Value × Value)) (exact : Bool) :
    Within known (Value.object ty (.mapping ⟨entries, exact⟩)) ↔
      ty.Stands known ∧ Within known entries := by
  change (ty.Stands known ∧ Value.EntriesMention known entries) ↔ _
  rw [within_entriesMention]

@[simp] theorem within_iterator (ty : Ty) (element : Value) :
    Within known (Value.object ty (.iterator element)) ↔
      ty.Stands known ∧ Within known element := Iff.rfl

@[simp] theorem within_union (alternatives : List Value) :
    Within known (Value.union alternatives) ↔
      known (.union alternatives) ∧ Within known alternatives := by
  change (known (.union alternatives) ∧ Value.AllMention known alternatives) ↔ _
  rw [within_allMention]

/-- An object has a type that it may have. -/
theorem Refers.Within.objectStands {ty : Ty} {content : Content}
    (within : Within known (Value.object ty content)) : ty.Stands known := by
  match content with
  | .plain | .constant _ => exact within
  | .sequence ⟨_, _⟩ | .mapping ⟨_, _⟩ | .iterator _ => exact within.1

/-- The type of an object is among what the object mentions. -/
theorem Refers.Within.objectType {ty : Ty} {content : Content}
    (within : Within known (Value.object ty content)) : Within known ty :=
  within.objectStands.mentions

theorem Refers.Within.ofTy {ty : Ty} (within : Within known ty) : Within known (Value.ofTy ty) := by
  cases ty <;> exact within

theorem Refers.Within.ofType {ty : Ty} (within : Within known ty) :
    Within known (Value.ofType ty) := by
  cases ty <;> exact within

theorem Refers.Within.asFunction? {value : Value} (within : Within known value) :
    Within known value.asFunction? := by
  intro function found
  match value with
  | .type (.function _) =>
    cases found
    exact within

theorem Refers.Within.sequence {value : Value} {content : SequenceContent}
    (within : Within known value) (found : value.asSequence? = some content) : Within known content.items := by
  match value with
  | .object _ (.sequence ⟨_, _⟩) =>
    cases found
    exact ((within_sequence _ _ _).mp within).2

theorem Refers.Within.mapping {value : Value} {content : MappingContent}
    (within : Within known value) (found : value.asMapping? = some content) : Within known content.entries := by
  match value with
  | .object _ (.mapping ⟨_, _⟩) =>
    cases found
    exact ((within_mapping _ _ _).mp within).2

theorem Refers.Within.keys {content : MappingContent} (within : Within known content.entries) :
    Within known content.keys :=
  within.map fun _ entry => entry.1

theorem Refers.Within.values {content : MappingContent} (within : Within known content.entries) :
    Within known content.values :=
  within.map fun _ entry => entry.2

end Values

instance : Refers Elements where
  Within known elements := Within known elements.known ∧ Within known elements.repeated
  widen more _ within := ⟨Refers.widen more _ within.1, Refers.widen more _ within.2⟩
  all every _ := ⟨Refers.all every _, Refers.all every _⟩

section Iterations

variable {known : References}

theorem Refers.Within.next {elements : Elements} (within : Within known elements) :
    Within known elements.next.1 ∧ Within known elements.next.2 := by
  obtain ⟨values, repeated⟩ := elements
  cases values with
  | nil => exact ⟨within.2.getD within_unknown, within⟩
  | cons value rest => exact ⟨within.1 value List.mem_cons_self, within.1.tail, within.2⟩

theorem Refers.Within.nextOf {elements : Option Elements} (within : Within known elements) :
    Within known (Value.nextOf elements).1 ∧ Within known (Value.nextOf elements).2 := by
  cases elements with
  | none => exact ⟨within_unknown, within_none⟩
  | some elements =>
    have next := Refers.Within.next (within elements rfl)
    exact ⟨next.1, (within_some _).mpr next.2⟩

theorem Refers.Within.iterate {value : Value} (within : Within known value) :
    Within known value.iterate := by
  match value with
  | .object _ (.sequence ⟨_, _⟩) =>
    exact (within_some _).mpr ⟨((within_sequence _ _ _).mp within).2, within_none⟩
  | .object _ (.mapping ⟨entries, exact⟩) =>
    have listed := ((within_mapping _ _ _).mp within).2
    have keys : Within known (MappingContent.mk entries exact).keys := Refers.Within.keys listed
    exact (within_some _).mpr ⟨keys, within_none⟩
  | .object _ (.iterator _) =>
    exact (within_some _).mpr ⟨within_nil, (within_some _).mpr within.2⟩
  | .object _ .plain | .object _ (.constant _) | .unknown | .type _ | .union _ =>
    exact within_none

theorem Refers.Within.firstElement? {value : Value} (within : Within known value) :
    Within known value.firstElement? := by
  intro element found
  obtain ⟨elements, iterated, rfl⟩ := Option.map_eq_some_iff.mp found
  exact (Refers.Within.next (within.iterate elements iterated)).1

end Iterations

instance : Refers Bindings where
  Within known bindings := Within known bindings.types
  widen more _ within := Refers.widen more _ within
  all every _ := Refers.all every _

instance : Refers FormalParameter where
  Within known parameter := Within known parameter.declaredType ∧ Within known parameter.default
  widen more _ within := ⟨Refers.widen more _ within.1, Refers.widen more _ within.2⟩
  all every _ := ⟨Refers.all every _, Refers.all every _⟩

instance : Refers Overload where
  Within known overload := Within known overload.parameters ∧
    Within known overload.declaredReturn ∧ Within known overload.inferredReturns
  widen more _ within := ⟨Refers.widen more _ within.1, Refers.widen more _ within.2.1,
    Refers.widen more _ within.2.2⟩
  all every _ := ⟨Refers.all every _, Refers.all every _, Refers.all every _⟩

instance : Refers FunctionRecord where
  Within known record := Within known record.overloads ∧
    ∀ owner, record.declaringClass = some owner → known (.owner owner)
  widen more _ within := ⟨Refers.widen more _ within.1, fun owner declaring =>
    more _ (within.2 owner declaring)⟩
  all every _ := ⟨Refers.all every _, fun _ _ => every _⟩

instance : Refers ClassRecord where
  Within known record := Within known record.bases ∧ Within known record.members.values ∧
    Within known record.parameters ∧ Within known record.template ∧
      Within known record.specializations.values ∧
        Within known (record.unfinished.entries.map (·.placeholder))
  widen more _ within := ⟨Refers.widen more _ within.1, Refers.widen more _ within.2.1,
    Refers.widen more _ within.2.2.1, Refers.widen more _ within.2.2.2.1,
    Refers.widen more _ within.2.2.2.2.1, Refers.widen more _ within.2.2.2.2.2⟩
  all every _ := ⟨Refers.all every _, Refers.all every _, Refers.all every _,
    Refers.all every _, Refers.all every _, Refers.all every _⟩

instance : Refers Store where
  Within known store := (∀ id, Within known (store.classAt id)) ∧
    ∀ id, Within known (store.functionAt id)
  widen more _ within := ⟨fun id => Refers.widen more _ (within.1 id),
    fun id => Refers.widen more _ (within.2 id)⟩
  all every _ := ⟨fun _ => Refers.all every _, fun _ => Refers.all every _⟩

/-- Whether a value is a type or an object: neither unknown nor a union. -/
def Value.isSingle (value : Value) : Bool :=
  value.isType || value.isObject

namespace Store

/-- Values that can be the alternatives of a union: several types and objects, no two of which
are of one kind and one type. -/
structure Separate (store : Store) (alternatives : List Value) : Prop where
  several : 2 ≤ alternatives.length
  single : ∀ value ∈ alternatives, value.isSingle
  distinct : (alternatives.map store.unionKey).Nodup

instance (store : Store) (alternatives : List Value) : Decidable (store.Separate alternatives) :=
  decidable_of_iff (2 ≤ alternatives.length ∧
      (∀ value ∈ alternatives, value.isSingle) ∧
      (alternatives.map store.unionKey).Nodup)
    ⟨fun ⟨several, single, distinct⟩ => ⟨several, single, distinct⟩,
      fun separate => ⟨separate.several, separate.single, separate.distinct⟩⟩

/-- A type whose class or function is in the store. -/
def HasType (store : Store) : Ty → Prop
  | .cls id => store.HasClass id
  | .function id => store.HasFunction id
  | .unknown | .parameter _ | .marker _ => True

instance (store : Store) : DecidablePred store.HasType
  | .cls id => inferInstanceAs (Decidable (store.HasClass id))
  | .function id => inferInstanceAs (Decidable (store.HasFunction id))
  | .unknown | .parameter _ | .marker _ => .isTrue trivial

/-- What a store has of what may be referred to. Members are set on classes that are no
specializations. The unknown type stands nowhere, and only what is separate is united. -/
def Has (store : Store) : Reference → Prop
  | .cls id => store.HasClass id
  | .function id => store.HasFunction id
  | .owner id => store.HasClass id ∧ (store.classAt id).template = none
  | .vague => False
  | .union alternatives =>
    store.Separate alternatives ∧ ∀ value ∈ alternatives, store.HasType (store.typeOf value)

instance (store : Store) : DecidablePred store.Has
  | .cls id => inferInstanceAs (Decidable (store.HasClass id))
  | .function id => inferInstanceAs (Decidable (store.HasFunction id))
  | .owner _ => inferInstanceAs (Decidable (_ ∧ _))
  | .vague => .isFalse id
  | .union alternatives =>
    inferInstanceAs (Decidable (_ ∧ ∀ value ∈ alternatives, store.HasType (store.typeOf value)))

end Store

/-- All that a store has, if that includes the builtin classes. -/
def Store.references (store : Store)
    (builtin : ∀ builtin, store.HasClass (Store.builtinClass builtin)) : References where
  Has := store.Has
  builtin := builtin
  owner _ := And.left

instance : Refers Argument where
  Within known argument := Within known argument.value ∧ Within known argument.declaredType
  widen more _ within := ⟨Refers.widen more _ within.1, Refers.widen more _ within.2⟩
  all every _ := ⟨Refers.all every _, Refers.all every _⟩

instance : Refers Arguments where
  Within known arguments := Within known arguments.list
  widen more _ within := Refers.widen more _ within
  all every _ := Refers.all every _

instance : Refers Evidence where
  Within known evidence := Within known evidence.bindings ∧ Within known evidence.bases ∧
    Within known evidence.unused
  widen more _ within := ⟨Refers.widen more _ within.1, Refers.widen more _ within.2.1,
    Refers.widen more _ within.2.2⟩
  all every _ := ⟨Refers.all every _, Refers.all every _, Refers.all every _⟩

instance : Refers Engine.CallValues where
  Within known values := Within known values.positional ∧ Within known values.keywords
  widen more _ within := ⟨Refers.widen more _ within.1, Refers.widen more _ within.2⟩
  all every _ := ⟨Refers.all every _, Refers.all every _⟩

instance : Refers Frame where
  Within known frame := ∀ owner, frame.owner = some owner → known (.owner owner)
  widen more _ within owner same := more _ (within owner same)
  all every _ _ _ := every _

/-- The frame of a module has no owner. -/
theorem within_module {known : References} : Within known Frame.module := fun _ impossible =>
  nomatch impossible

section Records

variable {known : References} {record : ClassRecord}

theorem Refers.Within.bases (within : Within known record) : Within known record.bases :=
  within.1

theorem Refers.Within.members (within : Within known record) :
    Within known record.members.values :=
  within.2.1

theorem Refers.Within.parameters (within : Within known record) :
    Within known record.parameters :=
  within.2.2.1

theorem Refers.Within.template (within : Within known record) : Within known record.template :=
  within.2.2.2.1

/-- The finished specializations are among what the record refers to. -/
theorem Refers.Within.finished (within : Within known record) :
    Within known record.specializations.values :=
  within.2.2.2.2.1

theorem Refers.Within.placeholders (within : Within known record) :
    Within known (record.unfinished.entries.map (·.placeholder)) :=
  within.2.2.2.2.2

end Records

section Decisions

variable {known : References} [DecidablePred known.Has]

instance (ty : Ty) : Decidable (Within known ty) :=
  match ty with
  | .cls id => inferInstanceAs (Decidable (known.Has (.cls id)))
  | .function id => inferInstanceAs (Decidable (known.Has (.function id)))
  | .unknown | .parameter _ | .marker _ => .isTrue trivial

instance (ty : Ty) : Decidable (ty.Stands known) :=
  match ty with
  | .unknown => inferInstanceAs (Decidable (known.Has .vague))
  | .cls _ | .parameter _ | .function _ | .marker _ => inferInstanceAs (Decidable (Within known _))

instance {α : Type} [Refers α] [∀ thing : α, Decidable (Within known thing)] (found : Option α) :
    Decidable (Within known found) :=
  match found with
  | none => .isTrue within_none
  | some thing => decidable_of_iff (Within known thing) (within_some thing).symm

instance {α : Type} [Refers α] [∀ thing : α, Decidable (Within known thing)] (things : List α) :
    Decidable (Within known things) :=
  inferInstanceAs (Decidable (∀ thing ∈ things, Within known thing))

namespace Value

mutual

/-- It can be decided whether a value has some references only. -/
def decideMentions : ∀ value : Value, Decidable (value.OnlyMentions known)
  | .unknown => .isTrue trivial
  | .type ty | .object ty .plain | .object ty (.constant _) =>
    inferInstanceAs (Decidable (ty.Stands known))
  | .object ty (.sequence ⟨items, _⟩) =>
    have := decideAll items
    inferInstanceAs (Decidable (ty.Stands known ∧ AllMention known items))
  | .object ty (.mapping ⟨entries, _⟩) =>
    have := decideEntries entries
    inferInstanceAs (Decidable (ty.Stands known ∧ EntriesMention known entries))
  | .object ty (.iterator element) =>
    have := decideMentions element
    inferInstanceAs (Decidable (ty.Stands known ∧ OnlyMentions known element))
  | .union alternatives =>
    have := decideAll alternatives
    inferInstanceAs (Decidable (known.Has (.union alternatives) ∧ AllMention known alternatives))

/-- The same for several values. -/
def decideAll : ∀ values : List Value, Decidable (AllMention known values)
  | [] => .isTrue trivial
  | value :: rest =>
    have := decideMentions value
    have := decideAll rest
    inferInstanceAs (Decidable (OnlyMentions known value ∧ AllMention known rest))

/-- The same for the entries of a mapping. -/
def decideEntries : ∀ entries : List (Value × Value), Decidable (EntriesMention known entries)
  | [] => .isTrue trivial
  | (key, value) :: rest =>
    have := decideMentions key
    have := decideMentions value
    have := decideEntries rest
    inferInstanceAs (Decidable ((OnlyMentions known key ∧ OnlyMentions known value) ∧
      EntriesMention known rest))

end

end Value

instance (value : Value) : Decidable (Within known value) :=
  Value.decideMentions value

instance (parameter : FormalParameter) : Decidable (Within known parameter) :=
  inferInstanceAs (Decidable (_ ∧ _))

instance (overload : Overload) : Decidable (Within known overload) :=
  inferInstanceAs (Decidable (_ ∧ _ ∧ _))

instance (id : ClassId) : Decidable (Within known id) :=
  inferInstanceAs (Decidable (known.Has (.cls id)))

instance (record : FunctionRecord) : Decidable (Within known record) :=
  inferInstanceAs (Decidable
    (_ ∧ ∀ owner, owner ∈ record.declaringClass → known.Has (.owner owner)))

instance (bindings : Bindings) : Decidable (Within known bindings) :=
  inferInstanceAs (Decidable (Within known bindings.types))

instance (record : ClassRecord) : Decidable (Within known record) :=
  inferInstanceAs (Decidable (_ ∧ _ ∧ _ ∧ _ ∧ _ ∧ _))

end Decisions

end TypeInference
