import TypeInference.Proofs.Filling
import TypeInference.Proofs.Saturation

/-!
# Substitution that is made twice

A class is definite if it is not generic and its parameters are bound to definite classes again.
Where parameters are resolved to definite classes, and the classes in a value are bound to
parameters and definite classes, one substitution does all that there is to be done: what it gives
is saturated, so that the same substitution gives it back and changes nothing.

A template answers by the identities of types. So this is so where identities tell definite classes
and parameters from other types. Where a class takes the identity of a definite one, and is none, a
substitution may put that class in, and find its parameters open when it comes again.
-/

namespace TypeInference

open Analysis Store TypeParameter

namespace Store

/-- A class that is not generic, with parameters that are bound to such classes again. -/
inductive Definite (store : Store) : Ty → Prop
  | cls {id : ClassId} (fixed : store.isGeneric id = false)
      (arguments : ∀ ty ∈ store.arguments id, Definite store ty) : Definite store (.cls id)

/-- A type parameter or a definite class. -/
def Elementary (store : Store) (ty : Ty) : Prop :=
  store.Definite ty ∨ ∃ parameter, ty = .parameter parameter

/-- A type that is bound to nothing but type parameters and definite classes. -/
def Shallow (store : Store) : Ty → Prop
  | .cls id => ∀ ty ∈ store.arguments id, store.Elementary ty
  | _ => True

/-- A type in whose place nothing is put: a definite class, or a parameter that is open. -/
def Steady (store : Store) (bindings : Bindings) (ty : Ty) : Prop :=
  store.Definite ty ∨ ∃ parameter, ty = .parameter parameter ∧ bindings.resolve? parameter = none

/-- A class with the parameters of its template, each of which has a type in whose place nothing is
put. -/
structure Filled (store : Store) (bindings : Bindings) (id : ClassId) : Prop where
  keyed : (store.classAt id).parameters.keys.map TypeParameter.hash =
    (store.typeParameters (store.templateOf id)).map TypeParameter.hash
  steady : ∀ {parameter : TypeParameter} {ty : Ty},
    (store.classAt id).parameters.find? parameter = some ty → store.Steady bindings ty

/-- The type parameters of all classes. -/
def declaredParameters (store : Store) : List TypeParameter :=
  (List.range store.classes.size).flatMap fun index => store.typeParameters ⟨index⟩

/-- The types that a substitution may ask a template for: those that are bound, by given bindings
or by classes, and the parameters of classes. -/
def requestedTypes (store : Store) (given : List Ty) : List Ty :=
  store.typesWith (given ++ store.declaredParameters.map .parameter)

/-- Identities tell definite classes and parameters from other types, and no class has that of the
unknown type. Specializations have the parameters of their templates, dictionaries different
ones. -/
structure Discerning (store : Store) (given : List Ty) : Prop where
  known : ∀ record ∈ store.classes.toList, record.hash ≠ .unknown
  keyed : ∀ template, store.Keyed template
  paired : ∀ record ∈ store.classes.toList, record.builtin = some .dict →
    Distinct record.parameters.keys
  definite : ∀ first ∈ store.requestedTypes given, ∀ second ∈ store.requestedTypes given,
    store.typeHash first = store.typeHash second → store.Definite first → store.Definite second
  parameter : ∀ first ∈ store.requestedTypes given, ∀ second ∈ store.requestedTypes given,
    store.typeHash first = store.typeHash second → first.asParameter?.isSome = true →
      second.asParameter?.isSome = true

section Types

variable {store : Store} {bindings : Bindings} {ty : Ty}

theorem Definite.asParameter? (definite : store.Definite ty) : ty.asParameter? = none := by
  cases definite
  rfl

theorem Steady.replacement? (steady : store.Steady bindings ty) :
    Engine.replacement? bindings ty = none := by
  rcases steady with definite | ⟨parameter, rfl, isNone⟩
  · rw [Engine.replacement?, definite.asParameter?]
    rfl
  · exact isNone

theorem Steady.isKnown (steady : store.Steady bindings ty) : ty.isUnknown = false := by
  rcases steady with ⟨_, _⟩ | ⟨parameter, rfl, -⟩
  · rfl
  · rfl

/-- What takes the place of a parameter or a definite class is steady, if parameters are resolved
to definite classes. -/
theorem Elementary.steady
    (closing : ∀ {parameter ty}, bindings.resolve? parameter = some ty → store.Definite ty)
    (elementary : store.Elementary ty) :
    store.Steady bindings ((Engine.replacement? bindings ty).getD ty) := by
  rcases elementary with definite | ⟨parameter, rfl⟩
  · rw [Engine.replacement?, definite.asParameter?]
    exact .inl definite
  · change store.Steady bindings ((bindings.resolve? parameter).getD (.parameter parameter))
    cases resolved : bindings.resolve? parameter with
    | none => exact .inr ⟨parameter, rfl, resolved⟩
    | some found => exact .inl (closing resolved)

/-- A type of the identity of a steady one is steady. -/
theorem Discerning.steady {given : List Ty} (discerning : store.Discerning given)
    {first second : Ty} (one : first ∈ store.requestedTypes given)
    (other : second ∈ store.requestedTypes given) (same : store.typeHash first = store.typeHash second)
    (steady : store.Steady bindings first) : store.Steady bindings second := by
  rcases steady with definite | ⟨parameter, rfl, isNone⟩
  · exact .inl (discerning.definite first one second other same definite)
  · have isParameter := discerning.parameter _ one second other same rfl
    cases second with
    | parameter target => exact .inr ⟨target, rfl, Bindings.resolve?_congr same ▸ isNone⟩
    | unknown | cls _ | function _ | marker _ => cases isParameter

theorem mem_requestedTypes_of_argument {given : List Ty} {id : ClassId}
    (listed : ty ∈ store.arguments id) : ty ∈ store.requestedTypes given :=
  mem_typesWith_of_argument listed

theorem mem_requestedTypes_of_given {given : List Ty} (listed : ty ∈ given) :
    ty ∈ store.requestedTypes given :=
  mem_typesWith_of_given (List.mem_append_left _ listed)

/-- What stands for a parameter of a template is bound, or is the parameter. -/
theorem mem_presentTypes {id : ClassId} (listed : ty ∈ store.presentTypes id) :
    ty ∈ store.arguments id ∨
      ∃ parameter ∈ store.typeParameters (store.templateOf id), ty = .parameter parameter := by
  obtain ⟨parameter, among, rfl⟩ := List.mem_map.mp listed
  cases found : (store.classAt id).parameters.find? parameter with
  | none => exact .inr ⟨parameter, among, rfl⟩
  | some ty => exact .inl (Bindings.mem_types_of_find? found)

theorem mem_requestedTypes_of_present {given : List Ty} {id : ClassId}
    (present : store.HasClass (store.templateOf id)) (listed : ty ∈ store.presentTypes id) :
    ty ∈ store.requestedTypes given := by
  rcases mem_presentTypes listed with argument | ⟨parameter, among, rfl⟩
  · exact mem_requestedTypes_of_argument argument
  · refine mem_typesWith_of_given (List.mem_append_right _ (List.mem_map_of_mem ?_))
    exact List.mem_flatMap.mpr ⟨_, List.mem_range.mpr present, among⟩

/-- What takes the place of a type is bound, or stood there. -/
theorem mem_requestedTypes_of_replaced {id : ClassId}
    (present : store.HasClass (store.templateOf id))
    (listed : ty ∈ store.replacedTypes bindings id) : ty ∈ store.requestedTypes bindings.types := by
  obtain ⟨old, among, rfl⟩ := List.mem_map.mp listed
  cases replaced : Engine.replacement? bindings old with
  | none => exact mem_requestedTypes_of_present present among
  | some new =>
    obtain ⟨_, -, resolved⟩ := Option.bind_eq_some_iff.mp replaced
    exact mem_requestedTypes_of_given (Bindings.mem_types_of_resolve? resolved)

/-- What stands for a parameter is elementary if what is bound is. -/
theorem Shallow.present {id : ClassId} (shallow : store.Shallow (.cls id))
    (listed : ty ∈ store.presentTypes id) : store.Elementary ty := by
  rcases mem_presentTypes listed with argument | ⟨parameter, -, rfl⟩
  · exact shallow ty argument
  · exact .inr ⟨parameter, rfl⟩

/-- A class that is filled has nothing that would be replaced. -/
theorem Filled.kept {id : ClassId} (filled : store.Filled bindings id) :
    store.Kept bindings id := by
  refine .inr fun ty listed => ?_
  obtain ⟨parameter, among, rfl⟩ := List.mem_map.mp listed
  obtain ⟨ty, found⟩ := Bindings.exists_find?_of_hash
    (filled.keyed.symm ▸ List.mem_map_of_mem among)
  rw [found]
  exact (filled.steady found).replacement?

/-- The first type in a class that is filled is steady, and every one if its parameters are
different. -/
theorem Filled.at {id : ClassId} (filled : store.Filled bindings id) {place : Nat}
    (found : (store.arguments id)[place]? = some ty)
    (reached : place = 0 ∨ Distinct (store.classAt id).parameters.keys) :
    store.Steady bindings ty := by
  rw [arguments, Bindings.types, List.getElem?_map] at found
  obtain ⟨⟨key, bound⟩, entry, rfl⟩ := Option.map_eq_some_iff.mp found
  have own : (store.classAt id).parameters.find? key = some bound := by
    rcases reached with rfl | distinct
    · obtain ⟨rest, entries⟩ := List.head?_eq_some_iff.mp (List.head?_eq_getElem? ▸ entry)
      rw [Bindings.find?, entries, Bindings.findIn, if_pos rfl]
    · exact Bindings.find?_of_mem distinct (List.mem_of_getElem? entry)
  exact filled.steady own

end Types

/-- A new object of a class is looked at as an object of the class, and in the types at the first
places of the class. -/
theorem meets_newObject {asked : Ty → Prop} {constant : ClassId → Prop} {store : Store}
    {id : ClassId} (own : asked (.cls id)) (constants : constant id)
    (first : ∀ ty, (store.arguments id)[0]? = some ty → asked ty)
    (second : (store.classAt id).builtin = some .dict →
      ∀ ty, (store.arguments id)[1]? = some ty → asked ty) :
    (store.newObject id).Meets asked constant := by
  have sampled (place : Nat)
      (among : ∀ ty, (store.arguments id)[place]? = some ty → asked ty) :
      (((store.arguments id)[place]?.map Value.ofTy).getD .unknown).Meets asked constant := by
    cases found : (store.arguments id)[place]? with
    | none => trivial
    | some ty => exact Value.meets_ofTy (among ty found)
  unfold newObject
  dsimp only
  split
  · rw [List.head?_eq_getElem?]
    cases found : (store.classAt id).parameters.types[0]? with
    | none => trivial
    | some ty => exact Value.meets_ofType (first ty found)
  · split
    -- As in the definition: nothing, lists, sets, tuples, mappings, iterators, and all others.
    case h_1 => exact constants
    case h_2 | h_3 | h_4 => exact ⟨own, sampled 0 first, trivial⟩
    case h_5 isDict _ => exact ⟨own, ⟨sampled 0 first, sampled 1 (second isDict)⟩, trivial⟩
    case h_6 | h_7 => exact ⟨own, sampled 0 first⟩
    case h_8 => exact own

namespace KeepsShapes

variable {environment : Environment} {progress : Progress} {next : Store}

theorem presentTypes (keeps : progress.store.KeepsShapes next)
    (grounded : progress.Grounded environment) {id : ClassId}
    (present : progress.store.HasClass id) :
    next.presentTypes id = progress.store.presentTypes id := by
  have template := (grounded.templateOf present).1
  rw [Store.presentTypes, keeps.templateOf present,
    keeps.typeParameters template (grounded.hasBases _),
    ClassRecord.parameters_of_shape (keeps.shapes id present)]
  rfl

/-- A definite class stays so. -/
theorem definite (keeps : progress.store.KeepsShapes next)
    (grounded : progress.Grounded environment) {ty : Ty} (definite : progress.store.Definite ty)
    (present : progress.store.HasType ty) : next.Definite ty := by
  induction definite with
  | @cls id fixed _ inductionHypothesis =>
    refine .cls ((keeps.isGeneric grounded.hasBases present).trans fixed) fun ty among => ?_
    rw [keeps.arguments present] at among
    exact inductionHypothesis ty among (grounded.hasArguments id ty among)

/-- A type that is bound to parameters and definite classes stays so. -/
theorem shallow (keeps : progress.store.KeepsShapes next)
    (grounded : progress.Grounded environment) {ty : Ty} (shallow : progress.store.Shallow ty)
    (present : progress.store.HasType ty) : next.Shallow ty := by
  cases ty with
  | cls id =>
    intro ty among
    rw [keeps.arguments present] at among
    exact (shallow ty among).imp_left fun definite =>
      keeps.definite grounded definite (grounded.hasArguments id ty among)
  | unknown | parameter _ | function _ | marker _ => trivial

end KeepsShapes

end Store

/-- Bindings that resolve parameters to definite classes, in a store that tells these from other
types. -/
structure Settles (store : Store) (bindings : Bindings) : Prop where
  closing : ∀ {parameter : TypeParameter} {ty : Ty},
    bindings.resolve? parameter = some ty → store.Definite ty
  discerning : store.Discerning bindings.types

namespace Settles

variable {store other : Store} {bindings : Bindings} (settles : Settles store bindings)
  {id : ClassId} {ty : Ty}

include settles

/-- A class that is bound to parameters and definite classes gets steady types. -/
theorem steady (shallow : store.Shallow (.cls id))
    (listed : ty ∈ store.replacedTypes bindings id) : store.Steady bindings ty := by
  obtain ⟨old, among, rfl⟩ := List.mem_map.mp listed
  exact (shallow.present among).steady settles.closing

/-- Where something is replaced, there is a type that is no parameter. -/
theorem concrete (listed : ty ∈ other.presentTypes id)
    (replaced : Engine.replacement? bindings ty ≠ none) :
    ∃ new ∈ other.replacedTypes bindings id, new.asParameter? = none := by
  obtain ⟨new, isNew⟩ := Option.ne_none_iff_exists'.mp replaced
  obtain ⟨_, -, resolved⟩ := Option.bind_eq_some_iff.mp isNew
  refine ⟨_, List.mem_map_of_mem listed, ?_⟩
  rw [isNew]
  exact (settles.closing resolved).asParameter?

end Settles

namespace Engine

variable {environment : Environment} {before after last : Progress} {bindings : Bindings}
  {depth : Nat}

/-- A steady type is given back. -/
theorem givesBack_steady {engine : Engine} {ty : Ty} (steady : before.store.Steady bindings ty) :
    engine.GivesBack bindings environment before ty := by
  rcases steady with definite | ⟨parameter, rfl, isNone⟩
  · cases definite with
    | cls fixed _ => exact givesBack_class_iff.mpr (substituteClass_kept (.inl fixed))
  · exact givesBack_parameter_iff.mpr isNone

/-- A template that is applied to steady types, which are not all parameters, answers with a class
that is filled. -/
theorem specialize_settles {last : Store} (settles : Settles last bindings)
    (rest : before.AtRest environment) {template result : ClassId}
    (present : before.store.HasClass template)
    (original : (before.store.classAt template).template = none) {types : List Ty}
    (length : types.length = (before.store.typeParameters template).length)
    (concrete : ∃ ty ∈ types, ty.asParameter? = none)
    (requested : ∀ ty ∈ types, ty ∈ last.requestedTypes bindings.types)
    (steady : ∀ ty ∈ types, last.Steady bindings ty)
    (given : Within rest.grounded.references types) {span : Span}
    (returned : (Engine.atDepth depth).specialize template (.ofTypes types span) environment
      before = .ok result after) (lasts : after.store.LastsTo last) :
    last.Filled bindings result := by
  have arguments := within_ofTypes given span
  obtain ⟨rests, there⟩ := specialize_rests rest present arguments returned
  have keeps := rests.lasts.keeps.trans lasts.keeps
  obtain ⟨made, fills⟩ := specialize_fills rest present original
    (keeps.named settles.discerning.known present) length
    (fun ty listed => (steady ty listed).isKnown) concrete arguments returned
  have shape := lasts.keeps.shapes result there
  have lastMade := (ClassRecord.template_of_shape shape).trans made
  have keyed := settles.discerning.keyed template _ (classAt_mem (lasts.keeps.hasClass there))
    lastMade
  refine ⟨?_, fun {parameter ty} found => ?_⟩
  · rw [templateOf, lastMade]
    exact keyed
  · rw [ClassRecord.parameters_of_shape shape] at found keyed
    rw [keeps.typeParameters present (rest.grounded.hasBases template)] at keyed
    obtain ⟨other, among, same⟩ := fills keyed found
    have listed : ty ∈ after.store.arguments result := Bindings.mem_types_of_find? found
    have otherThere := hasType_of_within (fun _ has => has) (rests.within given other among)
    have lastSame : last.typeHash other = last.typeHash ty := by
      rw [(lasts.leads.keepsType otherThere).2, same,
        (lasts.leads.keepsType (rests.rest.grounded.hasArguments result ty listed)).2]
    exact settles.discerning.steady (requested other among)
      (mem_requestedTypes_of_argument (lasts.keeps.arguments there ▸ listed)) lastSame
      (steady other among)

/-- What substitution makes of a class that is bound to parameters and definite classes: the class
itself, where nothing is replaced, or one that is filled. -/
theorem substituteClass_settles {last : Store} (settles : Settles last bindings)
    (rest : before.AtRest environment) (bound : Within rest.grounded.references bindings)
    {id result : ClassId} (present : before.store.HasClass id) (shallow : last.Shallow (.cls id))
    (returned : (Engine.atDepth depth).substituteClass bindings id environment before =
      .ok result after) (lasts : after.store.LastsTo last) :
    result = id ∧ last.Kept bindings id ∨ last.Filled bindings result := by
  have keeps := ((substituteClass_lasts rest.grounded bound present returned).1.trans lasts).keeps
  obtain ⟨templatePresent, original⟩ := rest.grounded.templateOf present
  have sameTypes := keeps.presentTypes rest.grounded present
  rcases substituteClass_cases returned with ⟨rfl, rfl, kept⟩ | ⟨⟨ty, listed, changed⟩, made⟩
  · refine .inl ⟨rfl, kept.imp (fun fixed => ?_) fun unchanged => sameTypes.symm ▸ unchanged⟩
    exact (keeps.isGeneric rest.grounded.hasBases present).trans fixed
  · have replaced : before.store.replacedTypes bindings id = last.replacedTypes bindings id :=
      congrArg (List.map _) sameTypes.symm
    have lastTemplate : last.HasClass (last.templateOf id) :=
      keeps.templateOf present ▸ keeps.hasClass templatePresent
    have given : Within rest.grounded.references (before.store.replacedTypes bindings id) :=
      within_replacements (rest.grounded.stored.1 id).parameters bound _
    exact .inr (specialize_settles settles rest templatePresent original
      (before.store.length_replacedTypes bindings id) (settles.concrete listed changed)
      (replaced ▸ fun ty listed => mem_requestedTypes_of_replaced lastTemplate listed)
      (replaced ▸ fun ty listed => settles.steady shallow listed) given made lasts)

section Saturating

/-- A new object of a definite class is saturated. -/
theorem saturated_newObject_definite {engine : Engine} {id : ClassId}
    (definite : last.store.Definite (.cls id)) :
    engine.Saturated bindings environment last (last.store.newObject id) := by
  have own : engine.GivesBack bindings environment last (.cls id) :=
    givesBack_steady (.inl definite)
  have bound : ∀ {place : Nat} (ty : Ty), (last.store.arguments id)[place]? = some ty →
      engine.GivesBack bindings environment last ty := by
    intro place ty found
    cases definite with
    | cls _ arguments => exact givesBack_steady (.inl (arguments ty (List.mem_of_getElem? found)))
  exact meets_newObject own ⟨id, givesBack_class_iff.mp own⟩ bound fun _ => bound

variable (settles : Settles last.store bindings)

include settles

/-- So is one of a class that is filled. -/
theorem saturated_newObject_filled {engine : Engine} {id : ClassId}
    (present : last.store.HasClass id) (filled : last.store.Filled bindings id) :
    engine.Saturated bindings environment last (last.store.newObject id) := by
  have own : engine.substituteClass bindings id environment last = .ok id last :=
    substituteClass_kept filled.kept
  refine meets_newObject (givesBack_class_iff.mpr own) ⟨id, own⟩
    (fun ty found => givesBack_steady (filled.at found (.inl rfl))) fun isDict ty found =>
      givesBack_steady (filled.at found (.inr ?_))
  exact settles.discerning.paired _ (classAt_mem present) isDict

/-- A class that takes the place of another one is given back, and so is what a new object of it
holds. -/
theorem substituteClass_saturates (rest : before.AtRest environment)
    (bound : Within rest.grounded.references bindings) {id result : ClassId}
    (present : before.store.HasClass id) (shallow : last.store.Shallow (.cls id))
    (returned : (Engine.atDepth depth).substituteClass bindings id environment before =
      .ok result after) (onward : after.RestsTo environment last) :
    (Engine.atDepth depth).GivesBack bindings environment last (.cls result) ∧
      (result = id ∨ (Engine.atDepth depth).Saturated bindings environment last
        (last.store.newObject result)) := by
  have there := (substituteClass_lasts rest.grounded bound present returned).2.2
  rcases substituteClass_settles settles rest bound present shallow returned onward.lasts with
    ⟨rfl, kept⟩ | filled
  · exact ⟨givesBack_class_iff.mpr (substituteClass_kept kept), .inl rfl⟩
  · exact ⟨givesBack_class_iff.mpr (substituteClass_kept filled.kept),
      .inr (saturated_newObject_filled settles (onward.lasts.keeps.hasClass there) filled)⟩

end Saturating

mutual

/-- What substitution makes of a value whose classes are bound to parameters and definite classes is
saturated in whatever progress follows. -/
theorem substitute_saturates (settles : Settles last.store bindings) :
    ∀ {before after : Progress} (rest : before.AtRest environment) {value result : Value},
      Within rest.grounded.references bindings → Within rest.grounded.references value →
        (∀ ty ∈ value.allTypes, last.store.Shallow ty) →
          (Engine.atDepth depth).substitute bindings value environment before = .ok result after →
            after.RestsTo environment last →
              (Engine.atDepth depth).Saturated bindings environment last result
  | _, _, _, .unknown, _, _, _, _, returned, _ => by
    rw [substitute] at returned
    cases returned
    trivial
  | _, _, rest, .type ty, _, bound, given, shallow, returned, onward => by
    rw [substitute] at returned
    obtain ⟨replaced, middle, substituted, ending⟩ := bind_eq_ok.mp returned
    cases ending
    refine Value.meets_ofType ?_
    cases ty with
    | cls id =>
      obtain ⟨specialized, middle, made, ending⟩ := bind_eq_ok.mp substituted
      cases ending
      exact (substituteClass_saturates settles rest bound given
        (shallow _ List.mem_cons_self) made onward).1
    | parameter parameter =>
      cases substituted
      exact givesBack_steady (Elementary.steady settles.closing (.inr ⟨parameter, rfl⟩))
    | unknown | function _ | marker _ =>
      cases substituted
      rfl
  | _, _, rest, .union alternatives, _, bound, given, shallow, returned, onward => by
    rw [substitute] at returned
    obtain ⟨replaced, middle, substituted, ending⟩ := bind_eq_ok.mp returned
    cases ending
    exact Value.meets_union _ (substituteAll_saturates settles rest bound
      ((within_union _).mp given).2 shallow substituted onward)
  | _, _, rest, .object (.parameter parameter) content, _, bound, _, _, returned, onward => by
    rw [substitute] at returned
    cases resolved : bindings.resolve? parameter with
    | none =>
      rw [resolved] at returned
      cases returned
      exact givesBack_parameter_iff.mpr resolved
    | some ty =>
      rw [resolved] at returned
      have definite := settles.closing resolved
      have within := bound ty (Bindings.mem_types_of_resolve? resolved)
      cases definite with
      | cls fixed arguments =>
        cases returned
        rw [← onward.lasts.keeps.newObject within]
        exact saturated_newObject_definite (.cls fixed arguments)
  | _, _, rest, .object (.cls id) content, _, bound, given, shallow, returned, onward => by
    rw [substitute] at returned
    obtain ⟨specialized, middle, substituted, ending⟩ := bind_eq_ok.mp returned
    have present := given.objectType
    have repeats := substituteClass_repeats rest bound present _ _ substituted
    have rests := repeats.1
    have there := (substituteClass_lasts rest.grounded bound present substituted).2.2
    have boundMiddle := rests.within bound
    have made (lastly : middle.RestsTo environment last) := substituteClass_saturates settles rest
      bound present (shallow _ (Value.mem_allTypes_object _ content)) substituted lastly
    match content with
    | .plain =>
      dsimp only at ending
      split at ending
      · next unchanged =>
        cases ending
        exact unchanged ▸ (made onward).1
      · next changed =>
        cases ending
        rw [← onward.lasts.keeps.newObject there]
        exact (made onward).2.resolve_left changed
    | .constant _ =>
      cases ending
      exact ⟨specialized, repeats.2 last onward⟩
    | .sequence ⟨items, _⟩ =>
      have inside := rests.within ((within_sequence _ _ _).mp given).2
      obtain ⟨replaced, _, listed, ending⟩ := bind_eq_ok.mp ending
      cases ending
      have lastly := (substituteAll_repeats rests.rest boundMiddle inside _ _ listed).1.trans onward
      exact ⟨(made lastly).1, substituteAll_saturates settles rests.rest boundMiddle inside
        (fun ty among => shallow ty (List.mem_cons_of_mem _ among)) listed onward⟩
    | .mapping ⟨entries, _⟩ =>
      have inside := rests.within ((within_mapping _ _ _).mp given).2
      obtain ⟨replaced, _, listed, ending⟩ := bind_eq_ok.mp ending
      cases ending
      have lastly :=
        (substituteEntries_repeats rests.rest boundMiddle inside _ _ listed).1.trans onward
      exact ⟨(made lastly).1, substituteEntries_saturates settles rests.rest boundMiddle inside
        (fun ty among => shallow ty (List.mem_cons_of_mem _ among)) listed onward⟩
    | .iterator element =>
      have inside := rests.within ((within_iterator _ _).mp given).2
      obtain ⟨replaced, _, listed, ending⟩ := bind_eq_ok.mp ending
      cases ending
      have lastly := (substitute_repeats rests.rest boundMiddle inside _ _ listed).1.trans onward
      exact ⟨(made lastly).1, substitute_saturates settles rests.rest boundMiddle inside
        (fun ty among => shallow ty (List.mem_cons_of_mem _ among)) listed onward⟩
  | _, _, _, .object .unknown _, _, _, _, _, returned, _
  | _, _, _, .object (.function _) _, _, _, _, _, returned, _
  | _, _, _, .object (.marker _) _, _, _, _, _, returned, _ => by
    rw [substitute] at returned
    · cases returned
      rfl
    all_goals nofun

theorem substituteAll_saturates (settles : Settles last.store bindings) :
    ∀ {before after : Progress} (rest : before.AtRest environment) {values result : List Value},
      Within rest.grounded.references bindings → Within rest.grounded.references values →
        (∀ ty ∈ Value.typesOfItems values, last.store.Shallow ty) →
          (Engine.atDepth depth).substituteAll bindings values environment before =
              .ok result after → after.RestsTo environment last →
            Value.AllMeet ((Engine.atDepth depth).GivesBack bindings environment last)
              ((Engine.atDepth depth).Finds bindings environment last) result
  | _, _, _, [], _, _, _, _, returned, _ => by
    rw [substituteAll] at returned
    cases returned
    trivial
  | _, _, rest, value :: others, _, bound, given, shallow, returned, onward => by
    rw [within_cons] at given
    rw [Value.typesOfItems, List.forall_mem_append] at shallow
    rw [substituteAll] at returned
    obtain ⟨first, middle, substituted, continued⟩ := bind_eq_ok.mp returned
    obtain ⟨more, _, listed, ending⟩ := bind_eq_ok.mp continued
    cases ending
    have rests := (substitute_repeats rest bound given.1 _ _ substituted).1
    have boundMiddle := rests.within bound
    have givenMiddle := rests.within given.2
    have further := (substituteAll_repeats rests.rest boundMiddle givenMiddle _ _ listed).1
    have lastly := further.trans onward
    exact ⟨substitute_saturates settles rest bound given.1 shallow.1 substituted lastly,
      substituteAll_saturates settles rests.rest boundMiddle givenMiddle shallow.2 listed onward⟩

theorem substituteEntries_saturates (settles : Settles last.store bindings) :
    ∀ {before after : Progress} (rest : before.AtRest environment)
      {entries result : List (Value × Value)},
      Within rest.grounded.references bindings → Within rest.grounded.references entries →
        (∀ ty ∈ Value.typesOfEntries entries, last.store.Shallow ty) →
          (Engine.atDepth depth).substituteEntries bindings entries environment before =
              .ok result after → after.RestsTo environment last →
            Value.EntriesMeet ((Engine.atDepth depth).GivesBack bindings environment last)
              ((Engine.atDepth depth).Finds bindings environment last) result
  | _, _, _, [], _, _, _, _, returned, _ => by
    rw [substituteEntries] at returned
    cases returned
    trivial
  | _, _, rest, (key, value) :: others, _, bound, given, shallow, returned, onward => by
    rw [within_cons, within_pair] at given
    rw [Value.typesOfEntries, List.forall_mem_append, List.forall_mem_append] at shallow
    rw [substituteEntries] at returned
    obtain ⟨newKey, second, keyed, continued⟩ := bind_eq_ok.mp returned
    obtain ⟨newValue, third, valued, continued⟩ := bind_eq_ok.mp continued
    obtain ⟨more, _, listed, ending⟩ := bind_eq_ok.mp continued
    cases ending
    have toSecond := (substitute_repeats rest bound given.1.1 _ _ keyed).1
    have valueGiven := toSecond.within given.1.2
    have toThird := (substitute_repeats toSecond.rest (toSecond.within bound) valueGiven _ _
      valued).1
    have whole := toSecond.trans toThird
    have othersGiven := whole.within given.2
    have further := (substituteEntries_repeats toThird.rest (whole.within bound) othersGiven _ _
      listed).1.trans onward
    have newKeyMeets := substitute_saturates settles rest bound given.1.1 shallow.1.1 keyed
      (toThird.trans further)
    have newValueMeets := substitute_saturates settles toSecond.rest (toSecond.within bound)
      valueGiven shallow.1.2 valued further
    exact ⟨⟨newKeyMeets, newValueMeets⟩, substituteEntries_saturates settles toThird.rest
      (whole.within bound) othersGiven shallow.2 listed onward⟩

end

/-- Substitution is idempotent where parameters are resolved to definite classes, and the classes in
a value are bound to type parameters and definite classes: what it gives at rest, at any depth of
engines, it gives back, and then it leaves all progress as it is, classes and caches among it.

This is so in a store in which the identities of types tell definite classes and parameters from
other types (`Store.Discerning`).

Proof: templates are asked for steady types only, and not all of these are parameters where
something is replaced. So the answer was made for what was asked, and is bound to types of these
identities (`Engine.specialize_fills`), in whose place nothing is put either. What the result has
been made of is saturated, by induction on the value along the definition of substitution. -/
theorem substitute_idempotent {value result : Value} (depth : Nat)
    (rest : before.AtRest environment) (given : Within rest.grounded.references value)
    (bound : Within rest.grounded.references bindings)
    (shallow : ∀ ty ∈ value.allTypes, before.store.Shallow ty)
    (closing : ∀ parameter ty, bindings.resolve? parameter = some ty → before.store.Definite ty)
    (returned : (Engine.atDepth depth).substitute bindings value environment before =
      .ok result after)
    (discerning : after.store.Discerning bindings.types) :
    (Engine.atDepth depth).substitute bindings result environment after = .ok result after := by
  have rests := (substitute_repeats rest bound given _ _ returned).1
  have keeps := rests.lasts.keeps
  have there {ty : Ty} (within : Within rest.grounded.references ty) : before.store.HasType ty :=
    hasType_of_within (fun _ has => has) within
  have settles : Settles after.store bindings := by
    refine ⟨fun {parameter ty} resolved => ?_, discerning⟩
    exact keeps.definite rest.grounded (closing parameter ty resolved)
      (there (bound ty (Bindings.mem_types_of_resolve? resolved)))
  have shallowAfter : ∀ ty ∈ value.allTypes, after.store.Shallow ty := fun ty listed =>
    keeps.shallow rest.grounded (shallow ty listed) (there ((within_types given).1 ty listed))
  obtain ⟨grounded, within⟩ := substitute_within rest bound given returned
  exact substitute_saturated
    (substitute_saturates settles rest bound given shallowAfter returned (.refl rests.rest))
    (grounded.isNormal within)

end Engine

/-- A store is discerning if types of one identity are the same class, or no classes, and both
parameters or none. -/
theorem Store.Discerning.of_alike {store : Store} {given : List Ty}
    (known : ∀ record ∈ store.classes.toList, record.hash ≠ .unknown)
    (keyed : ∀ record ∈ store.classes.toList, ∀ template ∈ record.template,
      record.parameters.keys.map TypeParameter.hash =
        (store.typeParameters template).map TypeParameter.hash)
    (paired : ∀ record ∈ store.classes.toList, record.builtin = some .dict →
      Distinct record.parameters.keys)
    (alike : ∀ first ∈ store.requestedTypes given, ∀ second ∈ store.requestedTypes given,
      store.typeHash first = store.typeHash second → first.asClass? = second.asClass? ∧
        first.asParameter?.isSome = second.asParameter?.isSome) :
    store.Discerning given where
  known := known
  keyed := fun template record listed made => keyed record listed template made
  paired := paired
  definite := by
    intro first one second other same definite
    obtain ⟨isClass, -⟩ := alike first one second other same
    cases definite with
    | cls fixed arguments =>
      cases second with
      | cls id =>
        cases isClass
        exact .cls fixed arguments
      | unknown | parameter _ | function _ | marker _ => cases isClass
  parameter := fun first one second other same isParameter =>
    (alike first one second other same).2 ▸ isParameter

section Bare

variable {store : Store} {id : ClassId}

/-- A class that is bound to type parameters only is shallow. -/
theorem Store.shallow_of_parameters
    (parameters : ∀ ty ∈ store.arguments id, ty.asParameter?.isSome = true) :
    store.Shallow (.cls id) := by
  intro ty argument
  have isParameter := parameters ty argument
  cases ty with
  | parameter own => exact .inr ⟨own, rfl⟩
  | unknown | cls _ | function _ | marker _ => cases isParameter

/-- A class that is bound to nothing is definite, unless it derives from a generic one. -/
theorem Store.definite_of_bare (fixed : store.isGeneric id = false)
    (bare : (store.arguments id).isEmpty = true) : store.Definite (.cls id) :=
  .cls fixed fun _ listed => by
    rw [List.isEmpty_iff.mp bare] at listed
    cases listed

end Bare

namespace Analyzer

/-- Integers are put in a list of an object of the parameter and the class of boxes. When they are
put in again, nothing changes. -/
theorem substitute_idempotent_mixed :
    ∃ result after, withIntegers mixedList Registry.environment nested = .ok result after ∧
      result.allTypes.map Ty.asClass? =
        [some ⟨boxesClass.index + 3⟩, some (builtinClass .int), some ⟨boxesClass.index + 4⟩] ∧
      withIntegers result Registry.environment after = .ok result after := by
  have rest : nested.AtRest Registry.environment :=
    ⟨((Progress.Grounded.initial {}).after_ofModuleWithin Engine.depthLimit nestingModule).2,
      by decide +kernel, by decide +kernel⟩
  have computed : (classesWithIntegers mixedList).yields Registry.environment nested
      [some ⟨boxesClass.index + 3⟩, some (builtinClass .int), some ⟨boxesClass.index + 4⟩] =
        true := by
    decide +kernel
  obtain ⟨result, after, returned, ending⟩ := bind_eq_ok.mp (ok_of_yields computed)
  have left : (classesWithIntegers mixedList).after Registry.environment nested = after :=
    after_of_ok (bind_of_ok returned _)
  injection ending with classes _
  have discerning : ((classesWithIntegers mixedList).after Registry.environment
      nested).store.Discerning integers.types :=
    .of_alike (by decide +kernel) (by decide +kernel) (by decide +kernel) (by decide +kernel)
  have present : ∀ id ∈ [listsClass, boxesClass], nested.store.HasClass id := by decide +kernel
  have given : Within rest.grounded.references mixedList :=
    (within_sequence _ _ _).mpr ⟨present _ List.mem_cons_self, (within_cons _ _).mpr ⟨trivial,
      (within_cons _ _).mpr ⟨present _ (List.mem_cons_of_mem _ List.mem_cons_self), within_nil⟩⟩⟩
  have bound : Within rest.grounded.references integers :=
    (within_cons _ _).mpr ⟨rest.grounded.builtin .int, within_nil⟩
  have arguments : ∀ id ∈ [listsClass, boxesClass], ∀ ty ∈ nested.store.arguments id,
      ty.asParameter?.isSome = true := by
    decide +kernel
  have shallow : ∀ ty ∈ mixedList.allTypes, nested.store.Shallow ty := by
    rintro ty (_ | ⟨_, _ | ⟨_, _ | ⟨_, ⟨⟩⟩⟩⟩)
    · exact shallow_of_parameters (arguments _ List.mem_cons_self)
    · trivial
    · exact shallow_of_parameters (arguments _ (List.mem_cons_of_mem _ List.mem_cons_self))
  have definite : nested.store.Definite (builtinType .int) :=
    definite_of_bare (by decide +kernel) (by decide +kernel)
  have closing (parameter : TypeParameter) (ty : Ty)
      (resolved : integers.resolve? parameter = some ty) : nested.store.Definite ty :=
    List.mem_singleton.mp (Bindings.mem_types_of_resolve? resolved) ▸ definite
  exact ⟨result, after, returned, classes, Engine.substitute_idempotent Engine.depthLimit rest given
    bound shallow closing returned (left ▸ discerning)⟩

/-- A module with a generic class, lists of it, and another class that takes its name. -/
def redefiningModule : Module :=
  ⟨[.typeVariable "_T",
    .defineClass 1 "A" [.indexed "Generic" "_T"] [.pass .unknown],
    .define "lists" (.indexed "List" "A"),
    .defineClass 2 "A" [] [.pass .unknown]]⟩

/-- The progress of a fresh analyzer after that module. -/
def redefined : Progress :=
  (Analysis.ofModule redefiningModule).after Registry.environment Registry.start

/-- The generic class. -/
def replacedClass : ClassId :=
  Registry.standard.store.nextClass

/-- The class of its lists. -/
def replacedListsClass : ClassId :=
  ⟨replacedClass.index + 1⟩

/-- The class that takes its name. -/
def replacingClass : ClassId :=
  ⟨replacedClass.index + 2⟩

/-- The parameter of lists is bound to the class that took the name. -/
def toReplacing : Bindings :=
  ⟨[(.named "_T", .cls replacingClass)]⟩

/-- The classes in what a substitution makes of a list, and in what the same one makes of that. -/
def classesSubstitutedTwice : Analysis (List (Option ClassId) × List (Option ClassId)) := do
  let once ← (Engine.atDepth Engine.depthLimit).substitute toReplacing
    (.object (.cls (builtinClass .list)) .plain)
  let twice ← (Engine.atDepth Engine.depthLimit).substitute toReplacing once
  return (once.allTypes.map Ty.asClass?, twice.allTypes.map Ty.asClass?)

/-- Substitution is not always idempotent: where a class takes the name of a generic one, lists of
the former are those of the latter. The first substitution puts an object of the generic class in,
and the second one replaces it by one of a specialization that it makes. -/
theorem substitute_again_differs :
    redefined.store.NoOverloadIs .pending ∧ redefined.store.Definite (.cls replacingClass) ∧
      redefined.store.Shallow (.cls (builtinClass .list)) ∧
      ∃ once middle twice after,
        (Engine.atDepth Engine.depthLimit).substitute toReplacing
            (.object (.cls (builtinClass .list)) .plain) Registry.environment redefined =
          .ok once middle ∧
        (Engine.atDepth Engine.depthLimit).substitute toReplacing once Registry.environment middle =
          .ok twice after ∧
        once.allTypes.map Ty.asClass? = [some replacedListsClass, some replacedClass] ∧
        twice.allTypes.map Ty.asClass? =
          [some replacedListsClass, some ⟨replacedClass.index + 3⟩] ∧
        twice ≠ once := by
  have computed : classesSubstitutedTwice.yields Registry.environment redefined
      ([some replacedListsClass, some replacedClass],
        [some replacedListsClass, some ⟨replacedClass.index + 3⟩]) = true := by
    decide +kernel
  obtain ⟨once, middle, first, continued⟩ := bind_eq_ok.mp (ok_of_yields computed)
  obtain ⟨twice, after, second, ending⟩ := bind_eq_ok.mp continued
  injection ending with classes _
  obtain ⟨onceClasses, twiceClasses⟩ := Prod.mk.inj classes
  refine ⟨by decide +kernel, definite_of_bare (by decide +kernel) (by decide +kernel),
    shallow_of_parameters (by decide +kernel), once, middle, twice, after, first, second,
    onceClasses, twiceClasses, fun same => ?_⟩
  rw [same, onceClasses] at twiceClasses
  revert twiceClasses
  decide +kernel

end Analyzer

end TypeInference
