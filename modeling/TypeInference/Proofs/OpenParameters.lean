import TypeInference.Proofs.Normality
import TypeInference.Proofs.Replacing

/-!
# Parameters that a call leaves open

At the end of a call what stands for an open parameter is erased: a value that is a parameter, or an
object of one, becomes unknown, and so does a union with such an alternative. Erasure does not look
any further. A parameter that substitution has left in the content of an object, or in the
arguments of a class, is in the value of the call as well.

So the value of a call mentions a parameter just if what substitution gives mentions one and has no
alternative that is erased. It mentions none where all that the receiver and the arguments show is
closed, and all types in the return value are closed by that.
-/

namespace TypeInference

open Analysis Store TypeParameter

namespace Store

/-- A type that mentions a type parameter: it is one, lists one, or is a specialization that is
bound to such a type. A template is bound to its own parameters and does not mention them. -/
inductive IsOpen (store : Store) : Ty → Prop
  | itself (parameter : TypeParameter) : IsOpen store (.parameter parameter)
  | listed {parameters : List TypeParameter} {parameter : TypeParameter}
      (among : parameter ∈ parameters) : IsOpen store (.marker parameters)
  | argument {id : ClassId} {ty : Ty} (made : (store.classAt id).template.isSome = true)
      (among : ty ∈ store.arguments id) (inside : IsOpen store ty) : IsOpen store (.cls id)

/-- A value that mentions a type parameter: some type in it does, at any depth of content. -/
def MentionsOpen (store : Store) (value : Value) : Prop :=
  ∃ ty ∈ value.allTypes, store.IsOpen ty

/-- A class that is no specialization mentions no parameter. -/
theorem not_isOpen_of_original {store : Store} {id : ClassId}
    (original : (store.classAt id).template = none) : ¬store.IsOpen (.cls id) := by
  rintro (_ | _ | ⟨made, _, _⟩)
  rw [original] at made
  cases made

/-- A class is closed if all that it is bound to is. -/
theorem not_isOpen_of_arguments {store : Store} {id : ClassId}
    (closed : ∀ ty ∈ store.arguments id, ¬store.IsOpen ty) : ¬store.IsOpen (.cls id) := by
  rintro (_ | _ | ⟨_, among, inside⟩)
  exact closed _ among inside

/-- Objects of a class are closed if all that it is bound to is. -/
theorem not_mentionsOpen_newObject {store : Store} {id : ClassId}
    (closed : ∀ ty ∈ store.arguments id, ¬store.IsOpen ty) :
    ¬store.MentionsOpen (store.newObject id) := by
  rintro ⟨ty, listed, inside⟩
  rcases mem_allTypes_newObject listed with rfl | among
  · exact not_isOpen_of_arguments closed inside
  · exact closed ty among inside

/-- No specialization has the identity of a class that is none. -/
def TellsOriginals (store : Store) : Prop :=
  ∀ first ∈ store.classes.toList, ∀ second ∈ store.classes.toList, first.hash = second.hash →
    first.template.isSome = second.template.isSome

instance (store : Store) : Decidable store.TellsOriginals :=
  List.decidableBAll _ _

/-- Types of one identity mention parameters all or not at all. -/
theorem Faithful.isOpen {store : Store} {given : List Ty} (faithful : store.Faithful given)
    (tells : store.TellsOriginals) {first : Ty} (isOpen : store.IsOpen first) : ∀ {second : Ty},
      first ∈ store.typesWith given → second ∈ store.typesWith given →
        store.typeHash first = store.typeHash second → store.IsOpen second := by
  induction isOpen with
  | itself parameter =>
    intro second one two same
    have alike := faithful.alike _ one _ two same
    cases second with
    | parameter last => exact .itself last
    | unknown | cls _ | function _ | marker _ => exact alike.elim
  | @listed parameters parameter among =>
    intro second one two same
    have alike := faithful.alike _ one _ two same
    cases second with
    | marker others =>
      have found : parameter.hash ∈ others.map TypeParameter.hash :=
        alike ▸ List.mem_map_of_mem among
      obtain ⟨last, its, -⟩ := List.mem_map.mp found
      exact .listed its
    | unknown | cls _ | function _ | parameter _ => exact alike.elim
  | @argument id ty made among inside inductionHypothesis =>
    intro second one two same
    have alike := faithful.alike _ one _ two same
    cases second with
    | cls other =>
      obtain ⟨last, its, equal⟩ := exists_same_identity alike among
      have present {asked : ClassId} {ty : Ty} (bound : ty ∈ store.arguments asked) :
          store.classAt asked ∈ store.classes.toList := by
        refine classAt_mem (not_not.mp fun absent => ?_)
        rw [arguments, classAt_of_not_hasClass store asked absent] at bound
        cases bound
      refine .argument (tells _ (present among) _ (present its) same ▸ made) its ?_
      exact inductionHypothesis (mem_typesWith_of_argument among) (mem_typesWith_of_argument its)
        equal.symm
    | unknown | marker _ | function _ | parameter _ => exact alike.elim

namespace KeepsShapes

variable {before after : Store}

/-- A type that was there mentions no parameter later that it did not mention. -/
theorem isOpen_before (keeps : before.KeepsShapes after) (closed : before.HasArguments) {ty : Ty}
    (isOpen : after.IsOpen ty) (present : before.HasType ty) : before.IsOpen ty := by
  induction isOpen with
  | itself parameter => exact .itself parameter
  | listed among => exact .listed among
  | @argument id _ made among _ inductionHypothesis =>
    rw [keeps.arguments present] at among
    rw [ClassRecord.template_of_shape (keeps.shapes id present)] at made
    exact .argument made among (inductionHypothesis (closed _ _ among))

/-- A value that mentions no parameter mentions none later. -/
theorem mentionsOpen_before {environment : Environment} {progress : Progress} {next : Store}
    (keeps : progress.store.KeepsShapes next) (grounded : progress.Grounded environment)
    {value : Value} (given : Within grounded.references value)
    (mentions : next.MentionsOpen value) : progress.store.MentionsOpen value := by
  obtain ⟨ty, listed, isOpen⟩ := mentions
  refine ⟨ty, listed, keeps.isOpen_before grounded.hasArguments isOpen ?_⟩
  exact hasType_of_within (fun _ has => has) ((within_types given).1 ty listed)

end KeepsShapes

end Store

namespace Store

/-- A type that is closed when its parameters are replaced: it is replaced itself, or mentions no
parameter, or is a class for all of whose arguments this is so. A template may also have nothing
replaced, and stays what it is. -/
def Closable (store : Store) (bindings : Bindings) : Ty → Prop
  | .cls id => store.Aligned id ∧ (∀ ty ∈ store.arguments id, ty.isUnknown = false) ∧
      ((∀ ty ∈ store.arguments id, Engine.replacement? bindings ty ≠ none ∨ ¬store.IsOpen ty) ∨
        (store.classAt id).template = none ∧
          ∀ ty ∈ store.arguments id, Engine.replacement? bindings ty = none)
  | ty => Engine.replacement? bindings ty ≠ none ∨ ¬store.IsOpen ty

/-- A type that some bindings give: it is known and closed, and so are objects of it. -/
structure ClosedType (store : Store) (ty : Ty) : Prop where
  known : ty.isUnknown = false
  closed : ¬store.IsOpen ty
  object : ∀ id, ty = .cls id → ¬store.MentionsOpen (store.newObject id)

/-- The bindings of a call close what the function returns: all types that are bound are closed,
all types that are replaced can be closed, and those that are kept are closed already. -/
structure ClosesReturn (store : Store) (bindings : Bindings) (returned : Value) : Prop where
  bound : ∀ ty ∈ bindings.types, store.ClosedType ty
  closable : ∀ ty ∈ returned.allTypes, store.Closable bindings ty
  kept : ∀ ty ∈ returned.keptTypes, ¬store.IsOpen ty

/-- Where nothing is bound, what can be closed is closed already. -/
theorem ClosesReturn.of_isEmpty {store : Store} {bindings : Bindings} {returned : Value}
    (closes : store.ClosesReturn bindings returned) (empty : bindings.isEmpty = true) :
    ¬store.MentionsOpen returned := by
  have nothing (ty : Ty) : Engine.replacement? bindings ty = none := by
    have none_found (parameter : TypeParameter) : bindings.resolve? parameter = none := by
      rw [Bindings.resolve?, Bindings.find?, List.isEmpty_iff.mp empty]
      rfl
    cases ty with
    | parameter parameter => exact none_found parameter
    | unknown | cls _ | function _ | marker _ => rfl
  rintro ⟨ty, listed, isOpen⟩
  have closable := closes.closable ty listed
  cases ty with
  | cls id =>
    obtain ⟨-, -, asked | ⟨original, -⟩⟩ := closable
    · exact not_isOpen_of_arguments
        (fun ty among => (asked ty among).resolve_left (not_not.mpr (nothing ty))) isOpen
    · exact not_isOpen_of_original original isOpen
  | unknown | parameter _ | function _ | marker _ =>
    exact closable.resolve_left (not_not.mpr (nothing _)) isOpen

section Lasting

variable {environment : Environment} {progress : Progress} {next : Store}

/-- A type that is known and closed, as are objects of it, stays so. -/
theorem ClosedType.lasts {ty : Ty} (closed : progress.store.ClosedType ty)
    (keeps : progress.store.KeepsShapes next) (grounded : progress.Grounded environment)
    (given : Within grounded.references ty) : next.ClosedType ty where
  known := closed.known
  closed isOpen := closed.closed
    (keeps.isOpen_before grounded.hasArguments isOpen (hasType_of_within (fun _ has => has) given))
  object id isClass := by
    subst isClass
    have present : progress.store.HasClass id := given
    rw [keeps.newObject present]
    exact fun mentions => closed.object id rfl
      (keeps.mentionsOpen_before grounded (within_newObject grounded.stored present) mentions)

/-- A type that is closed when its parameters are replaced stays so. -/
theorem Closable.lasts {bindings : Bindings} {ty : Ty}
    (closable : progress.store.Closable bindings ty) (keeps : progress.store.KeepsShapes next)
    (grounded : progress.Grounded environment) (given : Within grounded.references ty) :
    next.Closable bindings ty := by
  have later {ty : Ty} (present : progress.store.HasType ty) (asked :
      Engine.replacement? bindings ty ≠ none ∨ ¬progress.store.IsOpen ty) :
      Engine.replacement? bindings ty ≠ none ∨ ¬next.IsOpen ty :=
    asked.imp_right fun closed isOpen =>
      closed (keeps.isOpen_before grounded.hasArguments isOpen present)
  cases ty with
  | cls id =>
    have present : progress.store.HasClass id := given
    obtain ⟨aligned, known, direct⟩ := closable
    refine ⟨keeps.aligned grounded present aligned, ?_⟩
    rw [keeps.arguments present, ClassRecord.template_of_shape (keeps.shapes id present)]
    exact ⟨known, direct.imp_left fun asked ty among =>
      later (grounded.hasArguments id ty among) (asked ty among)⟩
  | unknown | parameter _ | function _ | marker _ =>
    exact later (hasType_of_within (fun _ has => has) given) closable

end Lasting

end Store

/-- Bindings to closed types, where types of one identity mention parameters all or not at all. -/
structure Bindings.Close (bindings : Bindings) (store : Store) : Prop where
  bound : ∀ ty ∈ bindings.types, store.ClosedType ty
  faithful : store.Faithful bindings.types
  tells : store.TellsOriginals

namespace Bindings.Close

variable {store : Store} {bindings : Bindings}

/-- What comes in place of a type that is closed or replaced is closed: a bound type, or the type
itself. -/
theorem replaced (close : bindings.Close store) {ty : Ty}
    (asked : Engine.replacement? bindings ty ≠ none ∨ ¬store.IsOpen ty) :
    ¬store.IsOpen ((Engine.replacement? bindings ty).getD ty) ∧
      ((Engine.replacement? bindings ty).getD ty ∈ bindings.types ∨
        (Engine.replacement? bindings ty).getD ty = ty) := by
  cases replaced : Engine.replacement? bindings ty with
  | none => exact ⟨asked.resolve_left (not_not.mpr replaced), .inr rfl⟩
  | some new =>
    obtain ⟨_, -, resolved⟩ := Option.bind_eq_some_iff.mp replaced
    have listed := Bindings.mem_types_of_resolve? resolved
    exact ⟨(close.bound new listed).closed, .inl listed⟩

/-- What comes in place of a known type is known. -/
theorem known (close : bindings.Close store) {ty : Ty} (known : ty.isUnknown = false) :
    ((Engine.replacement? bindings ty).getD ty).isUnknown = false := by
  cases replaced : Engine.replacement? bindings ty with
  | none => exact known
  | some new =>
    obtain ⟨_, -, resolved⟩ := Option.bind_eq_some_iff.mp replaced
    exact (close.bound new (Bindings.mem_types_of_resolve? resolved)).known

variable {environment : Environment} {before after : Progress} {depth : Nat}

/-- A class that can be closed is. -/
theorem substituteClass (close : bindings.Close store) {id result : ClassId}
    (grounded : before.Grounded environment) (bound : Within grounded.references bindings)
    (present : before.store.HasClass id) (closable : store.Closable bindings (.cls id))
    (returned : (Engine.atDepth depth).substituteClass bindings id environment before =
      .ok result after) (lasts : after.store.LastsTo store) :
    ¬store.IsOpen (.cls result) ∧
      (result = id ∨ ¬store.MentionsOpen (store.newObject result)) := by
  obtain ⟨aligned, known, direct⟩ := closable
  rcases Engine.substituteClass_identities close.faithful.known grounded bound present aligned
    (fun ty among => close.known (known ty among)) returned lasts with
    ⟨rfl, kept⟩ | ⟨⟨changed, its, replaced⟩, identities⟩
  · refine ⟨?_, .inl rfl⟩
    rcases direct with asked | ⟨original, -⟩
    · exact not_isOpen_of_arguments fun ty among =>
        (asked ty among).resolve_left (not_not.mpr (kept ty among))
    · exact not_isOpen_of_original original
  · have asked := direct.resolve_right fun nothing => replaced (nothing.2 changed its)
    have closed : ∀ ty ∈ store.arguments result, ¬store.IsOpen ty := by
      intro ty among inside
      obtain ⟨other, listed, same⟩ := identities ty among
      obtain ⟨free, source⟩ := close.replaced (asked other listed)
      refine free (close.faithful.isOpen close.tells inside (mem_typesWith_of_argument among) ?_
        same.symm)
      rcases source with given | itself
      · exact mem_typesWith_of_given given
      · rw [itself]
        exact mem_typesWith_of_argument listed
    exact ⟨not_isOpen_of_arguments closed, .inr (not_mentionsOpen_newObject closed)⟩

/-- Substitution closes what can be closed. -/
theorem replaces (close : bindings.Close store) (depth : Nat) (environment : Environment) :
    Replaces depth environment bindings store (store.Closable bindings)
      (fun ty => ¬store.IsOpen ty) (fun id => ¬store.MentionsOpen (store.newObject id)) where
  ofClass grounded bound present closable returned lasts :=
    close.substituteClass grounded bound present closable returned lasts
  ofOther {ty} apart closable := by
    cases ty with
    | cls _ => cases apart
    | unknown | parameter _ | function _ | marker _ => exact (close.replaced closable).1
  ofBound resolved :=
    (close.bound _ (Bindings.mem_types_of_resolve? resolved)).object _ rfl
  ofObject keeps present closed := by
    intro ty listed isOpen
    rw [← keeps.newObject present] at listed
    exact closed ⟨ty, listed, isOpen⟩

end Bindings.Close

namespace Engine

/-- The value of a call before open parameters are erased. -/
def unerasedCall (engine : Engine) (function : FunctionId) (receiver : Option Value)
    (positional : List Value) (keywords : List (String × Value)) (span : Span) :
    Analysis Value := do
  engine.evaluateFunction function
  let store ← Analysis.store
  match (store.functionAt function).overloads.head? with
  | none => return .unknown
  | some overload =>
    let bindings := callBindings store overload receiver positional keywords span
    if bindings.isEmpty then return store.returnValue overload
    else engine.substitute bindings (store.returnValue overload)

/-- A call erases what stands for open parameters at last. -/
theorem callFunction_eq (engine : Engine) (function : FunctionId) (receiver : Option Value)
    (positional : List Value) (keywords : List (String × Value)) (span : Span) :
    engine.callFunction function receiver positional keywords span = do
      let value ← engine.unerasedCall function receiver positional keywords span
      return (← Analysis.store).eraseParameters value := by
  rw [callFunction, unerasedCall, bind_assoc]
  congr 1
  funext _
  rw [bind_assoc]
  congr 1
  funext store
  cases (store.functionAt function).overloads.head? with
  | none => rfl
  | some overload =>
    dsimp only
    split <;> rfl

section Calling

variable {environment : Environment} {before after : Progress} {function : FunctionId}
  {receiver : Option Value} {positional : List Value} {keywords : List (String × Value)}
  {span : Span} {depth : Nat} {left : Value}

/-- What a call gives before erasure is unknown if the function has no overload, else its return
value, with parameters replaced if something is bound. -/
inductive LeavesFrom (depth : Nat) (environment : Environment) (middle : Progress)
    (bindings : Overload → Bindings) (left : Value) (after : Progress) :
    Option Overload → Prop
  | missing (isUnknown : left = .unknown) (same : after = middle) :
      LeavesFrom depth environment middle bindings left after none
  | kept {overload : Overload} (empty : (bindings overload).isEmpty = true)
      (isReturned : left = middle.store.returnValue overload) (same : after = middle) :
      LeavesFrom depth environment middle bindings left after (some overload)
  | replaced {overload : Overload} (substituted : (Engine.atDepth depth).substitute
      (bindings overload) (middle.store.returnValue overload) environment middle = .ok left after) :
      LeavesFrom depth environment middle bindings left after (some overload)

theorem unerasedCall_eq_ok (returned : (Engine.atDepth depth).unerasedCall function receiver
      positional keywords span environment before = .ok left after) :
    ∃ middle, (Engine.atDepth depth).evaluateFunction function environment before = .ok () middle ∧
      LeavesFrom depth environment middle
        (fun overload => callBindings middle.store overload receiver positional keywords span) left
        after (middle.store.functionAt function).overloads.head? := by
  obtain ⟨_, middle, evaluated, ending⟩ := bind_eq_ok.mp returned
  refine ⟨middle, evaluated, ?_⟩
  rw [bind_apply, store_apply] at ending
  dsimp only at ending
  cases head : (middle.store.functionAt function).overloads.head? with
  | none =>
    rw [head] at ending
    cases ending
    exact .missing rfl rfl
  | some overload =>
    rw [head] at ending
    dsimp only at ending
    split at ending
    · next empty =>
      cases ending
      exact .kept empty rfl rfl
    · exact .replaced ending

/-- The evaluation of a function that is there keeps progress grounded, and shapes as they are. -/
theorem evaluateFunction_lasts {middle : Progress} (grounded : before.Grounded environment)
    (there : before.store.HasFunction function)
    (evaluated : (Engine.atDepth depth).evaluateFunction function environment before =
      .ok () middle) : before.store.LastsTo middle.store ∧ middle.Grounded environment := by
  obtain ⟨lasts, groundedMiddle, -⟩ := ((areGrounded_atDepth depth
    grounded.references).evaluateFunction there environment before grounded
      fun _ => id).lastsTo_of_ok ((atDepth_shaping depth).evaluateFunction function).shaping evaluated
  exact ⟨lasts, groundedMiddle⟩

/-- What a call binds and what the function returns is there. -/
theorem within_call {middle : Progress} (grounded : middle.Grounded environment)
    (received : Within grounded.references receiver)
    (placed : Within grounded.references positional)
    (named : Within grounded.references keywords) {overload : Overload}
    (first : (middle.store.functionAt function).overloads.head? = some overload) (span : Span) :
    Within grounded.references
        (callBindings middle.store overload receiver positional keywords span) ∧
      Within grounded.references (middle.store.returnValue overload) := by
  have signature := within_firstOverload grounded.stored function overload first
  exact ⟨within_callBindings grounded.stored signature received placed named span,
    within_returnValue (closedIn_references _ _) signature⟩

variable (grounded : before.Grounded environment) (there : before.store.HasFunction function)
  (received : Within grounded.references receiver)
  (placed : Within grounded.references positional) (named : Within grounded.references keywords)

include there received placed named

/-- What a call gives before erasure is there. -/
theorem within_unerasedCall
    (returned : (Engine.atDepth depth).unerasedCall function receiver positional keywords span
      environment before = .ok left after) :
    ∃ groundedAfter : after.Grounded environment, Within groundedAfter.references left := by
  obtain ⟨middle, evaluated, leaves⟩ := unerasedCall_eq_ok returned
  obtain ⟨lasts, groundedMiddle⟩ := evaluateFunction_lasts grounded there evaluated
  cases first : (middle.store.functionAt function).overloads.head? with
  | none =>
    rw [first] at leaves
    cases leaves with
    | missing isUnknown same =>
      subst isUnknown same
      exact ⟨groundedMiddle, within_unknown⟩
  | some overload =>
    rw [first] at leaves
    obtain ⟨bound, given⟩ := within_call groundedMiddle
      (lasts.within grounded groundedMiddle received)
      (lasts.within grounded groundedMiddle placed) (lasts.within grounded groundedMiddle named)
      first span
    cases leaves with
    | kept _ isReturned same =>
      subst isReturned same
      exact ⟨groundedMiddle, given⟩
    | replaced substituted =>
      exact ((substitute_holds (substitutes (areGrounded_atDepth depth _) bound) given environment
        middle groundedMiddle fun _ has => has).lastsTo_of_ok
          (substitute_keeps (atDepth_shaping depth) _ _).shaping substituted).2

/-- A return value that the bindings of a call close mentions no parameter in the end. -/
theorem unerasedCall_closed {middle : Progress} {overload : Overload}
    (returned : (Engine.atDepth depth).unerasedCall function receiver positional keywords span
      environment before = .ok left after)
    (evaluated : (Engine.atDepth depth).evaluateFunction function environment before =
      .ok () middle)
    (first : (middle.store.functionAt function).overloads.head? = some overload)
    (closes : middle.store.ClosesReturn
      (callBindings middle.store overload receiver positional keywords span)
      (middle.store.returnValue overload))
    (faithful : after.store.Faithful
      (callBindings middle.store overload receiver positional keywords span).types)
    (tells : after.store.TellsOriginals) : ¬after.store.MentionsOpen left := by
  obtain ⟨_, again, leaves⟩ := unerasedCall_eq_ok returned
  cases evaluated.symm.trans again
  obtain ⟨lasts, groundedMiddle⟩ := evaluateFunction_lasts grounded there evaluated
  obtain ⟨bound, given⟩ := within_call groundedMiddle (lasts.within grounded groundedMiddle received)
    (lasts.within grounded groundedMiddle placed) (lasts.within grounded groundedMiddle named)
    first span
  rw [first] at leaves
  cases leaves with
  | kept empty isReturned same =>
    subst isReturned same
    exact closes.of_isEmpty empty
  | replaced substituted =>
    obtain ⟨further, -⟩ := substitute_lasts groundedMiddle bound given substituted
    have close : Bindings.Close _ after.store :=
      ⟨fun ty listed => (closes.bound ty listed).lasts further.keeps groundedMiddle (bound ty listed),
        faithful, tells⟩
    obtain ⟨all, kept⟩ := within_types given
    have fit : Fit (after.store.Closable _) (fun ty => ¬after.store.IsOpen ty)
        (middle.store.returnValue overload).allTypes
        (middle.store.returnValue overload).keptTypes :=
      ⟨fun ty listed => (closes.closable ty listed).lasts further.keeps groundedMiddle
          (all ty listed),
        fun ty listed isOpen => closes.kept ty listed (further.keeps.isOpen_before
          groundedMiddle.hasArguments isOpen
          (hasType_of_within (fun _ has => has) (kept ty listed)))⟩
    rintro ⟨ty, listed, isOpen⟩
    exact (close.replaces depth environment).substitute _ groundedMiddle bound given fit substituted
      (.refl _) ty listed isOpen

/-- The value of a call mentions a type parameter just if it does so before erasure, and has no
alternative that is a parameter or an object of one: this is all that erasure looks for.

It mentions none if all that the receiver and the arguments show is closed and closes each type in
the return value. The identities of types are taken for the types.

Proof: values of analyses are in normal form (`Progress.Grounded.isNormal`), so that erasure leaves
the alternatives of a union as they are if none of them is bare. What substitution puts in place
of types follows from what a template is applied to (`Engine.substituteClass_identities`). -/
theorem callFunction_mentionsOpen_iff (depth : Nat) {value : Value}
    (returned : (Engine.atDepth depth).callFunction function receiver positional keywords span
      environment before = .ok value after) :
    ∃ left, (Engine.atDepth depth).unerasedCall function receiver positional keywords span
        environment before = .ok left after ∧
      (after.store.MentionsOpen value ↔
        left.alternatives.any Value.isBare = false ∧ after.store.MentionsOpen left) ∧
      ∀ middle overload, (Engine.atDepth depth).evaluateFunction function environment before =
          .ok () middle →
        (middle.store.functionAt function).overloads.head? = some overload →
          let bindings := callBindings middle.store overload receiver positional keywords span
          middle.store.ClosesReturn bindings (middle.store.returnValue overload) →
            after.store.Faithful bindings.types → after.store.TellsOriginals →
              ¬after.store.MentionsOpen value := by
  rw [callFunction_eq] at returned
  obtain ⟨left, _, unerased, ending⟩ := bind_eq_ok.mp returned
  obtain ⟨groundedAfter, given⟩ := within_unerasedCall grounded there received placed named unerased
  rw [bind_apply, store_apply] at ending
  dsimp only at ending
  rw [eraseParameters_of_isNormal (groundedAfter.isNormal given)] at ending
  cases bare : left.alternatives.any Value.isBare with
  | true =>
    rw [bare] at ending
    cases ending
    have nothing : ¬after.store.MentionsOpen .unknown := by
      rintro ⟨_, listed, -⟩
      cases listed
    exact ⟨left, unerased, ⟨fun mentions => absurd mentions nothing,
      fun both => absurd (both.1.symm.trans bare) Bool.false_ne_true⟩,
      fun _ _ _ _ _ _ _ => nothing⟩
  | false =>
    rw [bare] at ending
    cases ending
    exact ⟨_, unerased, ⟨fun mentions => ⟨bare, mentions⟩, And.right⟩,
      fun middle overload evaluated first => unerasedCall_closed grounded there received placed named
        unerased evaluated first⟩

end Calling

end Engine

namespace Analyzer

/-- A module with a function that puts an object of a type parameter into a list. -/
def wrappingModule : Module :=
  ⟨[.typeVariable "T",
    .function ⟨⟨1⟩, .ofName "f", [{ name := .ofName "x", typeHint := some (.ofName "T") }], none,
      [.ret (some (.display .list [.ofName "x"] .unknown)) .unknown], [], .unknown⟩]⟩

/-- The progress of a fresh analyzer after that module. -/
def wrapping : Progress :=
  (Analysis.ofModule wrappingModule).after Registry.environment Registry.start

/-- The function of the module. -/
def wrappingFunction : FunctionId :=
  ⟨Registry.standard.store.functions.size⟩

/-- A call of the function. -/
def wrapped (positional : List Value) : Analysis Value :=
  (Engine.atDepth Engine.depthLimit).callFunction wrappingFunction none positional [] .unknown

/-- The classes among the types in the value of a call, and the names of the parameters. -/
def wrappedTypes (positional : List Value) : Analysis (List (Option ClassId × Option String)) := do
  return (← wrapped positional).allTypes.map fun ty =>
    (ty.asClass?, ty.asParameter?.map TypeParameter.name)

/-- The function once it is evaluated. -/
def wrappingEvaluated : Progress :=
  ((Engine.atDepth Engine.depthLimit).evaluateFunction wrappingFunction).after Registry.environment
    wrapping

/-- What an integer shows of an overload of the function. -/
def boundByInteger (overload : Overload) : Bindings :=
  Engine.callBindings wrappingEvaluated.store overload none [Store.constantObject (.int 1)] []
    .unknown

/-- Whether nothing but the class of lists and replaced parameters is in what an overload returns,
and whether nothing of it is kept. -/
def isReplaceable (overload : Overload) : Bool :=
  let returned := wrappingEvaluated.store.returnValue overload
  returned.allTypes.all (fun ty => ty.asClass? = some (builtinClass .list) ||
      ty.asClass?.isNone && (Engine.replacement? (boundByInteger overload) ty).isSome) &&
    returned.keptTypes.isEmpty

/-- Called with an integer, the function gives a list of an integer. -/
theorem callFunction_mentionsOpen_iff_integer :
    ∃ value after, wrapped [Store.constantObject (.int 1)] Registry.environment wrapping =
        .ok value after ∧
      value.allTypes.map Ty.asClass? = [some (builtinClass .list), some (builtinClass .int)] ∧
      ¬after.store.MentionsOpen value := by
  have grounded : wrapping.Grounded Registry.environment :=
    ((Progress.Grounded.initial {}).after_ofModuleWithin Engine.depthLimit wrappingModule).2
  have computed : (wrappedTypes [Store.constantObject (.int 1)]).yields Registry.environment wrapping
      [(some (builtinClass .list), none), (some (builtinClass .int), none)] = true := by
    decide +kernel
  obtain ⟨value, after, returned, ending⟩ := bind_eq_ok.mp (ok_of_yields computed)
  have last : (wrappedTypes [Store.constantObject (.int 1)]).after Registry.environment wrapping =
      after :=
    after_of_ok (bind_of_ok returned _)
  injection ending with types _
  have classes := congrArg (List.map Prod.fst) types
  rw [List.map_map] at classes
  refine ⟨value, after, returned, classes, ?_⟩
  have placed : Within grounded.references [Store.constantObject (.int 1)] :=
    (within_cons _ _).mpr ⟨within_constantObject _, within_nil⟩
  obtain ⟨_, -, -, closed⟩ := Engine.callFunction_mentionsOpen_iff grounded (by decide +kernel)
    within_none placed within_nil Engine.depthLimit returned
  have evaluated : (Engine.atDepth Engine.depthLimit).evaluateFunction wrappingFunction
      Registry.environment wrapping = .ok () wrappingEvaluated :=
    ok_of_yields (by decide +kernel)
  have overloads : ∀ overload ∈ (wrappingEvaluated.store.functionAt
      wrappingFunction).overloads.head?, isReplaceable overload = true ∧
        (boundByInteger overload).types.map Ty.asClass? = [some (builtinClass .int)] ∧
        (∀ ty ∈ wrappingEvaluated.store.arguments (builtinClass .list), ty.isUnknown = false ∧
          (Engine.replacement? (boundByInteger overload) ty).isNone = true) ∧
        ((wrappedTypes [Store.constantObject (.int 1)]).after Registry.environment
          wrapping).store.Faithful (boundByInteger overload).types := by
    decide +kernel
  have some_overload : (wrappingEvaluated.store.functionAt
      wrappingFunction).overloads.head?.isSome = true := by
    decide +kernel
  obtain ⟨overload, first⟩ := Option.isSome_iff_exists.mp some_overload
  obtain ⟨replaceable, bound, arguments, faithful⟩ := overloads overload first
  have original (builtin : Builtin) (among : builtin ∈ [.int, .list]) :
      (wrappingEvaluated.store.classAt (builtinClass builtin)).template = none := by
    refine Option.isNone_iff_eq_none.mp ?_
    revert builtin
    decide +kernel
  have aligned : wrappingEvaluated.store.Aligned (builtinClass .list) :=
    ⟨by decide +kernel, by decide +kernel, by decide +kernel⟩
  have integerArguments : wrappingEvaluated.store.arguments (builtinClass .int) = [] :=
    List.isEmpty_iff.mp (by decide +kernel)
  obtain ⟨direct, kept⟩ := Bool.and_eq_true_iff.mp replaceable
  refine closed _ overload evaluated first ⟨?_, ?_, ?_⟩ (last ▸ faithful)
    (last ▸ by decide +kernel)
  · intro ty listed
    have isInteger : ty.asClass? = some (builtinClass .int) :=
      List.mem_singleton.mp (bound ▸ List.mem_map_of_mem listed)
    cases ty with
    | cls id =>
      cases isInteger
      refine ⟨rfl, not_isOpen_of_original (original .int List.mem_cons_self), ?_⟩
      rintro _ ⟨⟩
      refine not_mentionsOpen_newObject fun ty among => ?_
      rw [integerArguments] at among
      cases among
    | unknown | parameter _ | function _ | marker _ => cases isInteger
  · intro ty listed
    have cases_of_type : ty.asClass? = some (builtinClass .list) ∨ ty.asClass? = none ∧
        (Engine.replacement? (boundByInteger overload) ty).isSome = true := by
      simpa using List.all_eq_true.mp direct ty listed
    rcases cases_of_type with isList | ⟨apart, replaced⟩
    · cases ty with
      | cls id =>
        cases isList
        exact ⟨aligned, fun ty among => (arguments ty among).1,
          .inr ⟨original .list (List.mem_cons_of_mem _ List.mem_cons_self),
            fun ty among => Option.isNone_iff_eq_none.mp (arguments ty among).2⟩⟩
      | unknown | parameter _ | function _ | marker _ => cases isList
    · cases ty with
      | cls _ => cases apart
      | unknown | parameter _ | function _ | marker _ =>
        exact .inl (Option.isSome_iff_ne_none.mp replaced)
  · intro ty listed
    rw [List.isEmpty_iff.mp kept] at listed
    cases listed

/-- Called without an argument, it gives a list of an object of its type parameter. -/
theorem open_parameter_left_in_list :
    ∃ value after, wrapped [] Registry.environment wrapping = .ok value after ∧
      value.allTypes.map Ty.asClass? = [some (builtinClass .list), none] ∧
      value.allTypes.map (·.asParameter?.map (·.name)) = [none, some "T"] ∧
      after.store.MentionsOpen value := by
  have computed : (wrappedTypes []).yields Registry.environment wrapping
      [(some (builtinClass .list), none), (none, some "T")] = true := by
    decide +kernel
  obtain ⟨value, after, returned, ending⟩ := bind_eq_ok.mp (ok_of_yields computed)
  injection ending with types _
  have classes := congrArg (List.map Prod.fst) types
  have names := congrArg (List.map Prod.snd) types
  rw [List.map_map] at classes names
  obtain ⟨ty, listed, named⟩ := List.mem_map.mp
    (types ▸ List.mem_cons_of_mem _ (List.mem_singleton_self _))
  refine ⟨value, after, returned, classes, names, ty, listed, ?_⟩
  cases ty with
  | parameter parameter => exact .itself parameter
  | unknown | cls _ | function _ | marker _ => cases named

end Analyzer

end TypeInference
