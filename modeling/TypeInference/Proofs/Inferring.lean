import TypeInference.Evaluation.Check
import TypeInference.Proofs.Substituting

/-!
# Evaluation of expressions obeys logics

Calls, attributes, items, operators and expressions look up and declare names, and
evaluate functions and specialize classes through engines. If the evaluation of known
functions and the specialization of known classes to known arguments obey a logic, then so do
they. Each law
follows the definition it is about, and those of recursive definitions follow their recursion.
-/

namespace TypeInference

/-- A family of engines whose evaluations of known functions and specializations of known
classes to known arguments obey a judgement in the worlds near some world. -/
structure Judgement.Follows (judgement : Judgement) (engine : judgement.Index → Engine)
    (world : judgement.World) : Prop where
  evaluates : ∀ {second}, judgement.Near world second → ∀ {function},
    judgement.Known second (.function function) →
      judgement.Holds second fun index => (engine index).evaluateFunction function
  specializes : ∀ {second}, judgement.Near world second → ∀ {id arguments},
    judgement.Known second (.cls id) → Within (judgement.Known second) arguments →
      judgement.Holds second fun index => (engine index).specialize id arguments

section Judgements

variable {judgement : Judgement} {world : judgement.World} {engine : judgement.Index → Engine}

section Following

variable (follows : judgement.Follows engine world)

include follows

theorem Judgement.Follows.near {second : judgement.World} (near : judgement.Near world second) :
    judgement.Follows engine second where
  evaluates again := follows.evaluates (judgement.near_trans near again)
  specializes again := follows.specializes (judgement.near_trans near again)

theorem Judgement.Follows.later {second : judgement.World}
    (passed : judgement.Later world second) : judgement.Follows engine second :=
  follows.near (judgement.near_of_later passed)

theorem Judgement.Follows.evaluateFunction {function : FunctionId}
    (known : judgement.Known world (.function function)) :
    judgement.Holds world fun index => (engine index).evaluateFunction function :=
  follows.evaluates (judgement.near_of_later (judgement.later_refl world)) known

theorem Judgement.Follows.specialize {id : ClassId} (known : judgement.Known world (.cls id))
    {arguments : Arguments} (given : Within (judgement.Known world) arguments) :
    judgement.Holds world fun index => (engine index).specialize id arguments :=
  follows.specializes (judgement.near_of_later (judgement.later_refl world)) known given

end Following

namespace Engine

section Calls

variable (follows : judgement.Follows engine world)

include follows

theorem ensureConstructed_holds (id : ClassId) :
    judgement.Holds world fun index => (engine index).ensureConstructed id := by
  refine judgement.bind judgement.store ?_
  intro second passed store within
  refine Judgement.ite (fun _ => judgement.pure trivial) fun _ => ?_
  cases found : (store.ownMember? (store.templateOf id) "__init__").bind Value.asFunction? with
  | none => exact judgement.pure trivial
  | some constructor =>
    obtain ⟨value, member, isFunction⟩ := Option.bind_eq_some_iff.mp found
    have known := (within_ownMember? within _ _ value member).asFunction? constructor isFunction
    exact (follows.later passed).evaluateFunction known

theorem constructedMethod?_holds (id : ClassId) (name : String) :
    judgement.Holds world fun index => (engine index).constructedMethod? id name := by
  refine judgement.bind (ensureConstructed_holds follows id) ?_
  intro second passed _ _
  refine judgement.bind judgement.store ?_
  intro third again store within
  exact judgement.pure (within_method? within id name)

theorem substitutes {bindings : Bindings} (bound : Within (judgement.Known world) bindings) :
    judgement.Substitutes engine world bindings where
  within := bound
  substituteClass passed _ known :=
    substituteClass_holds (Judgement.within_later passed bound)
      (fun again _ _ isKnown given =>
        ((follows.later passed).later again).specialize isKnown given) known

theorem callFunction_holds {function : FunctionId}
    (known : judgement.Known world (.function function))
    {receiver : Option Value} (received : Within (judgement.Known world) receiver)
    {positional : List Value} (placed : Within (judgement.Known world) positional)
    {keywords : List (String × Value)} (named : Within (judgement.Known world) keywords)
    (span : Span) :
    judgement.Holds world fun index =>
      (engine index).callFunction function receiver positional keywords span := by
  refine judgement.bind (follows.evaluateFunction known) ?_
  intro second passed _ _
  refine judgement.reads ?_
  intro third again store within closed
  have further := judgement.later_trans passed again
  cases head : (store.functionAt function).overloads.head? with
  | none => exact judgement.pure within_unknown
  | some overload =>
    have signature := within_firstOverload within function overload head
    have bound := within_callBindings within signature (Judgement.within_later further received)
      (Judgement.within_later further placed) (Judgement.within_later further named) span
    have returned : Within (judgement.Known third) (store.returnValue overload) :=
      within_returnValue closed signature
    have erased : ∀ {fourth : judgement.World} {value : Value},
        Within (judgement.Known fourth) value → judgement.Holds fourth fun _ => (do
          return (← Analysis.store).eraseParameters value : Analysis Value) := by
      intro fourth value given
      refine judgement.reads ?_
      intro fifth onward store _ closed
      exact judgement.pure (within_eraseParameters closed (Judgement.within_later onward given))
    dsimp only
    refine Judgement.ite (fun _ => ?_) fun _ => ?_
    · refine judgement.bind (judgement.pure returned) ?_
      intro fourth onward value given
      exact erased given
    · refine judgement.bind
        (substitute_holds (substitutes (follows.later further) bound) returned) ?_
      intro fourth onward value given
      exact erased given

theorem callMethod_holds {method : Option FunctionId}
    (known : Within (judgement.Known world) method) {receiver : Value}
    (received : Within (judgement.Known world) receiver)
    {positional : List Value} (placed : Within (judgement.Known world) positional)
    {keywords : List (String × Value)} (named : Within (judgement.Known world) keywords)
    (span : Span) :
    judgement.Holds world fun index =>
      (engine index).callMethod method receiver positional keywords span := by
  cases method with
  | none => exact judgement.pure within_unknown
  | some function =>
    exact callFunction_holds follows (known function rfl) ((within_some _).mpr received) placed
      named span

theorem instantiate_holds {id : ClassId} (known : judgement.Known world (.cls id))
    {positional : List Value}
    (placed : Within (judgement.Known world) positional) {keywords : List (String × Value)}
    (named : Within (judgement.Known world) keywords) (span : Span) :
    judgement.Holds world fun index => (engine index).instantiate id positional keywords span := by
  refine judgement.bind judgement.store ?_
  intro second passed store within
  have follows := follows.later passed
  have known := judgement.known_later passed _ known
  have placed := Judgement.within_later passed placed
  have named := Judgement.within_later passed named
  refine Judgement.ite (fun _ => judgement.pure (within_builtinInstance within known placed))
    fun _ => ?_
  refine judgement.bind (ensureConstructed_holds follows id) ?_
  intro third again _ _
  have follows := follows.later again
  have placed := Judgement.within_later again placed
  have named := Judgement.within_later again named
  refine judgement.bind judgement.store ?_
  intro fourth onward store within
  have known := judgement.known_later (judgement.later_trans again onward) _ known
  have placed := Judgement.within_later onward placed
  have named := Judgement.within_later onward named
  refine Judgement.ite (fun _ => judgement.pure (within_newObject within known)) fun _ => ?_
  refine judgement.bind ((follows.later onward).specialize known ?_) ?_
  · split
    · next overload found =>
      obtain ⟨constructor, -, head⟩ := Option.bind_eq_some_iff.mp found
      have signature := within_firstOverload within constructor overload head
      exact within_forCall signature.1 ((within_some _).mpr within_unknown) placed named span
    · exact within_ofValues placed span
  · intro fifth lastly specialized isKnown
    refine judgement.bind judgement.store ?_
    intro sixth ending store within
    exact judgement.pure (within_newObject within (judgement.known_later ending _ isKnown))

end Calls

mutual

theorem callValue_holds {world : judgement.World} (follows : judgement.Follows engine world)
    {target : Option Value} (found : Within (judgement.Known world) target)
    {positional : List Value} (placed : Within (judgement.Known world) positional)
    {keywords : List (String × Value)} (named : Within (judgement.Known world) keywords)
    (span : Span) : ∀ {callee : Value}, Within (judgement.Known world) callee →
      judgement.Holds world fun index =>
        (engine index).callValue target positional keywords span callee
  | .unknown, _ => by
    simp only [callValue]
    exact judgement.pure within_unknown
  | .union alternatives, given => by
    simp only [callValue]
    refine judgement.bind (callAll_holds follows found placed named span
      ((within_union _).mp given).2) ?_
    intro second passed values within
    refine judgement.reads ?_
    intro third again store _ closed
    exact judgement.pure (closed _ (Judgement.within_later again within))
  | .type (.cls id), given => by
    simp only [callValue]
    exact instantiate_holds follows given placed named span
  | .type (.function function), given => by
    simp only [callValue]
    refine judgement.bind judgement.store ?_
    intro second passed store within
    refine Judgement.ite (fun _ => judgement.pure (within_declaredParameter _ _)) fun _ => ?_
    have receiver : Within (judgement.Known second) (target.bind (receiverFor store function)) := by
      intro value received
      obtain ⟨object, isTarget, isReceiver⟩ := Option.bind_eq_some_iff.mp received
      exact within_receiverFor function (Judgement.within_later passed (found object isTarget))
        value isReceiver
    exact callFunction_holds (follows.later passed) (judgement.known_later passed _ given) receiver
      (Judgement.within_later passed placed) (Judgement.within_later passed named) span
  | .type .unknown, _ | .type (.parameter _), _ | .type (.marker _), _ => by
    simp only [callValue]
    exact judgement.pure within_unknown
  | .object (.cls id) content, given => by
    simp only [callValue]
    refine judgement.bind (constructedMethod?_holds follows id _) ?_
    intro second passed method known
    exact callMethod_holds (follows.later passed) known (Judgement.within_later passed given)
      (Judgement.within_later passed placed) (Judgement.within_later passed named) span
  | .object .unknown _, _ | .object (.parameter _) _, _ | .object (.function _) _, _
  | .object (.marker _) _, _ => by
    simp only [callValue]
    exact judgement.pure within_unknown

theorem callAll_holds {world : judgement.World} (follows : judgement.Follows engine world)
    {target : Option Value} (found : Within (judgement.Known world) target)
    {positional : List Value} (placed : Within (judgement.Known world) positional)
    {keywords : List (String × Value)} (named : Within (judgement.Known world) keywords)
    (span : Span) : ∀ {callees : List Value}, Within (judgement.Known world) callees →
      judgement.Holds world fun index =>
        (engine index).callAll target positional keywords span callees
  | [], _ => by
    simp only [callAll]
    exact judgement.pure within_nil
  | callee :: rest, given => by
    rw [within_cons] at given
    simp only [callAll]
    refine judgement.bind (callValue_holds follows found placed named span given.1) ?_
    intro second passed first within
    refine judgement.bind (callAll_holds (follows.later passed)
      (Judgement.within_later passed found) (Judgement.within_later passed placed)
      (Judgement.within_later passed named) span (Judgement.within_later passed given.2)) ?_
    intro third again others listed
    exact judgement.pure ((within_cons _ _).mpr ⟨Judgement.within_later again within, listed⟩)

end

mutual

theorem attributeOf_holds {world : judgement.World} (follows : judgement.Follows engine world)
    (name : String) : ∀ {value : Value}, Within (judgement.Known world) value →
      judgement.Holds world fun index => (engine index).attributeOf name value
  | .unknown, _ => by
    simp only [attributeOf]
    exact judgement.pure within_unknown
  | .union alternatives, given => by
    simp only [attributeOf]
    refine judgement.bind (attributeOfAll_holds follows name ((within_union _).mp given).2) ?_
    intro second passed values within
    refine judgement.reads ?_
    intro third again store _ closed
    exact judgement.pure (closed _ (Judgement.within_later again within))
  | .type (.cls id), _ => by
    simp only [attributeOf]
    refine judgement.bind (ensureConstructed_holds follows id) ?_
    intro second passed _ _
    refine judgement.bind judgement.store ?_
    intro third again store within
    exact judgement.pure ((within_member? within id name).getD within_unknown)
  | .object (.cls id) content, given => by
    simp only [attributeOf]
    refine Judgement.ite (fun _ => judgement.pure given.objectType) fun _ => ?_
    refine judgement.bind (ensureConstructed_holds follows id) ?_
    intro second passed _ _
    refine judgement.bind judgement.store ?_
    intro third again store within
    have further := judgement.later_trans passed again
    have member := (within_member? within id name).getD within_unknown
    cases isFunction : ((store.member? id name).getD .unknown).asFunction? with
    | none => exact judgement.pure member
    | some function =>
      have known := member.asFunction? function isFunction
      dsimp only
      refine Judgement.ite (fun _ => ?_) fun _ => judgement.pure member
      exact callFunction_holds (follows.later further) known
        ((within_some _).mpr (Judgement.within_later further given)) within_nil within_nil _
  | .type .unknown, _ | .type (.parameter _), _ | .type (.function _), _
  | .type (.marker _), _ => by
    simp only [attributeOf]
    exact judgement.pure within_unknown
  | .object .unknown _, _ | .object (.parameter _) _, _ | .object (.function _) _, _
  | .object (.marker _) _, _ => by
    simp only [attributeOf]
    exact judgement.pure within_unknown

theorem attributeOfAll_holds {world : judgement.World} (follows : judgement.Follows engine world)
    (name : String) : ∀ {values : List Value}, Within (judgement.Known world) values →
      judgement.Holds world fun index => (engine index).attributeOfAll name values
  | [], _ => by
    simp only [attributeOfAll]
    exact judgement.pure within_nil
  | value :: rest, given => by
    rw [within_cons] at given
    simp only [attributeOfAll]
    refine judgement.bind (attributeOf_holds follows name given.1) ?_
    intro second passed first within
    refine judgement.bind (attributeOfAll_holds (follows.later passed) name
      (Judgement.within_later passed given.2)) ?_
    intro third again others listed
    exact judgement.pure ((within_cons _ _).mpr ⟨Judgement.within_later again within, listed⟩)

end

section Items

variable (follows : judgement.Follows engine world)

include follows

theorem itemByMethod_holds {container position : Value}
    (contained : Within (judgement.Known world) container)
    (given : Within (judgement.Known world) position) (span : Span) :
    judgement.Holds world fun index => (engine index).itemByMethod container position span := by
  refine judgement.bind judgement.store ?_
  intro second passed store _
  cases (store.typeOf container).asClass? with
  | none => exact judgement.pure within_unknown
  | some id =>
    cases container.isObject with
    | false => exact judgement.pure within_unknown
    | true =>
      refine judgement.bind (constructedMethod?_holds (follows.later passed) id _) ?_
      intro third again method known
      have further := judgement.later_trans passed again
      exact callMethod_holds (follows.later further) known
        (Judgement.within_later further contained)
        ((within_cons _ _).mpr ⟨Judgement.within_later further given, within_nil⟩) within_nil span

/-- A binary operation by the method of the left operand. -/
def binaryByMethod (engine : Engine) (store : Store) (operator : BinaryOperator)
    (left right : Value) (span : Span) : Analysis Value :=
  match operator.method?, (store.typeOf left).asClass? with
  | some name, some id =>
    if left.isObject then do
      let method ← engine.constructedMethod? id name
      engine.callMethod method left [right] [] span
    else return .unknown
  | _, _ => return .unknown

theorem binaryByMethod_holds (store : Store) (operator : BinaryOperator) {left right : Value}
    (first : Within (judgement.Known world) left) (second : Within (judgement.Known world) right)
    (span : Span) : judgement.Holds world fun index =>
      (engine index).binaryByMethod store operator left right span := by
  unfold binaryByMethod
  cases operator.method? with
  | none => exact judgement.pure within_unknown
  | some name =>
    cases (store.typeOf left).asClass? with
    | none => exact judgement.pure within_unknown
    | some id =>
      refine Judgement.ite (fun _ => ?_) fun _ => judgement.pure within_unknown
      refine judgement.bind (constructedMethod?_holds follows id _) ?_
      intro later passed method known
      exact callMethod_holds (follows.later passed) known
        (Judgement.within_later passed first)
        ((within_cons _ _).mpr ⟨Judgement.within_later passed second, within_nil⟩) within_nil span

theorem applyBinary_holds (operator : BinaryOperator) {left right : Value}
    (first : Within (judgement.Known world) left) (second : Within (judgement.Known world) right)
    (span : Span) :
    judgement.Holds world fun index => (engine index).applyBinary operator left right span := by
  refine judgement.reads ?_
  intro later passed store within closed
  have first := Judgement.within_later passed first
  have second := Judgement.within_later passed second
  refine Judgement.ite (fun _ => judgement.pure ?_) fun _ => ?_
  · exact closed _ ((within_cons _ _).mpr ⟨first, (within_cons _ _).mpr
      ⟨second, within_nil⟩⟩)
  refine Judgement.ite (fun _ => judgement.pure (within_builtinObject within _)) fun _ => ?_
  refine Judgement.ite (fun _ => judgement.pure within_unknown) fun _ => ?_
  dsimp only
  -- Where one operand has no builtin nature, the method of the left one is asked.
  have byMethod := binaryByMethod_holds (follows.later passed) store operator first second span
  cases store.builtin? (store.typeOf left) with
  | none => exact byMethod
  | some one =>
    cases store.builtin? (store.typeOf right) with
    | none => exact byMethod
    | some other =>
      dsimp only
      cases OperationResult.of one operator other with
      | objectOf builtin => exact judgement.pure (within_builtinObject within builtin)
      | left => exact judgement.pure first
      | right => exact judgement.pure second
      | unsupported | unknown => exact judgement.pure within_unknown

theorem applyUnary_holds (operator : UnaryOperator) {operand : Value}
    (given : Within (judgement.Known world) operand) (span : Span) :
    judgement.Holds world fun index => (engine index).applyUnary operator operand span := by
  refine judgement.bind judgement.store ?_
  intro second passed store within
  refine Judgement.ite (fun _ => judgement.pure (within_builtinObject within _)) fun _ => ?_
  refine Judgement.ite (fun _ => judgement.pure within_unknown) fun _ => ?_
  cases operand.asConstant?.bind (foldUnary operator) with
  | some folded => exact judgement.pure (within_constantObject folded)
  | none =>
    have method : Within (judgement.Known second)
        (applyUnary.unaryMethod? store (store.typeOf operand) operator) := by
      unfold applyUnary.unaryMethod?
      split
      · exact within_method? within _ _
      · exact within_none
    have byMethod := callMethod_holds (follows.later passed) method
      (Judgement.within_later passed given) within_nil within_nil span
    dsimp only
    cases store.builtin? (store.typeOf operand) with
    | none => exact byMethod
    | some builtin =>
      cases builtin with
      | bool => exact judgement.pure (within_builtinObject within _)
      | _ =>
        refine Judgement.ite (fun _ => ?_) fun _ => byMethod
        refine Judgement.ite (fun _ => judgement.pure within_unknown) fun _ => ?_
        exact judgement.pure (within_builtinObject within _)

end Items

end Engine

end Judgements

variable {logic : Logic} {world : logic.World} {engine : logic.Index → Engine}

section Targets

theorem Analysis.bindName_holds (target : Expression) {value : Value}
    (given : Within (logic.Known world) value) (span : Span) :
    logic.Holds world fun _ => Analysis.bindName target value span := by
  unfold bindName
  split
  · exact logic.declare _ _ _ _ given
  · exact logic.pure trivial

theorem Analysis.unpack_holds (span : Span) (targets : List Expression)
    (elements : Option Elements) : ∀ {world : logic.World}, Within (logic.Known world) elements →
      logic.Holds world fun _ => Analysis.unpack span targets elements := by
  induction targets, elements using Analysis.unpack.induct with
  | case1 elements =>
    intro world given
    simp only [unpack]
    exact logic.pure trivial
  | case2 items _ rest elements element others found inner after =>
    intro world given
    have next := given.nextOf
    rw [found] at next
    simp only [unpack, found]
    refine logic.bind (inner next.1.iterate) ?_
    intro second passed _ _
    exact after (Judgement.within_later passed next.2)
  | case3 items _ rest elements element others found inner after =>
    intro world given
    have next := given.nextOf
    rw [found] at next
    simp only [unpack, found]
    refine logic.bind (inner next.1.iterate) ?_
    intro second passed _ _
    exact after (Judgement.within_later passed next.2)
  | case4 target rest elements notList notTuple element others found after =>
    intro world given
    have next := given.nextOf
    rw [found] at next
    rw [unpack]
    · simp only [found]
      refine logic.bind (bindName_holds target next.1 span) ?_
      intro second passed _ _
      exact after (Judgement.within_later passed next.2)
    · exact notList
    · exact notTuple

theorem Analysis.bindNames_holds (span : Span) (targets : List Expression) :
    ∀ {world : logic.World} {values : List Value}, Within (logic.Known world) values →
      logic.Holds world fun _ => Analysis.bindNames span targets values := by
  induction targets with
  | nil => exact fun _ => logic.pure trivial
  | cons target rest inductionHypothesis =>
    intro world values given
    refine logic.bind (bindName_holds target (given.head?.getD within_unknown) span) ?_
    intro second passed _ _
    exact inductionHypothesis (Judgement.within_later passed given.tail)

theorem Analysis.bindIterationTarget_holds (target : Expression) {iterable : Value}
    (given : Within (logic.Known world) iterable) (span : Span) :
    logic.Holds world fun _ => Analysis.bindIterationTarget target iterable span := by
  have element := given.firstElement?.getD within_unknown
  unfold bindIterationTarget
  dsimp only
  split
  · split
    · next mapping found =>
      have entries := given.mapping found
      refine bindNames_holds _ _ ((within_cons _ _).mpr ⟨?_, (within_cons _ _).mpr ⟨?_,
        within_nil⟩⟩)
      · exact entries.keys.head?.getD within_unknown
      · exact entries.values.head?.getD within_unknown
    · exact unpack_holds _ _ _ element.iterate
  · exact bindName_holds _ element _

end Targets

namespace Engine

theorem itemAt_holds (follows : logic.Follows engine world) {container position : Value}
    (contained : Within (logic.Known world) container)
    (given : Within (logic.Known world) position) (positionSpan span : Span) :
    logic.Holds world fun index =>
      (engine index).itemAt container position positionSpan span := by
  refine logic.bind logic.store ?_
  intro second passed store _
  have contained := Judgement.within_later passed contained
  have given := Judgement.within_later passed given
  dsimp only
  cases found : if ((store.builtin? (store.typeOf container)).map Builtin.isSequence).getD false
      then container.asSequence? else none with
  | some content =>
    have items : Within (logic.Known second) content.items := by
      split at found
      · exact contained.sequence found
      · cases found
    refine Judgement.ite (fun _ => logic.pure (within_selectItem items position)) fun _ => ?_
    refine logic.bind (logic.report _ _) ?_
    intro third again _ _
    exact logic.pure
      ((Refers.Within.head? (Judgement.within_later again items)).getD within_unknown)
  | none =>
    cases found : container.asMapping? with
    | some content => exact logic.pure (within_selectValue (contained.mapping found) position)
    | none => exact itemByMethod_holds (follows.later passed) contained given span

/-- The type that a type hint stands for, by its value. -/
def readType : Value → Analysis Ty
  | .type ty => return ty
  | .object _ (.constant .none) => return Store.builtinType .noneType
  | _ => return .unknown

/-- The type that a type hint in text stands for, by what is found under that name. -/
def readNamed : Option Value → Analysis Ty
  | some (.type ty) => return ty
  | _ => return .unknown

theorem readTypeHint_holds (hint : Expression) {evaluated : logic.Index → Analysis Value}
    (holds : logic.Holds world evaluated) :
    logic.Holds world fun index => readTypeHint hint (evaluated index) := by
  have read : logic.Holds world fun index => evaluated index >>= readType := by
    refine logic.bind holds ?_
    intro second passed value given
    unfold readType
    split
    · exact logic.pure (Ty.Stands.mentions given)
    · exact logic.pure (within_builtinType _)
    · exact logic.pure within_unknownType
  have named (text : String) : logic.Holds world fun _ =>
      Analysis.lookupName? (Blank.trim text) .everything >>= readNamed := by
    refine logic.bind (logic.lookupName? _ _) ?_
    intro second passed found given
    unfold readNamed
    split
    · exact logic.pure (Ty.Stands.mentions (given _ rfl))
    · exact logic.pure within_unknownType
  cases hint with
  | constant value span =>
    cases value with
    | str text => exact named text
    | none => exact logic.pure (within_builtinType _)
    | _ => exact logic.pure within_unknownType
  | _ => exact read

/-- What is called, and what a called method was found on. -/
def calledValue (engine : Engine) (reach : Reach) : Expression → Analysis (Value × Option Value)
  | .attribute object name _ => do
    let target ← engine.evaluate reach object
    let function ← engine.attributeOf name.name target
    return (function, some target)
  | other => do
    let function ← engine.evaluate reach other
    return (function, none)

theorem evaluate_call (engine : Engine) (reach : Reach) (callee : Expression)
    (arguments : List CallArgument) (span : Span) :
    engine.evaluate reach (.call callee arguments span) = (do
      let called ← engine.calledValue reach callee
      let values ← engine.evaluateArguments reach arguments
      engine.callValue called.2 values.positional values.keywords span called.1) := by
  unfold evaluate calledValue
  split <;> simp only [bind_assoc, pure_bind]

/-- The values of an index that lists type parameters. -/
def indexValues (engine : Engine) (reach : Reach) : Expression → Analysis (List Value)
  | .display .tuple items _ => engine.evaluateItems reach items.length items
  | single => do
    let value ← engine.evaluate reach single
    return [value]

/-- The types of an index that specializes a class. -/
def indexTypes (engine : Engine) : Expression → Analysis (List Ty)
  | .display .tuple items _ => engine.evaluateTypeHints items
  | single => do
    let ty ← readTypeHint single (engine.evaluate .everything single)
    return [ty]

theorem evaluate_index (engine : Engine) (reach : Reach) (target index : Expression)
    (span : Span) :
    engine.evaluate reach (.index target index span) = (do
      let container ← engine.evaluate reach target
      if container.isUnknown then return .unknown
      match typeIndex (← Analysis.store) container with
      | .parameters =>
        let values ← engine.indexValues reach index
        return .type (.marker (parametersAmong values))
      | .arguments generic =>
        let types ← engine.indexTypes index
        return .type (.cls (← engine.specialize generic (.ofTypes types span)))
      | .other =>
        if selectsMany index then return container
        let position ← engine.evaluate reach index
        engine.itemAt container position index.span span) := by
  rw [evaluate]
  refine bind_congr fun container => ?_
  refine ite_congr rfl (fun _ => rfl) fun _ => bind_congr fun store => ?_
  cases typeIndex store container with
  | parameters =>
    cases index with
    | display kind items place =>
      cases kind <;> simp only [indexValues, bind_assoc, pure_bind]
    | _ => simp only [indexValues, bind_assoc, pure_bind]
  | arguments generic =>
    cases index with
    | display kind items place => cases kind <;> simp only [indexTypes, bind_assoc, pure_bind]
    | _ => simp only [indexTypes, bind_assoc, pure_bind]
  | other => rfl

/-- The targets of an iteration are declared when its iterable is known. -/
def iterates (engine : Engine) (reach : Reach) (known : Option Value) (iterable : Expression) :
    Analysis Value :=
  match known with
  | some value => return value
  | none => engine.evaluate reach iterable

theorem evaluateClauses_iteration (engine : Engine) (reach : Reach) (known : Option Value)
    (target iterable : Expression) (span : Span) (rest : List Clause) :
    engine.evaluateClauses reach known (.iteration target iterable span :: rest) = (do
      let value ← engine.iterates reach known iterable
      Analysis.bindIterationTarget target value span
      engine.evaluateClauses reach none rest) := by
  cases known <;> rw [evaluateClauses] <;> rfl

/-- A call, after what is called and its arguments were evaluated. -/
theorem evaluateCall_holds {world : logic.World} (follows : logic.Follows engine world)
    {reach : Reach} {callee : Expression} {arguments : List CallArgument} (span : Span)
    (called : logic.Holds world fun index => (engine index).calledValue reach callee)
    (evaluated : ∀ {second}, logic.Later world second →
      logic.Holds second fun index => (engine index).evaluateArguments reach arguments) :
    logic.Holds world fun index => (engine index).evaluate reach (.call callee arguments span) := by
  simp only [evaluate_call]
  refine logic.bind called ?_
  intro second passed found given
  refine logic.bind (evaluated passed) ?_
  intro third again values among
  have given := Judgement.within_later again given
  exact callValue_holds (follows.later (logic.later_trans passed again)) given.2 among.1
    among.2 span given.1

/-- An index, after its container was evaluated. What the container is decides how the index
is read. -/
theorem evaluateIndex_holds {world : logic.World} (follows : logic.Follows engine world)
    {reach : Reach} {target index : Expression} (span : Span)
    (container : logic.Holds world fun place => (engine place).evaluate reach target)
    (values : ∀ {second}, logic.Later world second →
      logic.Holds second fun place => (engine place).indexValues reach index)
    (types : ∀ {second}, logic.Later world second →
      logic.Holds second fun place => (engine place).indexTypes index)
    (position : ∀ {second}, logic.Later world second →
      logic.Holds second fun place => (engine place).evaluate reach index) :
    logic.Holds world fun place => (engine place).evaluate reach (.index target index span) := by
  simp only [evaluate_index]
  refine logic.bind container ?_
  intro second passed container contained
  refine Judgement.ite (fun _ => logic.pure within_unknown) fun _ => ?_
  refine logic.bind logic.store ?_
  intro third again store _
  have further := logic.later_trans passed again
  cases indexed : typeIndex store container with
  | parameters =>
    refine logic.bind (values further) ?_
    intro fourth onward listed _
    exact logic.pure trivial
  | arguments generic =>
    refine logic.bind (types further) ?_
    intro fourth onward hinted given
    have known := logic.known_later (logic.later_trans again onward) _
      (within_typeIndex contained indexed)
    refine logic.bind ((follows.later (logic.later_trans further onward)).specialize known
      (within_ofTypes given span)) ?_
    intro fifth lastly specialized isKnown
    exact logic.pure isKnown
  | other =>
    refine Judgement.ite (fun _ => logic.pure (Judgement.within_later again contained))
      fun _ => ?_
    refine logic.bind (position further) ?_
    intro fourth onward place given
    have passed := logic.later_trans again onward
    exact itemAt_holds (follows.later (logic.later_trans further onward))
      (Judgement.within_later passed contained) given _ _

mutual

theorem evaluate_holds {world : logic.World} (follows : logic.Follows engine world)
    (reach : Reach) : ∀ {expression : Expression},
      Opens (logic.MayOpen world) (Outline.ofExpression expression) →
        logic.Holds world fun index => (engine index).evaluate reach expression
  | .constant value _, _ => by
    simp only [evaluate]
    exact logic.pure (within_constantObject value)
  | .name identifier, _ => by
    simp only [evaluate]
    refine logic.bind (logic.lookupName? _ _) ?_
    intro second passed found given
    exact logic.pure (given.getD within_unknown)
  | .attribute target name _, opens => by
    simp only [Outline.ofExpression, opens_cons] at opens
    simp only [evaluate]
    refine logic.bind (evaluate_holds follows reach opens.2) ?_
    intro second passed value given
    exact attributeOf_holds (follows.later passed) _ given
  | .index target index span, opens => by
    simp only [Outline.ofExpression, opens_cons, opens_append] at opens
    have position : ∀ {second}, logic.Later world second →
        logic.Holds second fun place => (engine place).evaluate reach index := fun passed =>
      evaluate_holds (follows.later passed) reach (Logic.opens_later passed opens.2.2)
    have values : ∀ {second}, logic.Later world second →
        logic.Holds second fun place => (engine place).indexValues reach index := by
      intro second passed
      have opens := Logic.opens_later passed opens.2.2
      have single : logic.Holds second fun place => (do
          let value ← (engine place).evaluate reach index
          return [value]) := by
        refine logic.bind (position passed) ?_
        intro third again value given
        exact logic.pure ((within_cons _ _).mpr ⟨given, within_nil⟩)
      -- The recursion has to see that the items are smaller.
      match index with
      | .display .tuple items _ =>
        simp only [Outline.ofExpression, opens_cons] at opens
        exact evaluateItems_holds (follows.later passed) reach items.length opens.2
      | .display .list _ _ | .display .set _ _ | .constant _ _ | .name _ | .attribute _ _ _
      | .index _ _ _ | .slice _ _ _ _ | .call _ _ _ | .dict _ _ | .comprehension _ | .yield _ _
      | .unary _ _ _ | .binary _ _ _ _ => exact single
    have types : ∀ {second}, logic.Later world second →
        logic.Holds second fun place => (engine place).indexTypes index := by
      intro second passed
      have opens := Logic.opens_later passed opens.2.2
      have hinted := evaluate_holds (follows.later passed) .everything opens
      have single : logic.Holds second fun place => (do
          let ty ← readTypeHint index ((engine place).evaluate .everything index)
          return [ty]) := by
        refine logic.bind (readTypeHint_holds index hinted) ?_
        intro third again ty given
        exact logic.pure ((within_cons _ _).mpr ⟨given, within_nil⟩)
      match index with
      | .display .tuple items _ =>
        simp only [Outline.ofExpression, opens_cons] at opens
        exact evaluateTypeHints_holds (follows.later passed) opens.2
      | .display .list _ _ | .display .set _ _ | .constant _ _ | .name _ | .attribute _ _ _
      | .index _ _ _ | .slice _ _ _ _ | .call _ _ _ | .dict _ _ | .comprehension _ | .yield _ _
      | .unary _ _ _ | .binary _ _ _ _ => exact single
    exact evaluateIndex_holds follows span (evaluate_holds follows reach opens.2.1) values types
      position
  | .slice _ _ _ _, _ => by
    simp only [evaluate]
    exact logic.pure within_unknown
  | .call callee arguments span, opens => by
    simp only [Outline.ofExpression, opens_cons, opens_append] at opens
    have function := evaluate_holds follows reach opens.2.1
    have plain : logic.Holds world fun index => (do
        let function ← (engine index).evaluate reach callee
        return (function, none) : Analysis (Value × Option Value)) := by
      refine logic.bind function ?_
      intro second passed value given
      exact logic.pure ⟨given, within_none⟩
    have called : logic.Holds world fun index => (engine index).calledValue reach callee := by
      have opens := opens.2.1
      match callee with
      | .attribute object name _ =>
        simp only [Outline.ofExpression, opens_cons] at opens
        refine logic.bind (evaluate_holds follows reach opens.2) ?_
        intro second passed target found
        refine logic.bind (attributeOf_holds (follows.later passed) _ found) ?_
        intro third again value given
        exact logic.pure ⟨given, (within_some _).mpr (Judgement.within_later again found)⟩
      | .display _ _ _ | .constant _ _ | .name _ | .index _ _ _ | .slice _ _ _ _ | .call _ _ _
      | .dict _ _ | .comprehension _ | .yield _ _ | .unary _ _ _ | .binary _ _ _ _ => exact plain
    exact evaluateCall_holds follows span called fun passed =>
      evaluateArguments_holds (follows.later passed) reach (Logic.opens_later passed opens.2.2)
  | .display kind items _, opens => by
    simp only [Outline.ofExpression, opens_cons] at opens
    simp only [evaluate]
    refine logic.options (fun _ _ _ => rfl) fun options => ?_
    refine logic.bind (evaluateItems_holds follows reach _ opens.2) ?_
    intro second passed contents given
    exact logic.pure ((within_sequence _ _ _).mpr ⟨within_builtinType _, given⟩)
  | .dict entries _, opens => by
    simp only [Outline.ofExpression, opens_cons] at opens
    simp only [evaluate]
    refine logic.options (fun _ _ _ => rfl) fun options => ?_
    refine logic.bind (evaluateEntries_holds follows reach _ opens.2) ?_
    intro second passed contents given
    refine logic.pure ((within_mapping _ _ _).mpr ⟨within_builtinType _, ?_⟩)
    exact Refers.Within.foldl within_nil fun _ entry listed before =>
      within_addEntry before (given entry listed)
  | .comprehension comprehension, opens => by
    simp only [Outline.ofExpression] at opens
    simp only [evaluate]
    exact evaluateComprehension_holds follows reach opens
  | .yield _ _, _ => by
    simp only [evaluate]
    exact logic.pure within_unknown
  | .unary operator operand span, opens => by
    simp only [Outline.ofExpression, opens_cons] at opens
    simp only [evaluate]
    refine logic.bind (evaluate_holds follows reach opens.2) ?_
    intro second passed value given
    exact applyUnary_holds (follows.later passed) operator given span
  | .binary left operator right span, opens => by
    simp only [Outline.ofExpression, opens_cons, opens_append] at opens
    simp only [evaluate]
    refine logic.bind (evaluate_holds follows reach opens.2.1) ?_
    intro second passed leftValue first
    refine logic.bind (evaluate_holds (follows.later passed) reach
      (Logic.opens_later passed opens.2.2)) ?_
    intro third again rightValue given
    exact applyBinary_holds (follows.later (logic.later_trans passed again)) operator
      (Judgement.within_later again first) given span

theorem evaluateComprehension_holds {world : logic.World} (follows : logic.Follows engine world)
    (reach : Reach) : ∀ {comprehension : Comprehension},
      Opens (logic.MayOpen world) (Outline.ofComprehension comprehension) →
        logic.Holds world fun index => (engine index).evaluateComprehension reach comprehension
  | ⟨id, kind, element, value, clauses, _⟩, opens => by
    simp only [Outline.ofComprehension, opens_cons, opens_append] at opens
    obtain ⟨node, ⟨inElement, inValue⟩, inClauses⟩ := opens
    simp only [evaluateComprehension]
    refine logic.bind (evaluateFirstIterable_holds follows reach inClauses) ?_
    intro second passed iterable given
    refine Judgement.ite (fun _ => logic.pure given) fun _ => ?_
    refine logic.inScope (logic.mayOpen_later passed _ (node id rfl)) (by decide) fun scope => ?_
    refine logic.bind (evaluateClauses_holds (follows.later passed) reach
      ((within_some _).mpr given) (Logic.opens_later passed inClauses)) ?_
    intro third again _ _
    have further := logic.later_trans passed again
    refine logic.bind (evaluate_holds (follows.later further) reach
      (Logic.opens_later further inElement)) ?_
    intro fourth onward elementValue sampledElement
    have further := logic.later_trans further onward
    -- The value of an entry is evaluated only if there are entries.
    refine Judgement.ite (fun _ => ?_) fun _ => ?_
    · refine logic.bind (evaluateOptional_holds (follows.later further) reach
        (Logic.opens_later further inValue)) ?_
      intro fifth lastly entryValue sampledValue
      exact logic.pure (within_sampled kind (Judgement.within_later lastly sampledElement)
        sampledValue)
    · refine logic.bind (logic.pure within_unknown) ?_
      intro fifth lastly entryValue sampledValue
      exact logic.pure (within_sampled kind (Judgement.within_later lastly sampledElement)
        sampledValue)

theorem evaluateFirstIterable_holds {world : logic.World} (follows : logic.Follows engine world)
    (reach : Reach) : ∀ {clauses : List Clause},
      Opens (logic.MayOpen world) (Outline.ofClauses clauses) →
        logic.Holds world fun index => (engine index).evaluateFirstIterable reach clauses
  | [], _ => by
    simp only [evaluateFirstIterable]
    exact logic.pure within_unknown
  | .iteration _ iterable _ :: _, opens => by
    simp only [Outline.ofClauses, opens_append] at opens
    simp only [evaluateFirstIterable]
    exact evaluate_holds follows reach opens.1.2
  | .condition _ _ :: rest, opens => by
    simp only [Outline.ofClauses, opens_append] at opens
    simp only [evaluateFirstIterable]
    exact evaluateFirstIterable_holds follows reach opens.2

theorem evaluateClauses_holds {world : logic.World} (follows : logic.Follows engine world)
    (reach : Reach) {known : Option Value} (given : Within (logic.Known world) known) :
    ∀ {clauses : List Clause}, Opens (logic.MayOpen world) (Outline.ofClauses clauses) →
      logic.Holds world fun index => (engine index).evaluateClauses reach known clauses
  | [], _ => by
    simp only [evaluateClauses]
    exact logic.pure trivial
  | .iteration target iterable span :: rest, opens => by
    simp only [Outline.ofClauses, opens_append] at opens
    have evaluated := evaluate_holds follows reach opens.1.2
    have iterated : logic.Holds world fun index =>
        (engine index).iterates reach known iterable := by
      cases known with
      | some value => exact logic.pure (given value rfl)
      | none => exact evaluated
    simp only [evaluateClauses_iteration]
    refine logic.bind iterated ?_
    intro second passed value given
    refine logic.bind (Analysis.bindIterationTarget_holds target given span) ?_
    intro third again _ _
    have further := logic.later_trans passed again
    exact evaluateClauses_holds (follows.later further) reach within_none
      (Logic.opens_later further opens.2)
  | .condition test _ :: rest, opens => by
    simp only [Outline.ofClauses, opens_append] at opens
    simp only [evaluateClauses]
    refine logic.bind (evaluate_holds follows reach opens.1) ?_
    intro second passed _ _
    exact evaluateClauses_holds (follows.later passed) reach
      (Judgement.within_later passed given) (Logic.opens_later passed opens.2)

theorem evaluateOptional_holds {world : logic.World} (follows : logic.Follows engine world)
    (reach : Reach) : ∀ {expression : Option Expression},
      Opens (logic.MayOpen world) (Outline.ofOptional expression) →
        logic.Holds world fun index => (engine index).evaluateOptional reach expression
  | none, _ => by
    simp only [evaluateOptional]
    exact logic.pure within_unknown
  | some expression, opens => by
    simp only [Outline.ofOptional] at opens
    simp only [evaluateOptional]
    exact evaluate_holds follows reach opens

theorem evaluateItems_holds {world : logic.World} (follows : logic.Follows engine world)
    (reach : Reach) (limit : Nat) : ∀ {items : List Expression},
      Opens (logic.MayOpen world) (Outline.ofExpressions items) →
        logic.Holds world fun index => (engine index).evaluateItems reach limit items
  | [], _ => by
    simp only [evaluateItems]
    exact logic.pure within_nil
  | item :: rest, opens => by
    simp only [Outline.ofExpressions, opens_append] at opens
    cases limit with
    | zero =>
      simp only [evaluateItems]
      exact logic.pure within_nil
    | succ limit =>
      simp only [evaluateItems]
      refine logic.bind (evaluate_holds follows reach opens.1) ?_
      intro second passed first given
      refine logic.bind (evaluateItems_holds (follows.later passed) reach limit
        (Logic.opens_later passed opens.2)) ?_
      intro third again others listed
      exact logic.pure ((within_cons _ _).mpr ⟨Judgement.within_later again given, listed⟩)

theorem evaluateTypeHints_holds {world : logic.World} (follows : logic.Follows engine world) :
    ∀ {hints : List Expression}, Opens (logic.MayOpen world) (Outline.ofExpressions hints) →
      logic.Holds world fun index => (engine index).evaluateTypeHints hints
  | [], _ => by
    simp only [evaluateTypeHints]
    exact logic.pure within_nil
  | hint :: rest, opens => by
    simp only [Outline.ofExpressions, opens_append] at opens
    simp only [evaluateTypeHints]
    refine logic.bind
      (readTypeHint_holds hint (evaluate_holds follows .everything opens.1)) ?_
    intro second passed first given
    refine logic.bind (evaluateTypeHints_holds (follows.later passed)
      (Logic.opens_later passed opens.2)) ?_
    intro third again others listed
    exact logic.pure ((within_cons _ _).mpr ⟨Judgement.within_later again given, listed⟩)

theorem evaluateEntries_holds {world : logic.World} (follows : logic.Follows engine world)
    (reach : Reach) (limit : Nat) : ∀ {entries : List (Expression × Expression)},
      Opens (logic.MayOpen world) (Outline.ofEntries entries) →
        logic.Holds world fun index => (engine index).evaluateEntries reach limit entries
  | [], _ => by
    simp only [evaluateEntries]
    exact logic.pure within_nil
  | (key, value) :: rest, opens => by
    simp only [Outline.ofEntries, opens_append] at opens
    cases limit with
    | zero =>
      simp only [evaluateEntries]
      exact logic.pure within_nil
    | succ limit =>
      simp only [evaluateEntries]
      refine logic.bind (evaluate_holds follows reach opens.1.1) ?_
      intro second passed keyValue first
      refine logic.bind (evaluate_holds (follows.later passed) reach
        (Logic.opens_later passed opens.1.2)) ?_
      intro third again entryValue given
      have further := logic.later_trans passed again
      refine logic.bind (evaluateEntries_holds (follows.later further) reach limit
        (Logic.opens_later further opens.2)) ?_
      intro fourth onward others listed
      refine logic.pure ((within_cons _ _).mpr ⟨⟨?_, ?_⟩, listed⟩)
      · exact Judgement.within_later (logic.later_trans again onward) first
      · exact Judgement.within_later onward given

theorem evaluateArguments_holds {world : logic.World} (follows : logic.Follows engine world)
    (reach : Reach) : ∀ {arguments : List CallArgument},
      Opens (logic.MayOpen world) (Outline.ofArguments arguments) →
        logic.Holds world fun index => (engine index).evaluateArguments reach arguments
  | [], _ => by
    simp only [evaluateArguments]
    exact logic.pure ⟨within_nil, within_nil⟩
  | ⟨passing, argument⟩ :: rest, opens => by
    simp only [Outline.ofArguments, opens_append] at opens
    simp only [evaluateArguments]
    refine logic.bind (evaluate_holds follows reach opens.1) ?_
    intro second passed value given
    refine logic.bind (evaluateArguments_holds (follows.later passed) reach
      (Logic.opens_later passed opens.2)) ?_
    intro third again others evaluated
    exact logic.pure (within_add evaluated passing (Judgement.within_later again given))

end

theorem evaluateTypeHint_holds (follows : logic.Follows engine world) {hint : Expression}
    (opens : Opens (logic.MayOpen world) (Outline.ofExpression hint)) :
    logic.Holds world fun index => (engine index).evaluateTypeHint hint :=
  readTypeHint_holds hint (evaluate_holds follows .everything opens)

theorem checkName_holds (identifier : Identifier) :
    logic.Holds world fun _ => checkName identifier := by
  refine logic.bind (logic.lookupName? _ _) ?_
  intro second passed found _
  cases found with
  | some _ => exact logic.pure trivial
  | none => exact logic.report _ _

theorem checkOperands_holds (operator : BinaryOperator) (left right : Value) (span : Span) :
    logic.Holds world fun _ => checkOperands operator left right span := by
  refine logic.bind logic.store ?_
  intro second passed store _
  exact Judgement.ite (fun _ => logic.report _ _) fun _ => logic.pure trivial

mutual

theorem check_holds {world : logic.World} (follows : logic.Follows engine world) :
    ∀ {expression : Expression},
      Opens (logic.MayOpen world) (Outline.ofExpression expression) →
        logic.Holds world fun index => (engine index).check expression
  | .constant _ _, _ => by
    simp only [check]
    exact logic.pure trivial
  | .name identifier, _ => by
    simp only [check]
    exact checkName_holds identifier
  | .attribute target _ _, opens => by
    simp only [Outline.ofExpression, opens_cons] at opens
    simp only [check]
    exact check_holds follows opens.2
  | .index target index _, opens => by
    simp only [Outline.ofExpression, opens_cons, opens_append] at opens
    simp only [check]
    refine logic.bind (check_holds follows opens.2.1) ?_
    intro second passed _ _
    exact check_holds (follows.later passed) (Logic.opens_later passed opens.2.2)
  | .slice lower upper step _, opens => by
    simp only [Outline.ofExpression, opens_cons, opens_append] at opens
    simp only [check]
    refine logic.bind (checkOptional_holds follows opens.2.1.1) ?_
    intro second passed _ _
    refine logic.bind (checkOptional_holds (follows.later passed)
      (Logic.opens_later passed opens.2.1.2)) ?_
    intro third again _ _
    have further := logic.later_trans passed again
    exact checkOptional_holds (follows.later further) (Logic.opens_later further opens.2.2)
  | .call callee arguments _, opens => by
    simp only [Outline.ofExpression, opens_cons, opens_append] at opens
    simp only [check]
    refine logic.bind (check_holds follows opens.2.1) ?_
    intro second passed _ _
    exact checkArguments_holds (follows.later passed) (Logic.opens_later passed opens.2.2)
  | .display _ items _, opens => by
    simp only [Outline.ofExpression, opens_cons] at opens
    simp only [check]
    exact checkAll_holds follows opens.2
  | .dict entries _, opens => by
    simp only [Outline.ofExpression, opens_cons] at opens
    simp only [check]
    exact checkEntries_holds follows opens.2
  | .comprehension comprehension, opens => by
    simp only [Outline.ofExpression] at opens
    simp only [check]
    exact checkComprehension_holds follows opens
  | .yield value _, opens => by
    simp only [Outline.ofExpression, opens_cons] at opens
    simp only [check]
    exact checkOptional_holds follows opens.2
  | .unary _ operand _, opens => by
    simp only [Outline.ofExpression, opens_cons] at opens
    simp only [check]
    exact check_holds follows opens.2
  | .binary left operator right span, opens => by
    simp only [Outline.ofExpression, opens_cons, opens_append] at opens
    simp only [check]
    refine logic.bind (check_holds follows opens.2.1) ?_
    intro second passed _ _
    refine logic.bind (check_holds (follows.later passed)
      (Logic.opens_later passed opens.2.2)) ?_
    intro third again _ _
    have further := logic.later_trans passed again
    refine logic.bind (evaluate_holds (follows.later further) _
      (Logic.opens_later further opens.2.1)) ?_
    intro fourth onward _ _
    have further := logic.later_trans further onward
    refine logic.bind (evaluate_holds (follows.later further) _
      (Logic.opens_later further opens.2.2)) ?_
    intro fifth lastly _ _
    exact checkOperands_holds operator _ _ span

theorem checkComprehension_holds {world : logic.World} (follows : logic.Follows engine world) :
    ∀ {comprehension : Comprehension},
      Opens (logic.MayOpen world) (Outline.ofComprehension comprehension) →
        logic.Holds world fun index => (engine index).checkComprehension comprehension
  | ⟨_, _, _, _, clauses, _⟩, opens => by
    simp only [Outline.ofComprehension, opens_cons, opens_append] at opens
    simp only [checkComprehension]
    exact checkFirstIterable_holds follows opens.2.2

theorem checkFirstIterable_holds {world : logic.World} (follows : logic.Follows engine world) :
    ∀ {clauses : List Clause}, Opens (logic.MayOpen world) (Outline.ofClauses clauses) →
      logic.Holds world fun index => (engine index).checkFirstIterable clauses
  | [], _ => by
    simp only [checkFirstIterable]
    exact logic.pure trivial
  | .iteration _ iterable _ :: _, opens => by
    simp only [Outline.ofClauses, opens_append] at opens
    simp only [checkFirstIterable]
    exact check_holds follows opens.1.2
  | .condition _ _ :: rest, opens => by
    simp only [Outline.ofClauses, opens_append] at opens
    simp only [checkFirstIterable]
    exact checkFirstIterable_holds follows opens.2

theorem checkOptional_holds {world : logic.World} (follows : logic.Follows engine world) :
    ∀ {expression : Option Expression},
      Opens (logic.MayOpen world) (Outline.ofOptional expression) →
        logic.Holds world fun index => (engine index).checkOptional expression
  | none, _ => by
    simp only [checkOptional]
    exact logic.pure trivial
  | some expression, opens => by
    simp only [Outline.ofOptional] at opens
    simp only [checkOptional]
    exact check_holds follows opens

theorem checkAll_holds {world : logic.World} (follows : logic.Follows engine world) :
    ∀ {expressions : List Expression},
      Opens (logic.MayOpen world) (Outline.ofExpressions expressions) →
        logic.Holds world fun index => (engine index).checkAll expressions
  | [], _ => by
    simp only [checkAll]
    exact logic.pure trivial
  | expression :: rest, opens => by
    simp only [Outline.ofExpressions, opens_append] at opens
    simp only [checkAll]
    refine logic.bind (check_holds follows opens.1) ?_
    intro second passed _ _
    exact checkAll_holds (follows.later passed) (Logic.opens_later passed opens.2)

theorem checkEntries_holds {world : logic.World} (follows : logic.Follows engine world) :
    ∀ {entries : List (Expression × Expression)},
      Opens (logic.MayOpen world) (Outline.ofEntries entries) →
        logic.Holds world fun index => (engine index).checkEntries entries
  | [], _ => by
    simp only [checkEntries]
    exact logic.pure trivial
  | (key, value) :: rest, opens => by
    simp only [Outline.ofEntries, opens_append] at opens
    simp only [checkEntries]
    refine logic.bind (check_holds follows opens.1.1) ?_
    intro second passed _ _
    refine logic.bind (check_holds (follows.later passed)
      (Logic.opens_later passed opens.1.2)) ?_
    intro third again _ _
    have further := logic.later_trans passed again
    exact checkEntries_holds (follows.later further) (Logic.opens_later further opens.2)

theorem checkArguments_holds {world : logic.World} (follows : logic.Follows engine world) :
    ∀ {arguments : List CallArgument},
      Opens (logic.MayOpen world) (Outline.ofArguments arguments) →
        logic.Holds world fun index => (engine index).checkArguments arguments
  | [], _ => by
    simp only [checkArguments]
    exact logic.pure trivial
  | ⟨_, value⟩ :: rest, opens => by
    simp only [Outline.ofArguments, opens_append] at opens
    simp only [checkArguments]
    refine logic.bind (check_holds follows opens.1) ?_
    intro second passed _ _
    exact checkArguments_holds (follows.later passed) (Logic.opens_later passed opens.2)

end

theorem checkedValue_holds (follows : logic.Follows engine world) {expression : Expression}
    (opens : Opens (logic.MayOpen world) (Outline.ofExpression expression)) :
    logic.Holds world fun index => (engine index).checkedValue expression := by
  refine logic.bind (check_holds follows opens) ?_
  intro second passed _ _
  exact evaluate_holds (follows.later passed) _ (Logic.opens_later passed opens)

theorem checkedOptional_holds (follows : logic.Follows engine world)
    {expression : Option Expression}
    (opens : Opens (logic.MayOpen world) (Outline.ofOptional expression)) :
    logic.Holds world fun index => (engine index).checkedOptional expression := by
  cases expression with
  | none => exact logic.pure within_none
  | some expression =>
    refine logic.bind (checkedValue_holds follows opens) ?_
    intro second passed value given
    exact logic.pure ((within_some _).mpr given)

theorem annotatedValue_holds (follows : logic.Follows engine world) {hint : Expression}
    (hinted : Opens (logic.MayOpen world) (Outline.ofExpression hint))
    {value : Option Expression}
    (opens : Opens (logic.MayOpen world) (Outline.ofOptional value)) :
    logic.Holds world fun index => (engine index).annotatedValue hint value := by
  refine logic.bind (evaluateTypeHint_holds follows hinted) ?_
  intro second passed declared described
  refine logic.bind (checkedOptional_holds (follows.later passed)
    (Logic.opens_later passed opens)) ?_
  intro third again assigned given
  have given := given.getD within_unknown
  refine Judgement.ite (fun _ => ?_) fun _ => logic.pure given
  refine logic.bind logic.store ?_
  intro fourth onward store within
  exact logic.pure (within_described within
    (Judgement.within_later (logic.later_trans again onward) described))

end Engine

end TypeInference
