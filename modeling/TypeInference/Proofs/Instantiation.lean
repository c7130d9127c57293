import TypeInference.Proofs.Chains
import TypeInference.Proofs.Contents

/-!
# Objects of classes with inherited constructors

A generic class that is called is specialized to the arguments of its constructor. Its receiver is
among them, as an unknown value with the declared type of the first parameter. It is known by that
type: it must be a type parameter of the class, or the class itself. A constructor that was
inherited declares another class there. Then the receiver counts as an argument that shows nothing,
and the first parameter that is left open is given to it; all other arguments come one parameter
too late. Nothing is lost by that exactly where there is nothing to lose: where the arguments that
the open parameters could get are unknown.
-/

namespace TypeInference

open Analysis TypeParameter

/-- No parameter is bound to another one. -/
def Bindings.Unchained (bindings : Bindings) : Prop :=
  ∀ parameter target, bindings.find? parameter = some (.parameter target) →
    target.hash = parameter.hash

/-- Where no parameter is bound to another one there are no chains. -/
theorem Bindings.Unchained.followChains {bindings : Bindings} (unchained : bindings.Unchained)
    (parameters : List TypeParameter) : bindings.followChains parameters = bindings := by
  refine followChains_induction (motive := fun followed => followed = bindings) ?_ rfl parameters
  intro followed parameter target ty found apart _ _ same
  subst same
  exact absurd (unchained parameter target found) apart

namespace Evidence

/-- What some arguments show by themselves of the parameters of a template, before the rest of
them is given to the parameters in order. -/
def shown (store : Store) (template : ClassId) (parameters : List TypeParameter)
    (given : List Argument) : Evidence :=
  given.foldl (takeArgument store template) { bindings := .identity parameters }

/-- The same evidence with arguments in front of those that have shown nothing. -/
def behind (evidence : Evidence) (front : List Argument) : Evidence :=
  { evidence with unused := front ++ evidence.unused }

variable {store : Store} {template : ClassId} {parameters : List TypeParameter}

theorem behind_addBase (evidence : Evidence) (front : List Argument) (ty : Ty) :
    (evidence.behind front).addBase store template ty =
      (evidence.addBase store template ty).behind front := by
  unfold addBase behind
  split <;> rfl

theorem behind_bindSample (evidence : Evidence) (front : List Argument)
    (parameter : TypeParameter) (sample : Option Value) :
    (evidence.behind front).bindSample store parameter sample =
      (evidence.bindSample store parameter sample).behind front := by
  unfold bindSample behind
  split
  · split <;> rfl
  · rfl

theorem behind_sampleBases? (evidence : Evidence) (front : List Argument) (value : Value) :
    (evidence.behind front).sampleBases? store template value =
      (evidence.sampleBases? store template value).map (behind · front) := by
  have samples (pairs : List (TypeParameter × Option Value)) (start : Evidence) :
      pairs.foldl (fun evidence sample => evidence.bindSample store sample.1 sample.2)
          (start.behind front) =
        (pairs.foldl (fun evidence sample => evidence.bindSample store sample.1 sample.2)
          start).behind front := by
    induction pairs generalizing start with
    | nil => rfl
    | cons pair rest inductionHypothesis =>
      rw [List.foldl_cons, behind_bindSample, inductionHypothesis, List.foldl_cons]
  unfold sampleBases?
  dsimp only
  cases store.typeOf value with
  | cls found =>
    dsimp only
    rw [Option.map_map]
    congr 1
    funext base
    rw [Function.comp_apply, behind_addBase]
    split
    · exact samples _ _
    · rfl
  | unknown | parameter _ | function _ | marker _ => rfl

/-- Arguments that have shown nothing make no difference to what the next one shows. -/
theorem behind_takeArgument (evidence : Evidence) (front : List Argument) (argument : Argument) :
    takeArgument store template (evidence.behind front) argument =
      (takeArgument store template evidence argument).behind front := by
  have sampled : (evidence.behind front).sampleBases? store template argument.value =
      (evidence.sampleBases? store template argument.value).map (behind · front) :=
    behind_sampleBases? evidence front argument.value
  have same : (evidence.behind front).bindings = evidence.bindings := rfl
  unfold takeArgument
  dsimp only
  rw [same]
  cases argument.declaredType.asParameter?.filter evidence.bindings.contains with
  | some parameter =>
    dsimp only
    split <;> rfl
  | none =>
    dsimp only
    rw [sampled]
    by_cases concrete : isConcreteObject argument.value = true
    · rw [if_pos concrete, if_pos concrete]
      cases evidence.sampleBases? store template argument.value with
      | some _ => rfl
      | none =>
        dsimp only [Option.map_none]
        split
        · rfl
        · exact congrArg _ (List.append_assoc ..)
    · rw [if_neg concrete, if_neg concrete]
      dsimp only
      split
      · rfl
      · exact congrArg _ (List.append_assoc ..)

/-- Whether the receiver is known by the type that it is declared with: a parameter of the
template, or the template itself. -/
def knowsReceiver (store : Store) (template : ClassId) (parameters : List TypeParameter)
    (declared : Ty) : Bool :=
  (declared.asParameter?.filter (Bindings.identity parameters).contains).isSome ||
    store.sameType declared (.cls template)

/-- A receiver that is known shows nothing and is left out of the rest; one that is not known is
the first of the rest. -/
theorem shown_receiver (store : Store) (template : ClassId) (parameters : List TypeParameter)
    (parameter : FormalParameter) (others : List Argument) :
    shown store template parameters (.bound parameter .unknown :: others) =
      if knowsReceiver store template parameters parameter.declaredType then
        shown store template parameters others
      else
        (shown store template parameters others).behind [.bound parameter .unknown] := by
  have follow (given : List Argument) (start : Evidence) (front : List Argument) :
      given.foldl (takeArgument store template) (start.behind front) =
        (given.foldl (takeArgument store template) start).behind front := by
    induction given generalizing start with
    | nil => rfl
    | cons argument rest inductionHypothesis =>
      rw [List.foldl_cons, behind_takeArgument, inductionHypothesis, List.foldl_cons]
  have first : takeArgument store template { bindings := .identity parameters }
      (.bound parameter .unknown) =
      if knowsReceiver store template parameters parameter.declaredType then
        { bindings := .identity parameters }
      else ({ bindings := .identity parameters } : Evidence).behind
        [.bound parameter .unknown] := by
    unfold takeArgument knowsReceiver
    dsimp only [Argument.bound]
    cases parameter.declaredType.asParameter?.filter (Bindings.identity parameters).contains with
    | some declared => rfl
    | none =>
      rw [Option.isSome_none, Bool.false_or]
      rfl
  rw [shown, List.foldl_cons, first]
  split
  · rfl
  · exact follow others _ _

/-- Bindings are left as they are by arguments of unknown types. It does not matter what comes
after as many of them as there are open parameters. -/
theorem bindRemaining_of_unknown (parameters : List TypeParameter) :
    ∀ (given : List Argument) (bindings : Bindings),
      (∀ argument ∈ given.take (parameters.countP bindings.isUnresolved),
        (store.typeOf argument.value).isUnknown = true) →
      bindRemaining store parameters given bindings = bindings := by
  induction parameters with
  | nil => exact fun _ _ _ => rfl
  | cons parameter rest inductionHypothesis =>
    intro given bindings unknown
    unfold bindRemaining
    by_cases unresolved : bindings.isUnresolved parameter = true
    · rw [if_pos unresolved]
      rw [List.countP_cons_of_pos unresolved] at unknown
      cases given with
      | nil => rfl
      | cons argument others =>
        rw [List.take_succ_cons, List.forall_mem_cons] at unknown
        dsimp only
        rw [if_pos unknown.1]
        exact inductionHypothesis others bindings unknown.2
    · rw [if_neg unresolved]
      rw [List.countP_cons_of_neg unresolved] at unknown
      exact inductionHypothesis given bindings unknown

/-- One more unknown argument in front of the others moves them on by one open parameter each. This
changes nothing only if those that the open parameters get are unknown, too. -/
theorem unknown_of_bindRemaining_cons (parameters : List TypeParameter)
    (distinct : Distinct parameters) :
    ∀ (front : Argument) (given : List Argument) (bindings : Bindings),
      (store.typeOf front.value).isUnknown = true →
      (∀ argument ∈ given, (store.typeOf argument.value).asParameter? = none) →
      bindRemaining store parameters (front :: given) bindings =
        bindRemaining store parameters given bindings →
      ∀ argument ∈ given.take (parameters.countP bindings.isUnresolved),
        (store.typeOf argument.value).isUnknown = true := by
  induction parameters with
  | nil => intro _ _ _ _ _ _ argument impossible; cases impossible
  | cons parameter rest inductionHypothesis =>
    obtain ⟨absent, others⟩ := List.nodup_cons.mp distinct
    intro front given bindings unknown proper same
    unfold bindRemaining at same
    by_cases unresolved : bindings.isUnresolved parameter = true
    · rw [if_pos unresolved, if_pos unresolved] at same
      rw [List.countP_cons_of_pos unresolved]
      cases given with
      | nil => intro argument impossible; cases impossible
      | cons argument given =>
        obtain ⟨own, proper⟩ := List.forall_mem_cons.mp proper
        dsimp only at same
        rw [if_pos unknown] at same
        rw [List.take_succ_cons, List.forall_mem_cons]
        by_cases known : (store.typeOf argument.value).isUnknown = true
        · rw [if_pos known] at same
          exact ⟨known, inductionHypothesis others argument given bindings known proper same⟩
        · -- The parameter is open on one side, and bound to the type of the argument on the other.
          rw [if_neg known] at same
          have found := congrArg (Bindings.find? · parameter) same
          rw [find?_bindRemaining_of_kept (.inl absent), find?_bindRemaining_of_kept (.inl absent),
            Bindings.find?_bind, if_pos rfl] at found
          obtain ⟨target, isParameter, -⟩ := Bindings.isUnresolved_iff.mp unresolved _ found
          rw [isParameter] at own
          cases own
    · rw [if_neg unresolved, if_neg unresolved] at same
      rw [List.countP_cons_of_neg unresolved]
      exact inductionHypothesis others front given bindings unknown proper same

/-- Arguments whose types are no parameters make no chains. -/
theorem unchained_bindRemaining (parameters : List TypeParameter) (given : List Argument)
    (bindings : Bindings)
    (proper : ∀ argument ∈ given, (store.typeOf argument.value).asParameter? = none)
    (unchained : bindings.Unchained) :
    (bindRemaining store parameters given bindings).Unchained := by
  refine bindRemaining_induction (motive := Bindings.Unchained) ?_ unchained
  intro parameter _ argument among bound _ _ unchained asked target found
  rw [Bindings.find?_bind] at found
  split at found
  · have own := proper argument among
    rw [Option.some.inj found] at own
    cases own
  · exact unchained asked target found

/-- A receiver takes nothing from the other arguments: it is known by its declared type, or those
arguments that are given to open parameters are unknown. -/
def TakesNothing (store : Store) (template : ClassId) (parameters : List TypeParameter)
    (receiver : FormalParameter) (others : List Argument) : Prop :=
  knowsReceiver store template parameters receiver.declaredType = true ∨
    ∀ argument ∈ (shown store template parameters others).unused.take
        (parameters.countP (shown store template parameters others).bindings.isUnresolved),
      (store.typeOf argument.value).isUnknown = true

instance (store : Store) (template : ClassId) (parameters : List TypeParameter)
    (receiver : FormalParameter) (others : List Argument) :
    Decidable (TakesNothing store template parameters receiver others) :=
  inferInstanceAs (Decidable (_ ∨ ∀ argument ∈ List.take _ _, _))

/-- Whatever the receiver takes, the arguments show the same bases. Their bindings come from what
they show by themselves, with the rest behind the receiver if that is not known. -/
theorem ofArguments_receiver (receiver : FormalParameter) (others : List Argument) (span : Span) :
    (ofArguments store template parameters ⟨.bound receiver .unknown :: others, span⟩).bases =
        (ofArguments store template parameters ⟨others, span⟩).bases ∧
      (ofArguments store template parameters ⟨.bound receiver .unknown :: others, span⟩).bindings =
        let shown := shown store template parameters others
        let rest := if knowsReceiver store template parameters receiver.declaredType then
          shown.unused else .bound receiver .unknown :: shown.unused
        (bindRemaining store parameters rest shown.bindings).followChains parameters := by
  have evidence := shown_receiver store template parameters receiver others
  constructor
  · change (shown store template parameters (_ :: others)).bases = _
    rw [evidence]
    split <;> rfl
  · change (bindRemaining store parameters
      (shown store template parameters (_ :: others)).unused
      (shown store template parameters (_ :: others)).bindings).followChains parameters = _
    rw [evidence]
    split <;> rfl

/-- A receiver that takes nothing changes nothing that the parameters are bound to. -/
theorem TakesNothing.bindings {receiver : FormalParameter} {others : List Argument}
    (nothing : TakesNothing store template parameters receiver others) (span : Span) :
    (ofArguments store template parameters ⟨.bound receiver .unknown :: others, span⟩).bindings =
      (ofArguments store template parameters ⟨others, span⟩).bindings := by
  rw [(ofArguments_receiver receiver others span).2]
  change _ = (bindRemaining store parameters (shown store template parameters others).unused
    (shown store template parameters others).bindings).followChains parameters
  by_cases known : knowsReceiver store template parameters receiver.declaredType = true
  · dsimp only
    rw [if_pos known]
  · have unknown := nothing.resolve_left known
    dsimp only
    rw [if_neg known, bindRemaining_of_unknown parameters _ _ unknown, bindRemaining_of_unknown]
    intro argument listed
    cases count : parameters.countP (shown store template parameters others).bindings.isUnresolved
      with
    | zero =>
      rw [count, List.take_zero] at listed
      cases listed
    | succ fewer =>
      rw [count, List.take_succ_cons] at listed
      rw [count] at unknown
      rcases List.mem_cons.mp listed with rfl | later
      · rfl
      · exact unknown argument (List.take_subset_take_left _ (Nat.le_succ fewer) later)

/-- One that takes something changes what the parameters are bound to. -/
theorem takesNothing_of_bindings {receiver : FormalParameter} {others : List Argument}
    (distinct : Distinct parameters)
    (unchained : (shown store template parameters others).bindings.Unchained)
    (proper : ∀ argument ∈ (shown store template parameters others).unused,
      (store.typeOf argument.value).asParameter? = none) {span : Span}
    (same : (ofArguments store template parameters
        ⟨.bound receiver .unknown :: others, span⟩).bindings =
      (ofArguments store template parameters ⟨others, span⟩).bindings) :
    TakesNothing store template parameters receiver others := by
  by_cases known : knowsReceiver store template parameters receiver.declaredType = true
  · exact .inl known
  · rw [(ofArguments_receiver receiver others span).2] at same
    change _ = (bindRemaining store parameters (shown store template parameters others).unused
      (shown store template parameters others).bindings).followChains parameters at same
    dsimp only at same
    have behind : ∀ argument ∈ Argument.bound receiver .unknown ::
        (shown store template parameters others).unused,
        (store.typeOf argument.value).asParameter? = none :=
      List.forall_mem_cons.mpr ⟨rfl, proper⟩
    rw [if_neg known, (unchained_bindRemaining parameters _ _ behind unchained).followChains,
      (unchained_bindRemaining parameters _ _ proper unchained).followChains] at same
    exact .inr (unknown_of_bindRemaining_cons parameters distinct _ _ _ rfl proper same)

end Evidence

/-- The parameters of the constructor that a class has or inherits. -/
def Store.constructorParameters? (store : Store) (id : ClassId) : Option (List FormalParameter) :=
  ((store.method? id "__init__").bind fun constructor =>
    (store.functionAt constructor).overloads.head?).map (·.parameters)

namespace Engine

variable {environment : Environment} {before : Progress} {id : ClassId}

/-- A class that has no constructor of its own needs none to be evaluated. -/
theorem ensureConstructed_of_inherited (engine : Engine) (environment : Environment)
    (inherited : before.store.ownMember? (before.store.templateOf id) "__init__" = none) :
    engine.ensureConstructed id environment before = .ok () before := by
  unfold ensureConstructed
  rw [bind_apply, store_apply]
  dsimp only
  rw [inherited]
  split <;> rfl

/-- Specializations are made of bindings and bases. -/
theorem makeSpecialization_congr (engine : Engine) (template : ClassId) {first second : Evidence}
    (bindings : first.bindings = second.bindings) (bases : first.bases = second.bases) :
    engine.makeSpecialization template first = engine.makeSpecialization template second := by
  cases first
  cases second
  cases bindings
  cases bases
  rfl

/-- Arguments that show the same of the parameters and bases of a template give the same class. -/
theorem specialize_congr (depth : Nat) (tidy : before.store.Tidy)
    (inherited : before.store.ownMember? (before.store.templateOf id) "__init__" = none)
    {first second : Arguments}
    (bindings : (before.store.evidenceOf (before.store.templateOf id) first).bindings =
      (before.store.evidenceOf (before.store.templateOf id) second).bindings)
    (bases : (before.store.evidenceOf (before.store.templateOf id) first).bases =
      (before.store.evidenceOf (before.store.templateOf id) second).bases) :
    (Engine.atDepth depth).specialize id first environment before =
      (Engine.atDepth depth).specialize id second environment before := by
  have ofOriginal {template : ClassId} (depth : Nat)
      (isTemplate : before.store.templateOf id = template)
      (original : (before.store.classAt template).template = none) :
      (Engine.atDepth depth).specialize template first environment before =
        (Engine.atDepth depth).specialize template second environment before := by
    cases depth with
    | zero => rfl
    | succ depth =>
      rw [isTemplate] at bindings bases inherited
      have own : before.store.templateOf template = template := by
        rw [Store.templateOf, original, Option.getD_none]
      have constructed := ensureConstructed_of_inherited (Engine.atDepth depth) environment
        (own.symm ▸ inherited)
      change specializeClass _ _ _ environment before = specializeClass _ _ _ environment before
      rw [specializeClass_of_original _ _ _ original, specializeClass_of_original _ _ _ original,
        bind_of_ok constructed, bind_of_ok constructed, specializeConstructed_apply,
        specializeConstructed_apply, Store.signatureOf, Store.signatureOf, bindings,
        makeSpecialization_congr _ _ bindings bases]
  cases specialized : (before.store.classAt id).template with
  | none =>
    have own : before.store.templateOf id = id := by
      rw [Store.templateOf, specialized, Option.getD_none]
    exact ofOriginal depth own specialized
  | some template =>
    have isTemplate : before.store.templateOf id = template := by
      rw [Store.templateOf, specialized, Option.getD_some]
    cases depth with
    | zero => rfl
    | succ depth =>
      change specializeClass _ _ _ environment before = specializeClass _ _ _ environment before
      rw [specializeClass_of_template _ _ _ specialized,
        specializeClass_of_template _ _ _ specialized]
      exact ofOriginal depth isTemplate (tidy.derived specialized).original

/-- The object of a class that is specialized to arguments. -/
def newSpecialized (engine : Engine) (id : ClassId) (arguments : Arguments) : Analysis Value := do
  let specialized ← engine.specialize id arguments
  return (← Analysis.store).newObject specialized

/-- A generic class is specialized to what its constructor binds. -/
theorem instantiate_of_constructor (engine : Engine) {parameters : List FormalParameter}
    (declared : (before.store.classAt id).flags.builtin = false)
    (generic : before.store.isGeneric id = true)
    (inherited : before.store.ownMember? (before.store.templateOf id) "__init__" = none)
    (constructed : before.store.constructorParameters? id = some parameters)
    (positional : List Value) (keywords : List (String × Value)) (span : Span) :
    engine.instantiate id positional keywords span environment before =
      engine.newSpecialized id (.forCall parameters (some .unknown) positional keywords span)
        environment before := by
  obtain ⟨overload, found, rfl⟩ := Option.map_eq_some_iff.mp constructed
  unfold instantiate
  rw [bind_apply, store_apply]
  dsimp only
  rw [declared, if_neg Bool.false_ne_true,
    bind_of_ok (ensureConstructed_of_inherited engine environment inherited), bind_apply, store_apply]
  dsimp only
  rw [generic, found]
  rfl

/-- A receiver that takes nothing fills no type parameter, and one that takes something does so.
When a generic class is called that inherits its constructor, its parameters are bound as they are
by the other arguments alone, and the object is that of the class specialized to these, if the
receiver takes nothing from them: if its declared type is a parameter of the class or the class
itself, or if all arguments are unknown that would be given to the parameters which the arguments
leave open by themselves. If the parameters are different ones, and no other parameters are among
the types that the arguments show or have, then they are bound so in no other case.

The template of the class decides, which is the class itself unless it is a specialization. -/
theorem receiver_fills_no_parameter_iff (depth : Nat) (environment : Environment)
    (tidy : before.store.Tidy)
    {receiver : FormalParameter} {further : List FormalParameter}
    (declared : (before.store.classAt id).flags.builtin = false)
    (generic : before.store.isGeneric id = true)
    (inherited : before.store.ownMember? (before.store.templateOf id) "__init__" = none)
    (constructed : before.store.constructorParameters? id = some (receiver :: further))
    (positional : List Value) (keywords : List (String × Value)) (span : Span) :
    let store := before.store
    let template := store.templateOf id
    let parameters := store.typeParameters template
    let arguments := Arguments.forCall (receiver :: further) (some .unknown) positional keywords span
    let others : Arguments := ⟨arguments.list.tail, span⟩
    let shown := Evidence.shown store template parameters others.list
    let resolvesAlike := (store.evidenceOf template arguments).bindings =
      (store.evidenceOf template others).bindings
    (Evidence.TakesNothing store template parameters receiver others.list → resolvesAlike ∧
      (Engine.atDepth depth).instantiate id positional keywords span environment before =
        (Engine.atDepth depth).newSpecialized id others environment before) ∧
    (Distinct parameters → shown.bindings.Unchained →
      (∀ argument ∈ shown.unused, (store.typeOf argument.value).asParameter? = none) →
        resolvesAlike → Evidence.TakesNothing store template parameters receiver others.list) := by
  intro store template parameters arguments others shown resolvesAlike
  have split : arguments = ⟨.bound receiver .unknown :: others.list, span⟩ := rfl
  have evidence : store.evidenceOf template arguments =
      .ofArguments store template parameters ⟨.bound receiver .unknown :: others.list, span⟩ :=
    congrArg _ split
  constructor
  · intro nothing
    have alike : resolvesAlike := by
      rw [show resolvesAlike = (_ = _) from rfl, evidence]
      exact nothing.bindings span
    have bases : (store.evidenceOf template arguments).bases =
        (store.evidenceOf template others).bases := by
      rw [evidence]
      exact (Evidence.ofArguments_receiver receiver others.list span).1
    refine ⟨alike, ?_⟩
    rw [instantiate_of_constructor _ declared generic inherited constructed, newSpecialized,
      newSpecialized, bind_apply, bind_apply]
    rw [specialize_congr depth tidy inherited alike bases]
  · intro distinct unchained proper alike
    rw [show resolvesAlike = (_ = _) from rfl, evidence] at alike
    exact Evidence.takesNothing_of_bindings distinct unchained proper alike

end Engine

namespace Analyzer

/-- A module with a class that has a constructor, and another one that inherits it and is generic
by the rest of its bases. The constructor is evaluated. -/
def inheritingModule (generic : Expression) : Module :=
  ⟨[.typeVariable "T",
    .defineClass 1 "B" [] [.defineFunction 2 "__init__" ["self", "x"] [.pass .unknown]],
    .defineClass 3 "D" [.ofName "B", generic] [.pass .unknown],
    .define "b" (.call (.ofName "B") [⟨.positional, .constant (.int 1) .unknown⟩] .unknown)]⟩

/-- The progress of a fresh analyzer after that module. -/
def inherited (generic : Expression) : Progress :=
  (Analysis.ofModule (inheritingModule generic)).after Registry.environment Registry.start

/-- The class that inherits the constructor. -/
def heir : ClassId :=
  ⟨Registry.standard.store.nextClass.index + 1⟩

/-- The parameters of the constructor that it inherits. -/
def heirParameters (generic : Expression) : List FormalParameter :=
  ((inherited generic).store.constructorParameters? heir).getD []

/-- The arguments of the constructor that stand behind the receiver. -/
def behindReceiver (generic : Expression) (value : Value) : Arguments :=
  ⟨(Arguments.forCall (heirParameters generic) (some .unknown) [value] [] .unknown).list.tail,
    .unknown⟩

/-- What an argument binds the type parameter to, alone or behind the receiver. -/
def heirBinding? (generic : Expression) (receiver : Bool) (value : Value) : Option Ty :=
  let store := (inherited generic).store
  let arguments := if receiver then
      .forCall (heirParameters generic) (some .unknown) [value] [] .unknown
    else behindReceiver generic value
  (store.evidenceOf heir arguments).bindings.find? (.named "T")

/-- A list of an integer that was sampled. -/
def sampledIntegers : Value :=
  .object (Store.builtinType .list) (.sequence ⟨[Store.constantObject (.int 1)], false⟩)

/-- The class of the object that an analysis gives. -/
def givenClass? (analysis : Analysis Value) : Analysis (Option ClassId) := do
  match ← analysis with
  | .object ty _ => return ty.asClass?
  | _ => return none

/-- The receiver takes nothing from the list that a class of lists is made of: the element of the
list shows the type parameter by itself, and what is left open is nothing. -/
theorem receiver_fills_no_parameter_list :
    let generic := .indexed "List" "T"
    let before := inherited generic
    before.store.isGeneric heir = true ∧
      before.store.ownMember? (before.store.templateOf heir) "__init__" = none ∧
      (heirParameters generic).map (·.name) = ["self", "x"] ∧
      (heirBinding? generic false sampledIntegers).bind Ty.asClass? = some (Store.builtinClass .int) ∧
      heirBinding? generic true sampledIntegers = heirBinding? generic false sampledIntegers ∧
      Engine.standard.instantiate heir [sampledIntegers] [] .unknown Registry.environment before =
        Engine.standard.newSpecialized heir (behindReceiver generic sampledIntegers)
          Registry.environment before := by
  intro generic before
  have tidy : before.store.Tidy := ((Progress.Grounded.initial {}).after_ofModuleWithin
    Engine.depthLimit (inheritingModule generic)).2.tidy
  have names : (heirParameters generic).map (·.name) = ["self", "x"] := by decide +kernel
  have isGeneric : before.store.isGeneric heir = true := by decide +kernel
  have without : before.store.ownMember? (before.store.templateOf heir) "__init__" = none :=
    Option.isNone_iff_eq_none.mp (by decide +kernel)
  obtain ⟨receiver, further, split⟩ : ∃ receiver further,
      heirParameters generic = receiver :: further :=
    List.exists_cons_of_length_pos (by rw [← List.length_map (·.name), names]; decide)
  have constructed : before.store.constructorParameters? heir = some (receiver :: further) := by
    rw [← split]
    exact (Option.getD_of_ne_none (by
      rw [← Option.isSome_iff_ne_none]
      decide +kernel) _).symm
  have fills := (Engine.receiver_fills_no_parameter_iff Engine.depthLimit
    Registry.environment tidy (by decide +kernel) isGeneric without constructed [sampledIntegers] [] .unknown).1
  rw [← split] at fills
  obtain ⟨alike, same⟩ := fills (.inr (by decide +kernel))
  have own : before.store.templateOf heir = heir := by decide +kernel
  rw [own] at alike
  have bound : heirBinding? generic true sampledIntegers = heirBinding? generic false sampledIntegers :=
    congrArg (Bindings.find? · (.named "T")) alike
  exact ⟨isGeneric, without, names, by decide +kernel, bound, same⟩

/-- Nevertheless a receiver can fill a type parameter. A class has one that no base shows, and
inherits its constructor from a class without any. Called with an integer it leaves the parameter
open and gives an object of its own, although the integer alone would bind it. -/
theorem receiver_fills_parameter :
    let generic := .indexed "Generic" "T"
    let one := Store.constantObject (.int 1)
    let before := inherited generic
    before.store.isGeneric heir = true ∧
      (before.store.ownMember? heir "__init__").isNone ∧
      (heirParameters generic).map (·.name) = ["self", "x"] ∧
      ((heirBinding? generic true one).bind Ty.asParameter?).map (·.name) = some "T" ∧
      (heirBinding? generic false one).bind Ty.asClass? = some (Store.builtinClass .int) ∧
      (givenClass? (Engine.standard.instantiate heir [one] [] .unknown)).yields
        Registry.environment before (some heir) = true ∧
      (givenClass? (Engine.standard.newSpecialized heir (behindReceiver generic one))).yields
        Registry.environment before (some before.store.nextClass) = true := by
  decide +kernel

end Analyzer

end TypeInference
