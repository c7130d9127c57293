import TypeInference.Proofs.Convergence

/-!
# An evaluation lowers what remains

A function either has nothing to evaluate, and then its evaluation changes nothing, or its
one overload waits and is begun. From there on less remains than before, so that the whole
body can be evaluated by what converges where less remains. A function whose evaluation goes
on further out has nothing to evaluate: recursion ends there.
-/

namespace TypeInference

open Analysis

/-- Engines of all depths, with which all analyses converge where at most so much remains. -/
def Shallower (nodes : List NodeId) (bound : ℕ ×ₗ ℕ) : Prop :=
  ∀ known, (Logic.convergence nodes bound).Follows Engine.atDepth known

namespace Store

/-- Sets how far the only overload of a function has been evaluated. -/
def setState (store : Store) (function : FunctionId) (state : OverloadState) : Store :=
  store.modifyOverload ⟨function, 0⟩ fun overload => { overload with state }

variable (store : Store) (function id : FunctionId) (state : OverloadState)

/-- The only overload of a function is the one at its first place. -/
theorem overloadAt_of_states
    (single : (store.functionAt function).overloads.map (·.state) = [state]) :
    (store.overloadAt ⟨function, 0⟩).state = state := by
  unfold overloadAt
  cases overloads : (store.functionAt function).overloads with
  | nil => rw [overloads] at single; cases single
  | cons overload rest =>
    rw [overloads] at single
    exact (List.cons.inj single).1

theorem hasFunction_setState :
    (store.setState function state).HasFunction id ↔ store.HasFunction id :=
  hasFunction_modifyFunction store function id _

theorem node_setState :
    ((store.setState function state).functionAt id).node = (store.functionAt id).node := by
  unfold setState modifyOverload
  rw [functionAt_modifyFunction_eq]
  split <;> rfl

/-- The states of the overloads of a function, after the state of one function is set. -/
theorem states_setState :
    ((store.setState function state).functionAt id).overloads.map (·.state) =
      if id = function ∧ store.HasFunction function then
        ((store.functionAt id).overloads.map (·.state)).modify 0 fun _ => state
      else (store.functionAt id).overloads.map (·.state) := by
  unfold setState modifyOverload
  rw [functionAt_modifyFunction_eq]
  split
  · unfold FunctionRecord.modifyOverload
    cases (store.functionAt id).overloads <;> rfl
  · rfl

theorem extends_setState : store.Extends (store.setState function state) where
  hasClass _ := id
  template _ _ := rfl
  hasFunction id := (hasFunction_setState store function id state).mpr
  node id _ := node_setState store function id state

end Store

namespace Progress

/-- Sets how far the only overload of a function has been evaluated. -/
def setState (progress : Progress) (function : FunctionId) (state : OverloadState) : Progress :=
  { progress with store := progress.store.setState function state }

variable {nodes : List NodeId} {known : FunctionId → Prop} {environment : Environment}
  {progress : Progress} {function : FunctionId} {state : OverloadState}

theorem Sound.setState (sound : progress.Sound nodes known environment) (function : FunctionId)
    (state : OverloadState) : (progress.setState function state).Sound nodes known environment where
  registered := sound.registered
  stored := within_modifyOverload sound.stored _ fun _ => id
  visible := sound.visible
  present id isKnown :=
    (Store.hasFunction_setState _ function id _).mpr (sound.present id isKnown)
  entries := sound.entries
  defined id node isKnown definedBy := by
    refine sound.defined id node isKnown ?_
    rwa [← Store.node_setState progress.store function id state]
  single id node definedBy := by
    change ((progress.store.setState function state).functionAt id).node = some node at definedBy
    rw [Store.node_setState] at definedBy
    obtain ⟨before, single⟩ := sound.single id node definedBy
    change ∃ state', ((progress.store.setState function state).functionAt id).overloads.map
      (·.state) = [state']
    rw [Store.states_setState, single]
    split
    · exact ⟨state, rfl⟩
    · exact ⟨before, rfl⟩
  flat := sound.flat

/-- A function that is begun or evaluated does not wait, and every other one waits as before. -/
theorem waits_setState (begun : state ≠ .pending) (id : FunctionId)
    (waits : (progress.setState function state).Waits id) :
    progress.Waits id ∧ id ≠ function := by
  obtain ⟨node, definedBy, declared, pending⟩ := waits
  change ((progress.store.setState function state).functionAt id).node = some node at definedBy
  change ((progress.store.setState function state).functionAt id).overloads.map (·.state) =
    [.pending] at pending
  rw [Store.node_setState] at definedBy
  rw [Store.states_setState] at pending
  have present : progress.store.HasFunction id := by
    refine Decidable.byContradiction fun outside => ?_
    rw [Store.functionAt_of_not_hasFunction _ _ outside] at definedBy
    cases definedBy
  split at pending
  · cases states : (progress.store.functionAt id).overloads.map (·.state) with
    | nil => rw [states] at pending; cases pending
    | cons first rest =>
      rw [states] at pending
      exact absurd (List.cons.inj pending).1 begun
  · next apart =>
    refine ⟨⟨node, definedBy, declared, pending⟩, ?_⟩
    rintro rfl
    exact apart ⟨rfl, present⟩

/-- Neither the begin nor the end of an evaluation raises what remains. -/
theorem remaining_setState (begun : state ≠ .pending) :
    (progress.setState function state).remaining nodes ≤ progress.remaining nodes :=
  remaining_le rfl fun id waits => (waits_setState begun id waits).1

/-- The begin of an evaluation lowers what remains. -/
theorem remaining_begun (begun : state ≠ .pending) (waits : progress.Waits function) :
    (progress.setState function state).remaining nodes < progress.remaining nodes :=
  remaining_lt rfl (fun id waits => (waits_setState begun id waits).1) waits
    fun still => (waits_setState begun function still).2 rfl

end Progress

namespace Engine

variable {engine : Engine} {environment : Environment} {before : Progress}
  {function : FunctionId} {node : NodeId}

/-- A function that no definition declares is complete. -/
theorem evaluateDefinition_of_undefined
    (undefined : (before.store.functionAt function).node = none) :
    engine.evaluateDefinition function environment before = .ok () before := by
  simp only [evaluateDefinition, bind_apply, store_apply, undefined]
  rfl

section Defined

variable (definedBy : (before.store.functionAt function).node = some node)

include definedBy

/-- The evaluation of a function is that of its only overload. -/
theorem evaluateDefinition_of_single {state : OverloadState}
    (single : (before.store.functionAt function).overloads.map (·.state) = [state]) :
    engine.evaluateDefinition function environment before =
      engine.evaluatePending function node [0] environment before := by
  have once : List.range (before.store.functionAt function).overloads.length = [0] := by
    have counted := congrArg List.length single
    rw [List.length_map] at counted
    rw [counted]
    rfl
  simp only [evaluateDefinition, bind_apply, store_apply, definedBy, once]

/-- A function that is evaluated, or being evaluated further out, is left alone. -/
theorem evaluateDefinition_of_begun {state : OverloadState}
    (single : (before.store.functionAt function).overloads.map (·.state) = [state])
    (begun : state ≠ .pending) :
    engine.evaluateDefinition function environment before = .ok () before := by
  rw [evaluateDefinition_of_single definedBy single]
  simp only [evaluatePending, bind_apply, get_apply,
    Store.overloadAt_of_states _ _ _ single, if_neg begun]
  rfl

variable
  (pending : (before.store.functionAt function).overloads.map (·.state) = [OverloadState.pending])

include pending

/-- A function that waits is evaluated by its definition. -/
theorem evaluateDefinition_of_pending {entry : FunctionEntry}
    (declared : before.symbols.function? node = some entry) :
    engine.evaluateDefinition function environment before =
      engine.evaluateOverload ⟨function, 0⟩ entry environment before := by
  rw [evaluateDefinition_of_single definedBy pending]
  simp only [evaluatePending, bind_apply, get_apply,
    Store.overloadAt_of_states _ _ _ pending, if_true, declared]
  cases engine.evaluateOverload ⟨function, 0⟩ entry environment before <;> rfl

/-- A function whose definition is not declared cannot be evaluated. -/
theorem evaluateDefinition_of_undeclared (missing : before.symbols.function? node = none) :
    engine.evaluateDefinition function environment before =
      .error (.fault (.unknownDefinition node)) before := by
  rw [evaluateDefinition_of_single definedBy pending]
  simp only [evaluatePending, bind_apply, get_apply,
    Store.overloadAt_of_states _ _ _ pending, if_true, missing]
  rfl

end Defined

/-- After its contents an overload is evaluated, and its variables are forgotten if that is
wanted. -/
theorem evaluateInside_of_ok {definition : FunctionDefinition} {after : Progress}
    (scope : ScopeId)
    (returned : engine.evaluateContents ⟨function, 0⟩ definition environment before =
      .ok () after) :
    engine.evaluateInside ⟨function, 0⟩ definition scope environment before =
      .ok () (Progress.setState
        { after with scopes :=
            if environment.options.discardsLocals then after.scopes.clearVariables scope
            else after.scopes } function .evaluated) := by
  rw [evaluateInside_eq_contents, bind_of_ok returned, bind_apply, options_apply]
  dsimp only
  split <;> rfl

theorem evaluateInside_of_error {definition : FunctionDefinition} {left : Progress}
    {failure : Failure} (scope : ScopeId)
    (failed : engine.evaluateContents ⟨function, 0⟩ definition environment before =
      .error failure left) :
    engine.evaluateInside ⟨function, 0⟩ definition scope environment before =
      .error failure left := by
  rw [evaluateInside_eq_contents]
  exact bind_of_error failed _

end Engine

/-- A definition whose nodes are declared may be evaluated as a function. -/
theorem permitsFunction_of_among {nodes : List NodeId} {bound : ℕ ×ₗ ℕ}
    (known : FunctionId → Prop) {definition : FunctionDefinition}
    (among : definition.Among nodes) :
    (Logic.convergence nodes bound).PermitsFunction known definition := by
  obtain ⟨_, _, _, _, _, _, _⟩ := definition
  unfold FunctionDefinition.Among at among
  rw [Outline.ofFunction, opens_cons, opens_append, opens_append, opens_append] at among
  exact ⟨fun _ _ _ _ => trivial, fun _ _ _ _ => trivial,
    Statement.BlockPermitted.of_opens (fun _ _ => trivial) (fun _ => id) among.2.2⟩

namespace Converges

variable {nodes : List NodeId} {known : FunctionId → Prop} {environment : Environment}
  {before : Progress} {function : FunctionId}

/-- After the contents of an overload its variables are forgotten, if that is wanted, and it
is evaluated. -/
theorem evaluateInside {bound : ℕ ×ₗ ℕ} {engine : Nat → Engine} {definition : FunctionDefinition}
    {scope : ScopeId}
    (contents : Converges nodes known environment before
      (fun depth => (engine depth).evaluateContents ⟨function, 0⟩ definition)
      fun after => after.remaining nodes ≤ bound) :
    Converges nodes known environment before
      (fun depth => (engine depth).evaluateInside ⟨function, 0⟩ definition scope)
      fun after => after.remaining nodes ≤ bound := by
  simp only [Engine.evaluateInside_eq_contents]
  refine contents.bind fun later _ middle converged fewer => .options ?_
  have evaluated {ending : Progress} (sound : ending.Sound nodes later environment)
      (fewer : ending.remaining nodes ≤ bound) : Converges nodes later environment ending
        (fun _ => Engine.changeOverload ⟨function, 0⟩ fun overload =>
          { overload with state := .evaluated })
        fun after => after.remaining nodes ≤ bound :=
    .of_ok (fun _ => rfl) (fun _ => id) (sound.setState function .evaluated)
      (Store.extends_setState _ _ _) rfl (within_unit ())
      ((Progress.remaining_setState (by decide)).trans fewer)
  split
  · have cleared : Progress.Sound nodes later environment
        { middle with scopes := middle.scopes.clearVariables scope } :=
      converged.sound.changeScopes
        (within_modifyScope converged.sound.visible.within _ fun _ _ => within_nil)
        converged.sound.visible.opened
    exact (evaluated cleared fewer).of_step (fun _ => rfl) (.refl _) rfl
  · exact (evaluated converged.sound fewer).of_step (fun _ => rfl) (.refl _) rfl

/-- An overload that waits is evaluated where less remains. -/
theorem evaluateOverload (sound : before.Sound nodes known environment)
    (shallower : ∀ less < before.remaining nodes, Shallower nodes less)
    (waits : before.Waits function) {entry : FunctionEntry}
    (among : entry.definition.Among nodes) :
    Converges nodes known environment before
      (fun depth => (Engine.atDepth depth).evaluateOverload ⟨function, 0⟩ entry)
      fun after => after.remaining nodes < before.remaining nodes := by
  let begun : Progress := before.setState function .evaluating
  have soundBegun : begun.Sound nodes known environment := sound.setState function .evaluating
  have less : begun.remaining nodes < before.remaining nodes :=
    Progress.remaining_begun (by decide) waits
  have contents := Engine.evaluateContents_holds (shallower _ less known) ⟨function, 0⟩
    (permitsFunction_of_among known among)
  have inside : Converges nodes known environment begun
      (fun depth => Analysis.inScope entry.definition.id .functionBody (some entry.scope)
        fun scope => (Engine.atDepth depth).evaluateInside ⟨function, 0⟩ entry.definition scope)
      fun after => after.remaining nodes < before.remaining nodes :=
    .inScope ((evaluateInside (contents environment _ (soundBegun.push _ _ _) le_rfl)).mono
      fun _ fewer _ => lt_of_le_of_lt fewer less) soundBegun.visible.opened
  exact inside.of_step (fun _ => rfl) (Store.extends_setState _ _ _) rfl

/-- The evaluation of a function changes nothing or lowers what remains. -/
theorem evaluateFunction (sound : before.Sound nodes known environment)
    (shallower : ∀ less < before.remaining nodes, Shallower nodes less)
    (isKnown : known function) :
    Converges nodes known environment before
      (fun depth => (Engine.atDepth depth).evaluateFunction function)
      fun after => after = before ∨ after.remaining nodes < before.remaining nodes := by
  have nothing {analyses : Nat → Analysis Unit}
      (returned : ∀ depth, analyses depth environment before = .ok () before) :
      Converges nodes known environment before analyses
        fun after => after = before ∨ after.remaining nodes < before.remaining nodes :=
    .of_ok returned (fun _ => id) sound (.refl _) rfl (within_unit ()) (.inl rfl)
  suffices defined : Converges nodes known environment before
      (fun depth => (Engine.atDepth depth).evaluateDefinition function)
      fun after => after = before ∨ after.remaining nodes < before.remaining nodes from
    defined.deeper rfl fun _ => rfl
  cases definedBy : (before.store.functionAt function).node with
  | none => exact nothing fun _ => Engine.evaluateDefinition_of_undefined definedBy
  | some node =>
    obtain ⟨state, single⟩ := sound.single function node definedBy
    obtain ⟨entry, declared⟩ := Option.isSome_iff_exists.mp
      (sound.defined function node isKnown definedBy)
    by_cases pending : state = .pending
    · subst pending
      have waits : before.Waits function := ⟨node, definedBy, by rw [declared]; rfl, single⟩
      have among := (sound.entries entry (Symbols.mem_of_function? declared).1).2
      have evaluated := (Converges.evaluateOverload sound shallower waits among).mono
        fun after => @Or.inr (after = before) _
      exact evaluated.of_step
        (fun _ => Engine.evaluateDefinition_of_pending definedBy single declared) (.refl _) rfl
    · exact nothing fun _ => Engine.evaluateDefinition_of_begun definedBy single pending

end Converges

end TypeInference
