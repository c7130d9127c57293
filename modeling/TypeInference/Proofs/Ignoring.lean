import TypeInference.Proofs.OpenParameters
import TypeInference.Proofs.Repeating
import TypeInference.Proofs.Saturation

/-!
# Calls that ignore their targets

What a function is found on becomes its receiver, and the receiver shows what type parameters are
bound to. It makes no difference to the call if the arguments show the same without it, or if
nothing in the return value is replaced in either case. Types and objects that are called ignore
what they were found on altogether, unless they are functions.
-/

namespace TypeInference

open Analysis Store

namespace Store

/-- A function that is called alike with a receiver and without one. What the arguments show is the
same, or nothing in what the function returns is replaced. -/
def IgnoresReceiver (store : Store) (function : FunctionId) (receiver : Option Value)
    (positional : List Value) (keywords : List (String × Value)) (span : Span) : Prop :=
  ∀ overload, (store.functionAt function).overloads.head? = some overload →
    Engine.callBindings store overload receiver positional keywords span =
        Engine.callBindings store overload none positional keywords span ∨
      ∀ ty ∈ (store.returnValue overload).allTypes,
        store.Unreplaced (Engine.callBindings store overload receiver positional keywords span) ty ∧
          store.Unreplaced (Engine.callBindings store overload none positional keywords span) ty

/-- A callee whose functions ignore the receivers that they get from a target. -/
def IgnoresTarget (store : Store) (positional : List Value) (keywords : List (String × Value))
    (span : Span) (target callee : Value) : Prop :=
  ∀ function, .type (.function function) ∈ callee.alternatives →
    store.IgnoresReceiver function (Engine.receiverFor store function target) positional keywords
      span

/-- A function whose return value has only types that stand for themselves ignores every target. -/
theorem ignoresTarget_of_fixed {store : Store} {function : FunctionId}
    (fixed : ∀ overload ∈ (store.functionAt function).overloads.head?,
      ∀ ty ∈ (store.returnValue overload).allTypes, store.isGenericType ty = false)
    (positional : List Value) (keywords : List (String × Value)) (span : Span) (target : Value) :
    store.IgnoresTarget positional keywords span target (.type (.function function)) := by
  intro asked listed overload head
  cases List.mem_singleton.mp listed
  exact .inr fun ty among =>
    ⟨.inl (fixed overload head ty among), .inl (fixed overload head ty among)⟩

end Store

/-- Progress at rest, where the arguments of a call are there. -/
structure Progress.Supplies (environment : Environment) (positional : List Value)
    (keywords : List (String × Value)) (progress : Progress) : Prop where
  rest : progress.AtRest environment
  placed : Within rest.grounded.references positional
  named : Within rest.grounded.references keywords

theorem Progress.Supplies.later {environment : Environment} {positional : List Value}
    {keywords : List (String × Value)} {before after : Progress}
    (supplies : before.Supplies environment positional keywords)
    (rests : before.RestsTo environment after) : after.Supplies environment positional keywords :=
  ⟨rests.rest, rests.within supplies.placed, rests.within supplies.named⟩

namespace Engine

variable {engine : Engine} {environment : Environment} {before after : Progress} {depth : Nat}

section Detaching

variable {positional : List Value} {keywords : List (String × Value)} {span : Span}

/-- A function that ignores its receiver is called alike without it. -/
theorem callFunction_ignoring (supplies : before.Supplies environment positional keywords)
    {function : FunctionId} {receiver : Option Value}
    (ignores : before.store.IgnoresReceiver function receiver positional keywords span) :
    (Engine.atDepth depth).callFunction function receiver positional keywords span environment
        before =
      (Engine.atDepth depth).callFunction function none positional keywords span environment
        before := by
  cases depth with
  | zero => rfl
  | succ depth =>
    have evaluated : (Engine.atDepth (depth + 1)).evaluateFunction function environment before =
        .ok () before :=
      evaluateDefinition_of_settled function environment supplies.rest.settled
    have unerased : (Engine.atDepth (depth + 1)).unerasedCall function receiver positional keywords
          span environment before =
        (Engine.atDepth (depth + 1)).unerasedCall function none positional keywords span environment
          before := by
      rw [unerasedCall, unerasedCall, bind_of_ok evaluated, bind_of_ok evaluated, bind_apply,
        bind_apply, store_apply]
      dsimp only
      cases head : (before.store.functionAt function).overloads.head? with
      | none => rfl
      | some overload =>
        dsimp only
        rcases ignores overload head with same | kept
        · rw [same]
        · have signature :=
            within_firstOverload supplies.rest.grounded.stored function overload head
          have normal := supplies.rest.grounded.isNormal
            (within_returnValue (closedIn_references _ _) signature)
          have returns {bindings : Bindings} (kept : ∀ ty ∈
              (before.store.returnValue overload).allTypes, before.store.Unreplaced bindings ty) :
              (if bindings.isEmpty then return before.store.returnValue overload
                else (Engine.atDepth (depth + 1)).substitute bindings
                  (before.store.returnValue overload) : Analysis Value) environment before =
                .ok (before.store.returnValue overload) before := by
            split
            · rfl
            · exact substitute_unreplaced normal kept
          rw [returns fun ty listed => (kept ty listed).1,
            returns fun ty listed => (kept ty listed).2]
    rw [callFunction_eq, callFunction_eq, bind_apply, bind_apply, unerased]

/-- A callee that ignores a target does so later. -/
theorem ignoresTarget_later (supplies : before.Supplies environment positional keywords)
    (rests : before.RestsTo environment after) {target callee : Value}
    (given : Within supplies.rest.grounded.references target)
    (ignores : before.store.IgnoresTarget positional keywords span target callee) :
    after.store.IgnoresTarget positional keywords span target callee := by
  intro function listed overload head
  rw [rests.receiverFor]
  rw [rests.functionAt] at head
  have signature := within_firstOverload supplies.rest.grounded.stored function overload head
  have returned := within_returnValue (closedIn_references _ _) signature
  rw [rests.callBindings signature (within_receiverFor function given) supplies.placed
      supplies.named,
    rests.callBindings signature within_none supplies.placed supplies.named,
    rests.returnValue signature]
  have still {bindings : Bindings} {ty : Ty}
      (among : ty ∈ (before.store.returnValue overload).allTypes)
      (kept : before.store.Unreplaced bindings ty) : after.store.Unreplaced bindings ty := by
    refine kept.imp_left fun fixed => ?_
    cases ty with
    | cls id => exact (rests.isGeneric ((within_types returned).1 _ among)).trans fixed
    | unknown | parameter _ | function _ | marker _ => exact fixed
  exact (ignores function listed overload head).imp_right fun kept ty among =>
    (kept ty among).imp (still among) (still among)

mutual

/-- A target makes no difference if no function gets a receiver from it. -/
theorem callValue_of_no_receiver {target : Option Value}
    (nothing : ∀ store function, target.bind (receiverFor store function) = none) :
    ∀ callee, engine.callValue target positional keywords span callee =
      engine.callValue none positional keywords span callee
  | .union alternatives => by
    rw [callValue, callValue, callAll_of_no_receiver nothing alternatives]
  | .type (.function function) => by
    simp only [callValue, nothing, Option.bind_none]
  | .unknown | .type .unknown | .type (.cls _) | .type (.parameter _) | .type (.marker _)
  | .object .unknown _ | .object (.cls _) _ | .object (.parameter _) _ | .object (.function _) _
  | .object (.marker _) _ => by
    simp only [callValue]

theorem callAll_of_no_receiver {target : Option Value}
    (nothing : ∀ store function, target.bind (receiverFor store function) = none) :
    ∀ callees, engine.callAll target positional keywords span callees =
      engine.callAll none positional keywords span callees
  | [] => by
    simp only [callAll]
  | callee :: others => by
    simp only [callAll, callValue_of_no_receiver nothing callee,
      callAll_of_no_receiver nothing others]

end

/-- A union is no receiver. -/
theorem receiverFor_union (store : Store) (function : FunctionId) (members : List Value) :
    receiverFor store function (.union members) = none := by
  unfold receiverFor
  dsimp only
  split <;> rfl

/-- A type or an object that ignores its target is called alike without it. -/
theorem callValue_single_ignoring (supplies : before.Supplies environment positional keywords)
    {target callee : Value} (single : callee.isSingle = true)
    (ignores : before.store.IgnoresTarget positional keywords span target callee) :
    (Engine.atDepth depth).callValue (some target) positional keywords span callee environment
        before =
      (Engine.atDepth depth).callValue none positional keywords span callee environment before := by
  match callee, single with
  | .type (.function function), _ =>
    simp only [callValue]
    rw [bind_apply, bind_apply, store_apply]
    dsimp only
    split
    · rfl
    · exact callFunction_ignoring supplies (ignores function List.mem_cons_self)
  | .type .unknown, _ | .type (.cls _), _ | .type (.parameter _), _ | .type (.marker _), _
  | .object .unknown _, _ | .object (.cls _) _, _ | .object (.parameter _) _, _
  | .object (.function _) _, _ | .object (.marker _) _, _ =>
    simp only [callValue]

end Detaching

section Several

variable {positional : List Value} {keywords : List (String × Value)} {span : Span}
  {callees values : List Value}

/-- What a call without a target leads to, and that it can be made again. -/
theorem callValue_rests (supplies : before.Supplies environment positional keywords)
    {callee value : Value} (given : Within supplies.rest.grounded.references callee)
    (returned : (Engine.atDepth depth).callValue none positional keywords span callee environment
      before = .ok value after) :
    ∃ rests : before.RestsTo environment after, Within rests.rest.grounded.references value ∧
      ∀ later, after.RestsTo environment later →
        (Engine.atDepth depth).callValue none positional keywords span callee environment later =
          .ok value later := by
  obtain ⟨rests, again⟩ := callValue_repeats supplies.rest within_none supplies.placed supplies.named
    span given value after returned
  obtain ⟨_, within⟩ := (callValue_holds (areGrounded_atDepth depth _) within_none supplies.placed
    supplies.named span given environment before supplies.rest.grounded
      fun _ has => has).within_of_ok returned
  exact ⟨rests, within, again⟩

/-- What calls without a target lead to. -/
theorem callAll_rests (supplies : before.Supplies environment positional keywords)
    (given : Within supplies.rest.grounded.references callees)
    (returned : (Engine.atDepth depth).callAll none positional keywords span callees environment
      before = .ok values after) :
    ∃ rests : before.RestsTo environment after, Within rests.rest.grounded.references values := by
  obtain ⟨rests, -⟩ := callAll_repeats supplies.rest within_none supplies.placed supplies.named span
    given values after returned
  obtain ⟨_, within⟩ := callAll_within supplies.rest within_none supplies.placed supplies.named span
    given returned
  exact ⟨rests, within⟩

theorem callAll_cons (target : Option Value) (callee : Value) (others : List Value) :
    engine.callAll target positional keywords span (callee :: others) = do
      let first ← engine.callValue target positional keywords span callee
      let rest ← engine.callAll target positional keywords span others
      return first :: rest := by
  rw [callAll]

/-- Types and objects that ignore their target are called alike without it. -/
theorem callAll_ignoring {target : Value} : ∀ {callees : List Value} {before : Progress}
    (supplies : before.Supplies environment positional keywords),
      Within supplies.rest.grounded.references target →
        Within supplies.rest.grounded.references callees →
          (∀ callee ∈ callees, callee.isSingle = true ∧
            before.store.IgnoresTarget positional keywords span target callee) →
          (Engine.atDepth depth).callAll (some target) positional keywords span callees environment
              before =
            (Engine.atDepth depth).callAll none positional keywords span callees environment before
  | [], _, _, _, _, _ => by
    rw [callAll, callAll]
  | callee :: others, before, supplies, found, given, ignores => by
    rw [within_cons] at given
    rw [List.forall_mem_cons] at ignores
    rw [callAll_cons, callAll_cons, bind_apply, bind_apply,
      callValue_single_ignoring supplies ignores.1.1 ignores.1.2]
    cases called : (Engine.atDepth depth).callValue none positional keywords span callee environment
        before with
    | error failure left => rfl
    | ok value middle =>
      obtain ⟨rests, -⟩ := callValue_rests supplies given.1 called
      dsimp only
      rw [bind_apply, bind_apply, callAll_ignoring (supplies.later rests) (rests.within found)
        (rests.within given.2) fun other listed => (ignores.2 other listed).imp_right
          (ignoresTarget_later supplies rests found)]

/-- A callee that ignores its target is called alike without it. -/
theorem callValue_ignoring (supplies : before.Supplies environment positional keywords)
    {target callee : Value} (found : Within supplies.rest.grounded.references target)
    (given : Within supplies.rest.grounded.references callee)
    (ignores : before.store.IgnoresTarget positional keywords span target callee) :
    (Engine.atDepth depth).callValue (some target) positional keywords span callee environment
        before =
      (Engine.atDepth depth).callValue none positional keywords span callee environment before := by
  cases callee with
  | unknown => rw [callValue, callValue]
  | type _ | object _ _ => exact callValue_single_ignoring supplies rfl ignores
  | union alternatives =>
    have separate : before.store.Separate alternatives :=
      (supplies.rest.grounded.isNormal given).1
    have single (alternative : Value) (listed : alternative ∈ alternatives) :
        alternative.isSingle = true ∧
          before.store.IgnoresTarget positional keywords span target alternative := by
      refine ⟨separate.single alternative listed, fun function among => ignores function ?_⟩
      rw [Value.alternatives_of_isSingle (separate.single alternative listed)] at among
      exact List.mem_singleton.mp among ▸ listed
    rw [callValue, callValue, bind_apply, bind_apply,
      callAll_ignoring supplies found ((within_union _).mp given).2 single]

end Several

end Engine

end TypeInference
