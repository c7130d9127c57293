import TypeInference.Proofs.Histories
import TypeInference.Proofs.Phrases

/-!
# Declared functions are evaluated once

After the body of a module was walked, the declared functions are evaluated in order, and the list
grows while this goes on. Nothing is being evaluated around it, so a function that is looked at is
evaluated afterwards; and the list is looked through to its end, unless something fails. Together
with the history of its overload this says that every function was evaluated once.
-/

namespace TypeInference

open Analysis

namespace Store

namespace Settles

variable {before after : Store} (settles : before.Settles after)

include settles

/-- Nothing is left unfinished by what succeeds. -/
theorem idle (idle : ∀ id, (before.overloadAt id).state ≠ .evaluating) (id : OverloadId) :
    (after.overloadAt id).state ≠ .evaluating := by
  obtain same | evaluated := settles.states id
  · rw [same]
    exact idle id
  · rw [evaluated]
    decide

theorem isEvaluated {function : FunctionId} (present : before.HasFunction function)
    (evaluated : before.IsEvaluated function) : after.IsEvaluated function := by
  rw [isEvaluated_iff] at evaluated ⊢
  rw [(settles.counts function present).2]
  exact fun place inside => settles.evaluated (evaluated place inside)

end Settles

end Store

namespace Symbols

/-- A function that was declared keeps its place. -/
theorem functionAt?_of_prefix {before after : Symbols} {entry : FunctionEntry} {place : Nat}
    (longer : before.functions.toList <+: after.functions.toList)
    (found : before.functionAt? place = some entry) {earlier : Nat} (inside : earlier ≤ place) :
    after.functionAt? earlier = before.functionAt? earlier := by
  obtain ⟨more, same⟩ := longer
  have bound : place < before.functions.size := (Array.getElem?_eq_some_iff.mp found).1
  rw [functionAt?, functionAt?, ← Array.getElem?_toList, ← Array.getElem?_toList, ← same,
    List.getElem?_append_left (by rw [Array.length_toList]; omega)]

end Symbols

namespace Registry

theorem idle_standard : standard.store.NoOverloadIs .evaluating := by
  decide +kernel

end Registry

namespace Analysis

variable {environment : Environment} {depth : Nat}

/-- The declared functions are evaluated to the last, also those that are declared meanwhile. -/
theorem evaluateDeclared_evaluates (bound : Nat) : ∀ {place : Nat} {before after : Progress},
    evaluateDeclared (Engine.atDepth depth) bound place environment before = .ok () after →
      before.Awaits [] → (∀ id, (before.store.overloadAt id).state ≠ .evaluating) →
        (∀ earlier < place, ∀ entry, before.symbols.functionAt? earlier = some entry →
          before.store.IsEvaluated entry.function) →
          ∀ entry ∈ after.symbols.functions.toList, after.store.IsEvaluated entry.function := by
  induction bound with
  | zero => exact fun impossible => nomatch impossible
  | succ bound inductionHypothesis =>
    intro place before after returned ready idle evaluated
    rw [evaluateDeclared, bind_apply, get_apply] at returned
    dsimp only at returned
    cases found : before.symbols.functionAt? place with
    | none =>
      rw [found] at returned
      cases returned
      intro entry listed
      obtain ⟨earlier, inside, rfl⟩ := List.getElem_of_mem listed
      rw [Array.length_toList] at inside
      have beyond : before.symbols.functions.size ≤ place := Array.getElem?_eq_none_iff.mp found
      refine evaluated earlier (inside.trans_le beyond) _ ?_
      rw [Symbols.functionAt?, Array.getElem?_eq_getElem inside, Array.getElem_toList]
    | some entry =>
      rw [found] at returned
      obtain ⟨_, middle, done, onwards⟩ := bind_eq_ok.mp returned
      have costs := (Engine.atDepth_spends Ledger.history depth).evaluateFunction entry.function
        environment before ready
      rw [after_of_ok done] at costs
      have settles := ((Engine.atDepth_respects .settling depth).evaluateFunction
        entry.function).respects.of_ok done
      have readied : middle.Awaits [] :=
        @Ledger.onward Ledger.history [] [] before middle ready costs
      refine inductionHypothesis onwards readied (settles.idle idle)
        fun earlier inside other there => ?_
      rw [Symbols.functionAt?_of_prefix costs.entries found (Nat.le_of_lt_succ inside)] at there
      obtain earlier | rfl := Nat.lt_succ_iff_lt_or_eq.mp inside
      · have listed := Array.mem_toList_iff.mpr (Array.mem_of_getElem? there)
        exact settles.isEvaluated
          (Store.hasFunction_of_node (ready.recorded.declared other listed))
          (evaluated _ earlier other there)
      · cases found.symm.trans there
        have listed := Array.mem_toList_iff.mpr (Array.mem_of_getElem? found)
        have defined := ready.recorded.declared entry listed
        exact Engine.evaluateFunction_evaluates
          (Store.noOverloadIs_of_hasOverload fun overload _ => idle overload)
          (by rw [defined]; exact Option.some_ne_none _) done

/-- After a module was analyzed successfully, every function that it declares is evaluated. -/
theorem ofModuleWithin_evaluates {module : Module} {globals : List Variable} {after : Progress}
    (returned : ofModuleWithin depth module environment Registry.start = .ok globals after) :
    Registry.start.Recounts module.charges after ∧
      ∀ entry ∈ after.symbols.functions.toList, after.store.IsEvaluated entry.function := by
  have ready : Registry.start.Awaits module.charges :=
    ⟨.start, fun id charged => absurd (List.count_pos_iff.mpr charged)
      (by rw [Module.charges, Charge.count_ofBlock_returned]; exact Nat.lt_irrefl 0)⟩
  have recounts := ofModuleWithin_costs Ledger.history depth module environment Registry.start ready
  rw [after_of_ok returned] at recounts
  refine ⟨recounts, ?_⟩
  rw [ofModuleWithin, inScope_apply, withCleanup] at returned
  split at returned
  · next result left found =>
    cases returned
    let opened : Progress := { Registry.start with
      scopes := (Registry.start.scopes.push .module .module none).2 }
    obtain ⟨_, named, attributes, rest⟩ := bind_eq_ok.mp found
    obtain ⟨_, walked, walks, rest⟩ := bind_eq_ok.mp rest
    obtain ⟨_, ended, evaluates, rest⟩ := bind_eq_ok.mp rest
    cases rest
    have readied : opened.Awaits module.charges :=
      Ledger.history.ready_of_agrees ready ⟨rfl, rfl, rfl⟩
    -- Until here nothing is being evaluated, and everything is paid for.
    have namedReady : named.Awaits module.charges := by
      have costs := declareAttributes_costs moduleAttributes environment opened
        (@Ledger.ready_left Ledger.history [] module.charges opened readied)
      rw [after_of_ok attributes] at costs
      exact @Ledger.onward Ledger.history [] module.charges opened named readied costs
    have walkedReady : walked.Awaits [] := by
      have costs := Engine.walkBlock_costs (Engine.atDepth_spends Ledger.history depth) .module
        module.body environment named namedReady
      rw [after_of_ok walks] at costs
      refine @Ledger.onward Ledger.history module.charges [] named walked ?_ costs
      rwa [List.append_nil]
    have begins : StoreRelation.settling.Relates opened.store named.store :=
      (declareAttributes_keeps moduleAttributes).respects.of_ok attributes
    have goesOn : StoreRelation.settling.Relates named.store walked.store :=
      (Engine.walkBlock_keeps (Engine.atDepth_respects .settling depth) Frame.module_owns
        module.body).respects.of_ok walks
    have idle := (begins.trans goesOn).idle Registry.idle_standard.not_evaluating
    have evaluated := evaluateDeclared_evaluates _ evaluates walkedReady idle
      fun _ impossible => absurd impossible (Nat.not_lt_zero _)
    exact evaluated
  · cases returned

end Analysis

/-- A module with a function that calls itself and is called twice, and with one that nothing
calls and that declares another one when it is evaluated. -/
def Module.calling : Module :=
  ⟨[.defineFunction 1 "again" [] [.ret (some (.call (.ofName "again") [] .unknown)) .unknown],
    .defineFunction 2 "alone" ["x"] [.defineFunction 3 "inner" [] [.returning "x"]],
    .define "v" (.call (.ofName "again") [] .unknown),
    .define "w" (.call (.ofName "again") [] .unknown)]⟩

namespace Analyzer

/-- How many functions a module declares, none if its analysis fails. This can be computed. -/
def declaredFunctions (module : Module) : Nat :=
  match (new {}).run (Analysis.ofModule module) with
  | .ok _ after => after.symbols.functions.size
  | .error _ _ => 0

end Analyzer

end TypeInference
