import TypeInference.Proofs.Caching

/-!
# What stays settled

An overload becomes pending only when it is declared, and functions are declared by statements.
Where no overload is pending, no function body is walked. So the evaluation of an expression leaves
none pending there, whatever it does to scopes and classes and whether it gives a value or fails.
-/

namespace TypeInference

open Analysis

namespace Store

/-- No overload is in a state if it is not among the states of a function. -/
theorem noOverloadIs_iff {store : Store} {state : OverloadState} : store.NoOverloadIs state ↔
    ∀ id, state ∉ (store.functionAt id).overloads.map (·.state) := by
  constructor
  · intro none id among
    obtain ⟨overload, listed, same⟩ := List.mem_map.mp among
    obtain ⟨place, inside, rfl⟩ := List.getElem_of_mem listed
    have there : store.HasOverload ⟨id, place⟩ := inside
    refine none.state_ne there ?_
    rw [overloadAt, List.getElem?_eq_getElem inside]
    exact same
  · intro none
    refine noOverloadIs_of_hasOverload fun id there same => none id.function ?_
    have inside : id.index < (store.functionAt id.function).overloads.length := there
    rw [overloadAt, List.getElem?_eq_getElem inside] at same
    exact List.mem_map.mpr ⟨_, List.getElem_mem inside, same⟩

/-- What overloads are evaluated as far is settled alike. -/
theorem NoOverloadIs.of_alike {before after : Store} {state : OverloadState}
    (none : before.NoOverloadIs state) (alike : before.Alike after) : after.NoOverloadIs state := by
  rw [noOverloadIs_iff] at none ⊢
  exact fun id => alike.states id ▸ none id

end Store

/-- An analysis that leaves no overload pending where none was, whether it gives a result or fails.
-/
def Analysis.StaysSettled {α : Type} (analysis : Analysis α) : Prop :=
  ∀ (environment : Environment) (before : Progress), before.store.NoOverloadIs .pending →
    (analysis.after environment before).store.NoOverloadIs .pending

namespace Analysis.StaysSettled

variable {α β : Type}

/-- An analysis that changes no functions. -/
theorem of_alike {analysis : Analysis α} (alike : ∀ environment (before : Progress),
    before.store.Alike (analysis.after environment before).store) : analysis.StaysSettled :=
  fun environment before settled => settled.of_alike (alike environment before)

theorem pure (result : α) : (Pure.pure result : Analysis α).StaysSettled :=
  fun _ _ settled => settled

theorem bind {first : Analysis α} {next : α → Analysis β} (begins : first.StaysSettled)
    (continues : ∀ result, (next result).StaysSettled) : (first >>= next).StaysSettled := by
  intro environment before settled
  have middle := begins environment before settled
  rcases after_bind_cases first next environment before with ⟨_, stops⟩ | ⟨result, _, goesOn⟩
  · exact stops ▸ middle
  · rw [goesOn]
    exact continues result environment _ middle

theorem modifyStore {change : Store → Store} (alike : ∀ store : Store, store.Alike (change store)) :
    (Analysis.modifyStore change).StaysSettled :=
  .of_alike fun _ before => alike before.store

theorem changeScopes (change : Scopes → Except Fault Scopes) :
    (Analysis.changeScopes change).StaysSettled := by
  refine .of_alike fun environment before => ?_
  obtain ⟨scopes, same⟩ := after_changeScopes change environment before
  rw [same]
  exact .refl _

theorem lookupName? (name : String) (reach : Reach) :
    (Analysis.lookupName? name reach).StaysSettled := by
  refine .of_alike fun environment before => ?_
  rw [after_of_ok (lookupName?_apply name reach environment before)]
  exact .refl _

theorem inScope {node : NodeId} {kind : ScopeKind} {body : ScopeId → Analysis α}
    (inside : ∀ id, (body id).StaysSettled) :
    (Analysis.inScope node kind none body).StaysSettled := by
  intro environment before settled
  rw [after_inScope]
  exact inside (before.scopes.push node kind none).1 environment
    { before with scopes := (before.scopes.push node kind none).2 } settled

/-- A class is created, which has no functions, and given its bases. -/
theorem createClass (definition : ClassDefinition) :
    (Engine.createClass definition).StaysSettled :=
  fun _ _ settled => settled

theorem giveBases {engine : Engine} {bases : List Expression}
    (based : (engine.evaluateBases bases).StaysSettled) (id : ClassId) :
    (engine.giveBases id bases).StaysSettled :=
  .bind based fun _ => .modifyStore fun store =>
    (store.alike_setBases id _).trans (Store.alike_modifyClass _ id fun _ => rfl)

end Analysis.StaysSettled

/-- The logic of what stays settled. It declares no functions. -/
def Logic.stillness : Logic where
  Index := Unit
  World := Unit
  Later _ _ := True
  later_refl _ := trivial
  later_trans _ _ := trivial
  Near _ _ := True
  near_of_later _ := trivial
  near_trans _ _ := trivial
  Known _ := .every
  known_later _ _ known := known
  Holds _ _ _ analyses := (analyses ()).StaysSettled
  pure _ := .pure _
  bind begins continues := .bind begins fun result =>
    @continues () trivial result (within_every result)
  reads continues environment before :=
    @continues () trivial before.store (within_every _) (.of_union (fun _ => trivial) _) environment
      before
  MayOpen _ _ := True
  mayOpen_later _ _ := id
  MayDefine _ _ := False
  mayDefine_later _ _ := id
  options _ holds environment := holds environment.options environment
  lookupName? _ _ := .lookupName? _ _
  declare _ _ _ _ _ _ := .changeScopes _
  redirectGlobal _ := .changeScopes _
  redirectNonlocal _ := .changeScopes _
  report _ _ := .of_alike fun _ _ => .refl _
  changeFunction function _ same _ := .modifyStore fun store =>
    store.alike_modifyFunction function (fun record => (same store record).1.node)
      fun record => (same store record).2
  setMember _ _ _ _ _ _ := .modifyStore fun store => store.alike_addMember _ _ _ _
  setAttribute _ _ _ _ := .modifyStore fun store => store.alike_withAttribute _ _ _
  declaredClass _ := .of_alike fun _ _ => .refl _
  createClass definition _ _ based continues :=
    .bind (.createClass definition) fun id => .bind (.giveBases (@based () trivial) id) fun _ =>
      @continues () trivial id trivial
  inScope _ _ body := .inScope body
  declareFunction _ impossible _ _ := impossible.elim

namespace Engine

/-- The engine of every depth keeps to it, since it has nothing to evaluate. -/
theorem atDepth_stillness (depth : Nat) :
    Logic.stillness.Follows (fun _ => Engine.atDepth depth) () where
  evaluates _ function _ environment before settled := by
    have caches : ((Engine.atDepth depth).evaluateFunction function).Caches none :=
      (atDepth_caching depth).evaluateFunction trivial
    exact (caches environment before settled).stores.settled settled
  specializes _ id arguments _ _ environment before settled :=
    (specialize_caches depth id arguments environment before settled).stores.settled settled

/-- An expression leaves no overload pending where none was. -/
theorem evaluate_staysSettled (depth : Nat) (reach : Reach) (expression : Expression) :
    ((Engine.atDepth depth).evaluate reach expression).StaysSettled :=
  evaluate_holds (atDepth_stillness depth) reach fun _ _ _ _ => trivial

end Engine

end TypeInference
