import TypeInference.Definitions.Frame
import TypeInference.Proofs.Continuity

/-!
# Analyses that proceed

The contract that every analysis of this library keeps, and the rules by which
composed analyses keep it. Reading changes nothing, neither does anything that
concerns scopes, symbols or diagnostics alone. A change of the store has to be
one that goes onward.
-/

namespace TypeInference

/-- An outcome that goes onward, calmly if it is a result. -/
def Store.Reached {α : Type} (confined calm : Prop) (origin : Store) :
    EStateM.Result Failure Progress α → Prop
  | .ok _ progress => Onward confined calm origin progress.store
  | .error _ progress => Onward confined False origin progress.store

/-- What goes onward from a store that goes onward does so from the origin. -/
theorem Store.Reached.trans {α : Type} {confined calm : Prop} {origin store : Store}
    {outcome : EStateM.Result Failure Progress α}
    (onward : Onward confined calm origin store)
    (reached : Reached confined calm store outcome) :
    Reached confined calm origin outcome := by
  cases outcome with
  | ok result progress => exact onward.trans reached
  | error failure progress => exact onward.relax.trans reached

/-- An analysis that never leaves what goes onward from an origin. If it gives a
result, it abandons no specialization. -/
def Analysis.Proceeds {α : Type} (confined : Prop) (origin : Store) (analysis : Analysis α) :
    Prop :=
  ∀ (environment : Environment) (calm : Prop) (before : Progress),
    Store.Onward confined calm origin before.store →
      Store.Reached confined calm origin (analysis environment before)

namespace Analysis.Proceeds

variable {α β : Type} {confined : Prop} {origin : Store}

/-- What is left, with a result or not, goes onward. -/
theorem onward_after {analysis : Analysis α} (proceeds : analysis.Proceeds confined origin)
    (calm : Prop) {before : Progress} (environment : Environment)
    (onward : Store.Onward confined calm origin before.store) :
    Store.Onward confined False origin (analysis.after environment before).store := by
  have outcome := proceeds environment calm before onward
  unfold after
  cases found : analysis environment before with
  | ok result progress =>
    rw [found] at outcome
    exact Store.Onward.relax outcome
  | error failure progress =>
    rw [found] at outcome
    exact outcome

/-- An analysis that gives a result and leaves the store alone proceeds. -/
theorem of_still {analysis : Analysis α}
    (still : ∀ environment before, ∃ result progress,
      analysis environment before = .ok result progress ∧ progress.store = before.store) :
    analysis.Proceeds confined origin := by
  intro environment calm before onward
  obtain ⟨result, progress, returned, same⟩ := still environment before
  rw [returned]
  simp only [Store.Reached, same]
  exact onward

theorem pure (result : α) : (Pure.pure result : Analysis α).Proceeds confined origin :=
  of_still fun _ before => ⟨result, before, rfl, rfl⟩

theorem throw (failure : Failure) :
    (throw failure : Analysis α).Proceeds confined origin :=
  fun _ _ _ onward => onward.relax

theorem bind {first : Analysis α} {next : α → Analysis β}
    (proceeds : first.Proceeds confined origin)
    (onwards : ∀ result, (next result).Proceeds confined origin) :
    (first >>= next).Proceeds confined origin := by
  intro environment calm before onward
  rw [bind_apply]
  have outcome := proceeds environment calm before onward
  cases found : first environment before with
  | ok result progress =>
    rw [found] at outcome
    exact onwards result environment calm progress outcome
  | error failure progress =>
    rw [found] at outcome
    exact outcome

theorem store : Analysis.store.Proceeds confined origin :=
  of_still fun _ before => ⟨before.store, before, rfl, rfl⟩

theorem scopes : Analysis.scopes.Proceeds confined origin :=
  of_still fun _ before => ⟨before.scopes, before, rfl, rfl⟩

theorem options : Analysis.options.Proceeds confined origin :=
  of_still fun environment before => ⟨environment.options, before, rfl, rfl⟩

theorem get : (get : Analysis Progress).Proceeds confined origin :=
  of_still fun _ before => ⟨before, before, rfl, rfl⟩

/-- Reading the environment. -/
theorem read : (read : Analysis Environment).Proceeds confined origin :=
  of_still fun environment before => ⟨environment, before, rfl, rfl⟩

/-- A change that leaves the store alone. -/
theorem modify {change : Progress → Progress}
    (still : ∀ progress, (change progress).store = progress.store) :
    (modify change : Analysis Unit).Proceeds confined origin :=
  of_still fun _ before => ⟨(), change before, rfl, still before⟩

/-- A change of the scopes. -/
theorem onScopes (change : Scopes → α × Scopes) :
    (Analysis.onScopes change).Proceeds confined origin :=
  of_still fun _ before => ⟨_, { before with scopes := (change before.scopes).2 }, rfl, rfl⟩

/-- A change of the store that goes onward. -/
theorem modifyStore {change : Store → Store}
    (onwards : ∀ calm store, Store.Onward confined calm origin store →
      Store.Onward confined calm origin (change store)) :
    (Analysis.modifyStore change).Proceeds confined origin :=
  fun _ calm before onward => onwards calm before.store onward

/-- A change of the store with a result that goes onward. -/
theorem onStore {change : Store → α × Store}
    (onwards : ∀ calm store, Store.Onward confined calm origin store →
      Store.Onward confined calm origin (change store).2) :
    (Analysis.onStore change).Proceeds confined origin :=
  fun _ calm before onward => onwards calm before.store onward

/-- An analysis that reads the store, and goes onward from exactly what it reads. -/
theorem of_read {next : Store → Analysis β}
    (onwards : ∀ (environment : Environment) (calm : Prop) (before : Progress),
      Store.Onward confined False origin before.store →
        Store.Reached confined calm before.store (next before.store environment before)) :
    (Analysis.store >>= next).Proceeds confined origin :=
  fun environment calm before onward =>
    .trans onward (onwards environment calm before onward.relax)

/-- An analysis that proceeds from every store that it may read. -/
theorem of_store {next : Store → Analysis β}
    (onwards : ∀ store, Store.Onward confined False origin store →
      (next store).Proceeds confined store) :
    (Analysis.store >>= next).Proceeds confined origin :=
  of_read fun environment calm before onward =>
    onwards before.store onward environment calm before (.refl onward.owned)

/-- What ends in a fault or gives a result. -/
theorem orFault (result : Except Fault α) :
    (Analysis.orFault result).Proceeds confined origin := by
  cases result with
  | ok result => exact .pure result
  | error cause => exact .throw _

/-- A change of the scopes that may end in a fault. -/
theorem changeScopes (change : Scopes → Except Fault Scopes) :
    (Analysis.changeScopes change).Proceeds confined origin :=
  .bind .scopes fun _ => .bind (.orFault _) fun _ => .modify fun _ => rfl

theorem declare (name : String) (value : Value) (kind : VariableKind) (node : Option NodeId)
    (span : Span) : (Analysis.declare name value kind node span).Proceeds confined origin :=
  .changeScopes _

theorem lookupName? (name : String) (reach : Reach) :
    (Analysis.lookupName? name reach).Proceeds confined origin := by
  refine .bind .read fun _ => .bind (.onScopes _) fun found => ?_
  split <;> exact .pure _

theorem qualifiedName (name : String) :
    (Analysis.qualifiedName name).Proceeds confined origin :=
  .bind .get fun _ => .bind .options fun _ => .pure _

theorem report (lint : Lint) (span : Span) :
    (Analysis.report lint span).Proceeds confined origin :=
  .bind .options fun _ => .modify fun _ => rfl

/-- An analysis in a scope of its own. -/
theorem inScope {node : NodeId} {kind : ScopeKind} {parent : Option ScopeId}
    {body : ScopeId → Analysis α} (proceeds : ∀ id, (body id).Proceeds confined origin) :
    (Analysis.inScope node kind parent body).Proceeds confined origin := by
  refine .bind .scopes fun scopes => .bind (.onScopes _) fun id => ?_
  intro environment calm before onward
  have outcome := proceeds id environment calm before onward
  unfold withCleanup
  cases found : body id environment before with
  | ok result progress =>
    rw [found] at outcome
    exact outcome
  | error failure progress =>
    rw [found] at outcome
    exact outcome

/-- An attribute that is set on a class that may own it. -/
theorem setAttribute {owner : ClassId} (mayOwn : origin.MayOwn confined owner) (name : String)
    (value : Value) : (Analysis.setAttribute owner name value).Proceeds confined origin := by
  refine .modifyStore fun calm store onward => ?_
  split
  · split
    · exact onward.setMember owner name value true mayOwn
    · exact onward
  · exact onward.setMember owner name value true mayOwn

end Analysis.Proceeds

end TypeInference
