import TypeInference.Analysis.Monad
import TypeInference.Proofs.Flow

/-!
# What variables mention

A look-up finds only what was declared or registered, and a declaration adds only what is
declared. So the variables of all scopes refer to nothing but what the values refer to that they
were declared with. Where a scope is open, no change of the scopes ends in a fault.
-/

namespace TypeInference

instance : Refers Variable where
  Within known declared := Within known declared.value
  widen more _ within := Refers.widen more _ within
  all every _ := Refers.all every _

instance : Refers Scope where
  Within known scope := Within known scope.entries
  widen more _ within := Refers.widen more _ within
  all every _ := Refers.all every _

instance : Refers Scopes where
  Within known scopes := ∀ id, Within known (scopes.scopeAt id)
  widen more _ within := fun id => Refers.widen more _ (within id)
  all every _ _ := Refers.all every _

instance : Refers Registry where
  Within known registry := Within known registry.names.values
  widen more _ within := Refers.widen more _ within
  all every _ := Refers.all every _

variable {known : References}

section Scope

variable {scope : Scope}

theorem within_findVariable (within : Within known scope) (name : String) :
    Within known (scope.find? name) :=
  fun found given => within found (List.mem_of_find?_eq_some given)

theorem within_refine {existing again : Variable} (before : Within known existing)
    (given : Within known again) : Within known (existing.refine again) := by
  change Within known (if (again.value.isUnknown && !existing.value.isUnknown) = true
    then existing.value else again.value)
  exact within_ite before given

theorem within_insertVariable (within : Within known scope) {declared : Variable}
    (given : Within known declared) : Within known (scope.insert declared) := by
  have inVariables : ∀ {entries : List Variable}, Within known entries →
      Within known (Scope.declareIn declared entries) := by
    intro entries
    induction entries with
    | nil => exact fun _ => (within_cons _ _).mpr ⟨given, within_nil⟩
    | cons first rest inductionHypothesis =>
      intro within
      rw [within_cons] at within
      rw [Scope.declareIn]
      split
      · exact (within_cons _ _).mpr ⟨within_refine within.1 given, within.2⟩
      · exact (within_cons _ _).mpr ⟨within.1, inductionHypothesis within.2⟩
  exact inVariables within

end Scope

namespace Scopes

/-- Scopes with one place are one scope. -/
theorem eq_of_index {first second : ScopeId} (same : first.index = second.index) :
    first = second := by
  cases first
  cases second
  exact congrArg ScopeId.mk same

/-- A place where no scope is reads as the default one. -/
theorem scopeAt_of_size_le (scopes : Scopes) (id : ScopeId) (outside : scopes.all.size ≤ id.index) :
    scopes.scopeAt id = default := by
  simp [scopeAt, Array.getElem?_eq_none outside]

/-- Every scope after one of them is changed. -/
theorem scopeAt_modifyScope (scopes : Scopes) (changed id : ScopeId) (change : Scope → Scope) :
    (scopes.modifyScope changed change).scopeAt id =
      if id = changed ∧ id.index < scopes.all.size then change (scopes.scopeAt id)
      else scopes.scopeAt id := by
  unfold modifyScope scopeAt
  rw [Array.getElem?_modify]
  by_cases same : id = changed
  · subst same
    by_cases inside : id.index < scopes.all.size
    · simp [inside]
    · simp [inside]
  · have apart : changed.index ≠ id.index := fun equal => same (eq_of_index equal.symm)
    simp [same, apart]

theorem size_modifyScope (scopes : Scopes) (id : ScopeId) (change : Scope → Scope) :
    (scopes.modifyScope id change).all.size = scopes.all.size := by
  simp [modifyScope]

/-- With a scope open there is a current one. -/
theorem current_of_stack {scopes : Scopes} (opened : scopes.stack ≠ []) :
    ∃ id, scopes.current = .ok id := by
  cases stack : scopes.stack with
  | nil => exact absurd stack opened
  | cons id rest => exact ⟨id, by simp [current, current?, stack]⟩

end Scopes

section Scopes

variable {scopes : Scopes}

theorem within_modifyScope (within : Within known scopes) (id : ScopeId)
    {change : Scope → Scope}
    (keeps : ∀ scope : Scope, Within known scope → Within known (change scope)) :
    Within known (scopes.modifyScope id change) := by
  intro other
  rw [Scopes.scopeAt_modifyScope]
  exact within_ite (keeps _ (within other)) (within other)

/-- What keeps the variables of the changed scope. -/
theorem within_modifyScope_of_entries (within : Within known scopes) (id : ScopeId)
    {change : Scope → Scope} (same : ∀ scope, (change scope).entries = scope.entries) :
    Within known (scopes.modifyScope id change) := by
  refine within_modifyScope within id fun scope given => ?_
  change Within known (change scope).entries
  rw [same]
  exact given

theorem within_push (within : Within known scopes) (node : NodeId) (kind : ScopeKind)
    (parent : Option ScopeId) : Within known (scopes.push node kind parent).2 := by
  unfold Scopes.push
  split
  · exact within
  · intro id
    unfold Scopes.scopeAt
    dsimp only
    rw [Array.getElem?_push]
    split
    · exact within_nil
    · exact within id

theorem within_truncate (within : Within known scopes) (depth : Nat) :
    Within known (scopes.truncate depth) :=
  within

theorem within_variableIn? (within : Within known scopes) (name : String) (id : ScopeId)
    {found : ScopeId × Variable} (given : scopes.variableIn? name id = some found) :
    Within known found.2 := by
  obtain ⟨declared, there, rfl⟩ := Option.map_eq_some_iff.mp given
  exact within_findVariable (within id) name declared there

theorem within_findHere? (within : Within known scopes) (id : ScopeId) (name : String)
    (reach : Reach) {found : ScopeId × Variable}
    (given : scopes.findHere? id name reach = some found) : Within known found.2 := by
  unfold Scopes.findHere? at given
  dsimp only at given
  split at given
  · split at given
    · obtain ⟨module, -, there⟩ := Option.bind_eq_some_iff.mp given
      exact within_variableIn? within name module there
    · cases given
  · split at given
    · exact within_variableIn? within name id given
    · cases given

theorem within_findAround? (within : Within known scopes) (id : ScopeId) (name : String)
    (reach : Reach) {found : ScopeId × Variable}
    (given : scopes.findAround? id name reach = some found) : Within known found.2 := by
  obtain ⟨outer, -, there⟩ := List.exists_of_findSome?_eq_some given
  split at there
  · exact within_variableIn? within name outer there
  · cases there

theorem within_lookup (within : Within known scopes) (name : String) (reach : Reach) :
    (∀ found, (scopes.lookup name reach).1 = some found → Within known found.2) ∧
      Within known (scopes.lookup name reach).2 := by
  constructor
  · unfold Scopes.lookup
    intro found same
    split at same
    · cases same
    · next id _ =>
      split at same
      · next there here => exact within_findHere? within id name reach (here.trans same)
      · split at same
        · cases same
        · split at same
          · next there around => exact within_findAround? within id name reach (around.trans same)
          · cases same
  · rcases scopes.snd_lookup_cases name reach with same | ⟨id, marked⟩
    · rw [same]
      exact within
    · rw [marked]
      refine within_modifyScope_of_entries within id fun scope => ?_
      unfold Scope.markFree
      split <;> rfl

theorem within_declared (within : Within known scopes) (id : ScopeId) (name : String)
    {value : Value} (kind : VariableKind) (node : Option NodeId) (span : Span)
    (given : Within known value) :
    Within known (scopes.modifyScope (scopes.redirect id name kind).1 fun scope =>
      scope.insert { name, value, kind := (scopes.redirect id name kind).2, node, span }) :=
  within_modifyScope within _ fun _ scope => within_insertVariable scope given

theorem within_redirectedGlobal (within : Within known scopes) (id : ScopeId) (name : String) :
    Within known (scopes.modifyScope id fun scope => scope.redirectGlobal name) := by
  refine within_modifyScope_of_entries within _ fun scope => ?_
  unfold Scope.redirectGlobal
  split <;> rfl

theorem within_redirectedNonlocal (within : Within known scopes) (id : ScopeId) (name : String) :
    Within known (scopes.modifyScope id fun scope => scope.redirectNonlocal name) := by
  refine within_modifyScope_of_entries within _ fun scope => ?_
  unfold Scope.redirectNonlocal
  split <;> rfl

/-- A change from within the current scope, if there is one, keeps what its change of the scopes
keeps. -/
theorem within_fromCurrent {change : ScopeId → Scopes} {changed : Scopes}
    (keeps : ∀ id, Within known (change id))
    (done : (do let id ← scopes.current; return change id : Except Fault Scopes) = .ok changed) :
    Within known changed := by
  cases current : scopes.current with
  | error cause =>
    rw [current] at done
    cases done
  | ok id =>
    rw [current] at done
    cases done
    exact keeps id

theorem within_declare (within : Within known scopes) {name : String} {value : Value}
    {kind : VariableKind} {node : Option NodeId} {span : Span} (given : Within known value)
    {declared : Scopes} (done : scopes.declare name value kind node span = .ok declared) :
    Within known declared :=
  within_fromCurrent (fun id => within_declared within id name kind node span given) done

theorem within_declareGlobal (within : Within known scopes) {name : String}
    {declared : Scopes} (done : scopes.declareGlobal name = .ok declared) :
    Within known declared :=
  within_fromCurrent (fun id => within_redirectedGlobal within id name) done

theorem within_declareNonlocal (within : Within known scopes) {name : String}
    {declared : Scopes} (done : scopes.declareNonlocal name = .ok declared) :
    Within known declared :=
  within_fromCurrent (fun id => within_redirectedNonlocal within id name) done

end Scopes

/-- Scopes of which one is open, whose variables have known references only. -/
structure Scopes.Sound (known : References) (scopes : Scopes) : Prop where
  within : Within known scopes
  opened : scopes.stack ≠ []

namespace Scopes.Sound

variable {scopes : Scopes}

/-- With a scope open there is a current one to make a change from. -/
theorem fromCurrent (sound : scopes.Sound known) {change : ScopeId → Scopes}
    (keeps : ∀ id, Within known (change id)) (stack : ∀ id, (change id).stack = scopes.stack) :
    ∃ changed, (do let id ← scopes.current; return change id : Except Fault Scopes) =
      .ok changed ∧ Within known changed ∧ changed.stack = scopes.stack := by
  obtain ⟨id, current⟩ := current_of_stack sound.opened
  rw [current]
  exact ⟨change id, rfl, keeps id, stack id⟩

/-- A variable can be declared. -/
theorem declare (sound : scopes.Sound known) (name : String) {value : Value}
    (kind : VariableKind) (node : Option NodeId) (span : Span) (given : Within known value) :
    ∃ declared, scopes.declare name value kind node span = .ok declared ∧
      Within known declared ∧ declared.stack = scopes.stack :=
  sound.fromCurrent (fun id => within_declared sound.within id name kind node span given)
    fun _ => rfl

/-- A name can be redirected to the module. -/
theorem declareGlobal (sound : scopes.Sound known) (name : String) :
    ∃ declared, scopes.declareGlobal name = .ok declared ∧
      Within known declared ∧ declared.stack = scopes.stack :=
  sound.fromCurrent (fun id => within_redirectedGlobal sound.within id name) fun _ => rfl

/-- A name can be redirected to a function around. -/
theorem declareNonlocal (sound : scopes.Sound known) (name : String) :
    ∃ declared, scopes.declareNonlocal name = .ok declared ∧
      Within known declared ∧ declared.stack = scopes.stack :=
  sound.fromCurrent (fun id => within_redirectedNonlocal sound.within id name) fun _ => rfl

end Scopes.Sound

namespace Registry

/-- The references to registered functions and classes. -/
def references : References :=
  standard.store.references fun builtin => by cases builtin <;> decide +kernel

instance : DecidablePred references.Has :=
  inferInstanceAs (DecidablePred standard.store.Has)

/-- The registered classes refer to what is registered. -/
theorem all_classes_within :
    standard.store.classes.all (fun record => decide (Within references record)) = true := by
  decide +kernel

/-- The registered functions refer to what is registered. -/
theorem all_functions_within :
    standard.store.functions.all (fun record => decide (Within references record)) = true := by
  decide +kernel

/-- The registered names denote what refers to what is registered. -/
theorem within_registry_standard : Within references standard.registry := by
  change Within references standard.registry.names.values
  decide +kernel

theorem within_store_standard : Within references standard.store := by
  constructor
  · intro id
    exact of_decide_eq_true (classAt_of_all _ _ all_classes_within (by decide +kernel) id)
  · intro id
    by_cases present : standard.store.HasFunction id
    · have every := Array.all_eq_true.mp all_functions_within id.index present
      have inside : id.index < standard.store.functions.size := present
      rw [Store.functionAt, Array.getElem?_eq_getElem inside, Option.getD_some]
      exact of_decide_eq_true every
    · rw [Store.functionAt_of_not_hasFunction _ id present]
      refine ⟨within_nil, ?_⟩
      rintro _ ⟨⟩

end Registry

end TypeInference
