import Mathlib.Data.List.Basic
import TypeInference.Proofs.Lexical
import TypeInference.Proofs.ScopeOperations

/-!
# Forgotten local variables

The scope of a function whose evaluation is over may lose its variables. Whether it does
cannot be seen as long as no open scope is inside of it: names are looked up and declared in
the current scope and around it, and the scopes that are opened and closed are the same.
So everything that is done with scopes commutes with forgetting.
-/

namespace TypeInference

namespace Scopes

/-- The scope of a function that is not open. -/
def Finished (scopes : Scopes) (id : ScopeId) : Prop :=
  (scopes.scopeAt id).kind = .functionBody ∧ id ∉ scopes.stack

instance (scopes : Scopes) (id : ScopeId) : Decidable (scopes.Finished id) :=
  inferInstanceAs (Decidable (_ ∧ _))

/-- The scopes without the variables of those functions that are not open. -/
def forget (scopes : Scopes) : Scopes :=
  { scopes with
    all := scopes.all.mapIdx fun index scope =>
      if scopes.Finished ⟨index⟩ then { scope with entries := [] } else scope }

/-- No scope around the current one is finished. -/
def Surrounded (scopes : Scopes) : Prop :=
  ∀ id, scopes.current? = some id → ∀ outer ∈ scopes.around id, ¬scopes.Finished outer

section Forget

variable (scopes : Scopes)

@[simp] theorem size_forget : scopes.forget.all.size = scopes.all.size :=
  Array.size_mapIdx

theorem scopeAt_forget (id : ScopeId) :
    scopes.forget.scopeAt id =
      if scopes.Finished id then { scopes.scopeAt id with entries := [] }
      else scopes.scopeAt id := by
  unfold forget scopeAt
  rw [Array.getElem?_mapIdx]
  cases found : scopes.all[id.index]? with
  | some scope => simp
  | none =>
    have unfinished : ¬scopes.Finished id := by
      rintro ⟨kind, -⟩
      rw [scopeAt, found] at kind
      cases kind
    simp [unfinished]

variable {scopes}

/-- A scope that is not finished keeps its variables. -/
theorem scopeAt_forget_of_unfinished {id : ScopeId} (kept : ¬scopes.Finished id) :
    scopes.forget.scopeAt id = scopes.scopeAt id := by
  rw [scopeAt_forget, if_neg kept]

theorem not_finished_of_mem {id : ScopeId} (opened : id ∈ scopes.stack) : ¬scopes.Finished id :=
  fun finished => finished.2 opened

theorem not_finished_of_kind {id : ScopeId} (other : (scopes.scopeAt id).kind ≠ .functionBody) :
    ¬scopes.Finished id :=
  fun finished => other finished.1

/-- The current scope is open. -/
theorem mem_of_current? {id : ScopeId} (current : scopes.current? = some id) :
    id ∈ scopes.stack :=
  List.mem_of_head? current

variable (scopes)

@[simp] theorem kind_forget (id : ScopeId) :
    (scopes.forget.scopeAt id).kind = (scopes.scopeAt id).kind := by
  rw [scopeAt_forget]
  split <;> rfl

@[simp] theorem node_forget (id : ScopeId) :
    (scopes.forget.scopeAt id).node = (scopes.scopeAt id).node := by
  rw [scopeAt_forget]
  split <;> rfl

@[simp] theorem parent_forget (id : ScopeId) :
    (scopes.forget.scopeAt id).parent = (scopes.scopeAt id).parent := by
  rw [scopeAt_forget]
  split <;> rfl

/-- The first scope with a property that is not about variables. -/
theorem findIdx?_forget {property : Scope → Bool}
    (blind : ∀ scope : Scope, property { scope with entries := [] } = property scope) :
    scopes.forget.all.findIdx? property = scopes.all.findIdx? property := by
  have same : scopes.forget.all.map property = scopes.all.map property := by
    refine Array.map_eq_iff.mpr fun index => ?_
    rw [Array.getElem?_map]
    unfold forget
    rw [Array.getElem?_mapIdx]
    cases scopes.all[index]? with
    | none => rfl
    | some scope =>
      by_cases finished : scopes.Finished ⟨index⟩
      · simp [finished, blind]
      · simp [finished]
  have through (scopes : Array Scope) :
      scopes.findIdx? property = (scopes.map property).findIdx? id := by
    rw [Array.findIdx?_map]
    rfl
  rw [through, same, ← through]

@[simp] theorem scopeOf?_forget (node : NodeId) :
    scopes.forget.scopeOf? node = scopes.scopeOf? node := by
  unfold scopeOf?
  rw [findIdx?_forget]
  exact fun _ => rfl

@[simp] theorem moduleScope?_forget : scopes.forget.moduleScope? = scopes.moduleScope? := by
  unfold moduleScope?
  rw [findIdx?_forget]
  exact fun _ => rfl

@[simp] theorem around_forget (id : ScopeId) : scopes.forget.around id = scopes.around id :=
  around_congr (by simp) (by simp) id

end Forget

/-- The scope of a module is not the scope of a function. -/
theorem not_finished_module {scopes : Scopes} {id : ScopeId}
    (found : scopes.moduleScope? = some id) : ¬scopes.Finished id := by
  obtain ⟨index, first, rfl⟩ := Option.map_eq_some_iff.mp found
  obtain ⟨inside, kind, -⟩ := Array.findIdx?_eq_some_iff_getElem.mp first
  have kind := of_decide_eq_true kind
  apply not_finished_of_kind
  simp [scopeAt, Array.getElem?_eq_getElem inside, kind]

/-- A change of a scope that is not finished, other than of its kind. -/
theorem forget_modifyScope {scopes : Scopes} {id : ScopeId} (kept : ¬scopes.Finished id)
    {change : Scope → Scope} (keeps : ∀ scope, (change scope).kind = scope.kind) :
    (scopes.modifyScope id change).forget = scopes.forget.modifyScope id change := by
  have kind (other : ScopeId) :
      ((scopes.modifyScope id change).scopeAt other).kind = (scopes.scopeAt other).kind := by
    rw [scopeAt_modifyScope]
    split
    · exact keeps _
    · rfl
  have finished (other : ScopeId) :
      (scopes.modifyScope id change).Finished other ↔ scopes.Finished other := by
    unfold Finished
    rw [kind, stack_modifyScope]
  refine ext_scopeAt rfl (by simp [size_modifyScope]) fun other => ?_
  rw [scopeAt_forget, scopeAt_modifyScope, scopeAt_modifyScope, size_forget, scopeAt_forget]
  simp only [finished]
  by_cases same : other = id
  · subst same
    simp [kept]
  · simp [same]

/-- What a name means in the current scope, apart from the scopes around. -/
theorem findHere?_forget {scopes : Scopes} {id : ScopeId}
    (current : scopes.current? = some id) (name : String)
    (reach : Reach) : scopes.forget.findHere? id name reach = scopes.findHere? id name reach := by
  have here := scopeAt_forget_of_unfinished (not_finished_of_mem (mem_of_current? current))
  have module : scopes.moduleScope?.bind (scopes.forget.variableIn? name) =
      scopes.moduleScope?.bind (scopes.variableIn? name) := by
    cases found : scopes.moduleScope? with
    | none => rfl
    | some module =>
      simp [variableIn?, scopeAt_forget_of_unfinished (not_finished_module found)]
  unfold findHere?
  rw [here, moduleScope?_forget, module]
  simp only [variableIn?, here]

section Names

variable {scopes : Scopes} (surrounded : scopes.Surrounded)

include surrounded

/-- A redirected name is found in the same scope. -/
theorem redirect_forget {id : ScopeId} (current : scopes.current? = some id) (name : String)
    (kind : VariableKind) : scopes.forget.redirect id name kind = scopes.redirect id name kind := by
  have here := scopeAt_forget_of_unfinished (not_finished_of_mem (mem_of_current? current))
  have enclosing :
      scopes.forget.enclosingFunction? id name = scopes.enclosingFunction? id name := by
    unfold enclosingFunction?
    simp only [around_forget, kind_forget]
    rw [← List.head?_filter, ← List.head?_filter]
    congr 2
    apply List.filter_congr
    intro outer listed
    have around := (List.mem_filter.mp listed).1
    rw [scopeAt_forget_of_unfinished (surrounded id current outer around)]
  unfold redirect
  rw [here, moduleScope?_forget, enclosing]

/-- What a name of the current scope is redirected to is not finished. -/
theorem not_finished_redirect {id : ScopeId} (current : scopes.current? = some id) (name : String)
    (kind : VariableKind) : ¬scopes.Finished (scopes.redirect id name kind).1 := by
  have here := not_finished_of_mem (mem_of_current? current)
  unfold redirect
  dsimp only
  split
  · cases found : scopes.moduleScope? with
    | none => exact here
    | some module => exact not_finished_module found
  · split
    · cases found : scopes.enclosingFunction? id name with
      | none => exact here
      | some outer =>
        refine surrounded id current outer ?_
        unfold enclosingFunction? at found
        rcases Option.or_eq_some_iff.mp found with named | ⟨-, nearest⟩
        · exact (List.mem_filter.mp (List.mem_of_find?_eq_some named)).1
        · exact (List.mem_filter.mp (List.mem_of_head? nearest)).1
    · exact here

/-- A declaration commutes with forgetting. -/
theorem declare_forget (name : String) (value : Value) (kind : VariableKind)
    (node : Option NodeId) (span : Span) :
    scopes.forget.declare name value kind node span =
      (scopes.declare name value kind node span).map forget := by
  have same : scopes.forget.current? = scopes.current? := rfl
  unfold declare current
  rw [same]
  cases current : scopes.current? with
  | none => rfl
  | some id =>
    have kept := not_finished_redirect surrounded current name kind
    simp only [Except.bind, bind, Except.map, pure, Except.pure,
      redirect_forget surrounded current]
    rw [forget_modifyScope kept]
    exact fun _ => rfl

/-- What a name means in the scopes around the current one. -/
theorem findAround?_forget {id : ScopeId} (current : scopes.current? = some id) (name : String)
    (reach : Reach) :
    scopes.forget.findAround? id name reach = scopes.findAround? id name reach := by
  unfold findAround?
  rw [around_forget, ← List.head?_filterMap, ← List.head?_filterMap]
  congr 1
  apply List.filterMap_congr
  intro outer around
  simp [variableIn?, scopeAt_forget_of_unfinished (surrounded id current outer around)]

/-- A look-up commutes with forgetting. -/
theorem lookup_forget (name : String) (reach : Reach) :
    scopes.forget.lookup name reach =
      ((scopes.lookup name reach).1, (scopes.lookup name reach).2.forget) := by
  have same : scopes.forget.current? = scopes.current? := rfl
  unfold lookup
  rw [same]
  cases current : scopes.current? with
  | none => rfl
  | some id =>
    have kept := not_finished_of_mem (mem_of_current? current)
    have free (found : ScopeId) :
        scopes.forget.recordFree id name found = (scopes.recordFree id name found).forget := by
      unfold recordFree
      rw [kind_forget, apply_ite forget, forget_modifyScope kept]
      intro scope
      unfold Scope.markFree
      split <;> rfl
    dsimp only
    rw [findHere?_forget current, scopeAt_forget_of_unfinished kept]
    cases scopes.findHere? id name reach with
    | some found => rfl
    | none =>
      dsimp only
      split
      · rfl
      · rw [findAround?_forget surrounded current]
        cases scopes.findAround? id name reach with
        | none => rfl
        | some found => simp only [free]

end Names

section Redirections

variable (scopes : Scopes) (name : String)

/-- A change of the current scope commutes with forgetting. -/
theorem forget_changeCurrent {change : Scope → Scope}
    (keeps : ∀ scope, (change scope).kind = scope.kind) :
    (do return scopes.forget.modifyScope (← scopes.forget.current) change : Except Fault Scopes) =
      (do return scopes.modifyScope (← scopes.current) change : Except Fault Scopes).map
        forget := by
  have same : scopes.forget.current? = scopes.current? := rfl
  unfold current
  rw [same]
  cases current : scopes.current? with
  | none => rfl
  | some id =>
    have kept := not_finished_of_mem (mem_of_current? current)
    exact congrArg Except.ok (forget_modifyScope kept keeps).symm

theorem declareGlobal_forget :
    scopes.forget.declareGlobal name = (scopes.declareGlobal name).map forget := by
  apply forget_changeCurrent
  intro scope
  unfold Scope.redirectGlobal
  split <;> rfl

theorem declareNonlocal_forget :
    scopes.forget.declareNonlocal name = (scopes.declareNonlocal name).map forget := by
  apply forget_changeCurrent
  intro scope
  unfold Scope.redirectNonlocal
  split <;> rfl

end Redirections

section Stack

variable {scopes : Scopes}

/-- The scope of a node is opened in the same way, if it is created or is not the scope of a
function. -/
theorem push_forget (node : NodeId) (kind : ScopeKind) (parent : Option ScopeId)
    (other : ∀ id, scopes.scopeOf? node = some id → (scopes.scopeAt id).kind ≠ .functionBody) :
    scopes.forget.push node kind parent =
      ((scopes.push node kind parent).1, (scopes.push node kind parent).2.forget) := by
  cases known : scopes.scopeOf? node with
  | some id =>
    rw [push_of_known ((scopeOf?_forget scopes node).trans known), push_of_known known]
    let reopened : Scopes := { scopes with stack := id :: scopes.stack }
    have finished (outer : ScopeId) : reopened.Finished outer ↔ scopes.Finished outer := by
      constructor
      · rintro ⟨function, closed⟩
        exact ⟨function, fun opened => closed (List.mem_cons_of_mem _ opened)⟩
      · rintro ⟨function, closed⟩
        refine ⟨function, fun opened => ?_⟩
        rcases List.mem_cons.mp opened with rfl | opened
        · exact other _ known function
        · exact closed opened
    refine congrArg (Prod.mk id) (ext_scopeAt rfl (by simp) fun outer => ?_)
    change scopes.forget.scopeAt outer = reopened.forget.scopeAt outer
    rw [scopeAt_forget, scopeAt_forget]
    simp only [finished]
    rfl
  | none =>
    rw [push_of_new ((scopeOf?_forget scopes node).trans known), push_of_new known, size_forget]
    let created : Scope := { kind, node, parent := parent.or scopes.current? }
    have stack : (scopes.forget.create created).stack = (scopes.create created).forget.stack :=
      congrArg (fun size => (⟨size⟩ : ScopeId) :: scopes.stack) (size_forget scopes)
    refine congrArg (Prod.mk _) (ext_scopeAt stack (by simp) fun outer => ?_)
    change (scopes.forget.create created).scopeAt outer =
      (scopes.create created).forget.scopeAt outer
    rw [scopeAt_create, size_forget, scopeAt_forget, scopeAt_forget, scopeAt_create]
    by_cases last : outer.index = scopes.all.size
    · simp only [last, if_true]
      split <;> rfl
    · have finished : (scopes.create created).Finished outer ↔ scopes.Finished outer := by
        have apart : outer ≠ ⟨scopes.all.size⟩ := fun equal => last (congrArg ScopeId.index equal)
        unfold Finished
        rw [scopeAt_create, if_neg last]
        simp [create, apart]
      simp only [last, if_false, finished]

variable {opened : ScopeId} {stack : List ScopeId} (innermost : scopes.stack = opened :: stack)

include innermost

theorem stack_truncate_cons : (scopes.truncate stack.length).stack = stack :=
  truncate_of_suffix scopes [opened] stack innermost

/-- The scope of a class, a comprehension or a module is closed in the same way. -/
theorem truncate_forget (other : (scopes.scopeAt opened).kind ≠ .functionBody) :
    scopes.forget.truncate stack.length = (scopes.truncate stack.length).forget := by
  refine ext_scopeAt rfl (by simp [truncate]) fun id => ?_
  change scopes.forget.scopeAt id = _
  rw [scopeAt_forget, scopeAt_forget]
  have finished : (scopes.truncate stack.length).Finished id ↔ scopes.Finished id := by
    unfold Finished
    rw [stack_truncate_cons innermost, innermost, List.mem_cons, not_or]
    constructor
    · rintro ⟨function, closed⟩
      refine ⟨function, ?_, closed⟩
      rintro rfl
      exact other function
    · rintro ⟨function, -, closed⟩
      exact ⟨function, closed⟩
  simp only [finished]
  rfl

/-- The scope of a function is closed and forgotten, or emptied and closed. -/
theorem clear_truncate_forget (kind : (scopes.scopeAt opened).kind = .functionBody)
    (new : opened ∉ stack) :
    (scopes.forget.clearVariables opened).truncate stack.length =
      (scopes.truncate stack.length).forget := by
  refine ext_scopeAt rfl (by simp [truncate, clearVariables, size_modifyScope]) fun id => ?_
  change (scopes.forget.modifyScope opened _).scopeAt id = _
  rw [scopeAt_modifyScope, scopeAt_forget, scopeAt_forget, size_forget]
  change _ = if (scopes.truncate stack.length).Finished id then
    { scopes.scopeAt id with entries := [] } else scopes.scopeAt id
  have inside : opened.index < scopes.all.size := by
    refine Decidable.byContradiction fun outside => ?_
    rw [scopeAt_of_size_le scopes opened (by omega)] at kind
    cases kind
  by_cases same : id = opened
  · subst same
    have open_ : ¬scopes.Finished id := not_finished_of_mem (by simp [innermost])
    have closed : (scopes.truncate stack.length).Finished id :=
      ⟨kind, by rwa [stack_truncate_cons innermost]⟩
    simp [inside, open_, closed]
  · have finished : (scopes.truncate stack.length).Finished id ↔ scopes.Finished id := by
      unfold Finished
      rw [stack_truncate_cons innermost, innermost, List.mem_cons, not_or]
      exact and_congr_right fun _ => (and_iff_right same).symm
    simp only [same, false_and, if_false, finished]

end Stack

end Scopes

/-- The progress without the variables of those functions that are not open. -/
def Progress.forget (progress : Progress) : Progress :=
  { progress with scopes := progress.scopes.forget }

namespace Analysis

/-- The open scope that definitions stand in, and those around it. -/
def outward (scopes : Scopes) : List ScopeId :=
  match scopes.current? with
  | some id => id :: scopes.around id
  | none => []

theorem outward_forget (scopes : Scopes) : outward scopes.forget = outward scopes := by
  unfold outward
  rw [show scopes.forget.current? = scopes.current? from rfl]
  split
  · rw [Scopes.around_forget]
  · rfl

theorem qualifiedName_apply (name : String) (environment : Environment) (before : Progress) :
    qualifiedName name environment before =
      .ok (qualifierAlong before environment.options.moduleName (outward before.scopes) ++ "." ++
        name) before := rfl

/-- Where a definition stands does not depend on variables. -/
theorem qualifiedName_forget (name : String) (environment : Environment) (before : Progress) :
    ∃ qualified, qualifiedName name environment before = .ok qualified before ∧
      qualifiedName name environment before.forget = .ok qualified before.forget := by
  have along (moduleName : String) (outward : List ScopeId) :
      qualifierAlong before.forget moduleName outward =
        qualifierAlong before moduleName outward := by
    induction outward with
    | nil => rfl
    | cons id outer inductionHypothesis =>
      unfold qualifierAlong
      rw [inductionHypothesis]
      simp only [Progress.forget, Scopes.kind_forget, Scopes.node_forget]
  refine ⟨_, qualifiedName_apply name environment before, ?_⟩
  rw [qualifiedName_apply, along, show before.forget.scopes = before.scopes.forget from rfl,
    outward_forget]

end Analysis

end TypeInference
