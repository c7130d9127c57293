import TypeInference.Analysis.Monad

/-!
# Outcomes of analyses

What an analysis changed stays changed when it fails, so a property of all runs
speaks about the outcome of an analysis whether that is a result or a failure.
The laws here say how the outcome of a composed analysis follows from those of
its parts; they are the only place where the monad is opened.
-/

namespace TypeInference.Analysis

variable {α β : Type}

/-- The progress that an analysis leaves, also when it fails. -/
def after (analysis : Analysis α) (environment : Environment) (before : Progress) : Progress :=
  match analysis environment before with
  | .ok _ progress => progress
  | .error _ progress => progress

/-- The progress left with a result. -/
theorem after_of_ok {analysis : Analysis α} {environment : Environment}
    {before progress : Progress} {result : α}
    (returned : analysis environment before = .ok result progress) :
    analysis.after environment before = progress := by
  simp [after, returned]

/-- The progress left with a failure. -/
theorem after_of_error {analysis : Analysis α} {environment : Environment}
    {before progress : Progress} {failure : Failure}
    (failed : analysis environment before = .error failure progress) :
    analysis.after environment before = progress := by
  simp [after, failed]

/-- Analyses that come to the same leave the same. -/
theorem after_congr {first second : Analysis α} {environment : Environment}
    {before middle : Progress} (same : first environment before = second environment middle) :
    first.after environment before = second.after environment middle := by
  rw [after, same, after]

/-- Whether an analysis gives some result. This can be computed. -/
def yields [DecidableEq α] (analysis : Analysis α) (environment : Environment)
    (before : Progress) (result : α) : Bool :=
  match analysis environment before with
  | .ok found _ => found = result
  | .error _ _ => false

/-- An analysis that gives some result, together with what it leaves. -/
theorem ok_of_yields [DecidableEq α] {analysis : Analysis α} {environment : Environment}
    {before : Progress} {result : α}
    (yields : analysis.yields environment before result = true) :
    analysis environment before = .ok result (analysis.after environment before) := by
  unfold Analysis.yields at yields
  unfold after
  cases found : analysis environment before with
  | ok given progress =>
    rw [found] at yields
    rw [of_decide_eq_true yields]
  | error failure progress =>
    rw [found] at yields
    cases yields

/-- The fault that an analysis fails with, if it does. This can be computed. -/
def fault? (analysis : Analysis α) (environment : Environment) (before : Progress) :
    Option Fault :=
  match analysis environment before with
  | .error (.fault fault) _ => some fault
  | _ => none

/-- An analysis that fails with a fault, together with what it leaves. -/
theorem error_of_fault? {analysis : Analysis α} {environment : Environment} {before : Progress}
    {fault : Fault} (fails : analysis.fault? environment before = some fault) :
    analysis environment before = .error (.fault fault) (analysis.after environment before) := by
  unfold fault? at fails
  unfold after
  cases found : analysis environment before with
  | ok result after =>
    rw [found] at fails
    cases fails
  | error failure after =>
    rw [found] at fails
    cases failure with
    | fault cause => rw [Option.some.inj fails]
    | tooDeep => cases fails

@[simp] theorem pure_apply (result : α) (environment : Environment) (before : Progress) :
    (pure result : Analysis α) environment before = .ok result before := rfl

@[simp] theorem throw_apply (failure : Failure) (environment : Environment) (before : Progress) :
    (throw failure : Analysis α) environment before = .error failure before := rfl

/-- The next analysis starts from what the first one left, unless that failed. -/
theorem bind_apply (first : Analysis α) (next : α → Analysis β) (environment : Environment)
    (before : Progress) :
    (first >>= next) environment before =
      match first environment before with
      | .ok result progress => next result environment progress
      | .error failure progress => .error failure progress := by
  change EStateM.bind (first environment) (fun result => next result environment) before = _
  unfold EStateM.bind
  cases first environment before <;> rfl

/-- A chain gives a result only if its first part does. -/
theorem bind_eq_ok {first : Analysis α} {next : α → Analysis β} {environment : Environment}
    {before after : Progress} {result : β} :
    (first >>= next) environment before = .ok result after ↔
      ∃ found middle, first environment before = .ok found middle ∧
        next found environment middle = .ok result after := by
  rw [bind_apply]
  cases first environment before with
  | ok found middle =>
    simp only [EStateM.Result.ok.injEq]
    constructor
    · intro returned
      exact ⟨found, middle, ⟨rfl, rfl⟩, returned⟩
    · rintro ⟨_, _, ⟨rfl, rfl⟩, returned⟩
      exact returned
  | error failure middle => simp

/-- What comes after a result. -/
theorem bind_of_ok {first : Analysis α} {environment : Environment} {before middle : Progress}
    {result : α} (returned : first environment before = .ok result middle)
    (next : α → Analysis β) :
    (first >>= next) environment before = next result environment middle := by
  rw [bind_apply, returned]

/-- Nothing comes after a failure. -/
theorem bind_of_error {first : Analysis α} {environment : Environment} {before left : Progress}
    {failure : Failure} (failed : first environment before = .error failure left)
    (next : α → Analysis β) : (first >>= next) environment before = .error failure left := by
  rw [bind_apply, failed]

/-- What is changed after a result. -/
theorem withCleanup_of_ok {body : Analysis α} {environment : Environment}
    {before after : Progress} {result : α}
    (returned : body environment before = .ok result after) (change : Progress → Progress) :
    withCleanup body change environment before = .ok result (change after) := by
  rw [withCleanup, returned]

/-- What is changed after a failure. -/
theorem withCleanup_of_error {body : Analysis α} {environment : Environment}
    {before left : Progress} {failure : Failure}
    (failed : body environment before = .error failure left) (change : Progress → Progress) :
    withCleanup body change environment before = .error failure (change left) := by
  rw [withCleanup, failed]

/-- What is changed at the end gives a result only if what was done before does. -/
theorem withCleanup_eq_ok {body : Analysis α} {change : Progress → Progress}
    {environment : Environment} {before after : Progress} {result : α} :
    withCleanup body change environment before = .ok result after ↔
      ∃ last, body environment before = .ok result last ∧ after = change last := by
  rw [withCleanup]
  cases body environment before with
  | ok found last =>
    simp only [EStateM.Result.ok.injEq]
    constructor
    · rintro ⟨rfl, rfl⟩
      exact ⟨last, ⟨rfl, rfl⟩, rfl⟩
    · rintro ⟨_, ⟨rfl, rfl⟩, rfl⟩
      exact ⟨rfl, rfl⟩
  | error failure last => simp

/-- A chain leaves what its first part leaves if that fails, and else what comes next leaves. -/
theorem after_bind_cases (first : Analysis α) (next : α → Analysis β) (environment : Environment)
    (before : Progress) :
    ((∃ failure, first environment before = .error failure (first.after environment before)) ∧
        (first >>= next).after environment before = first.after environment before) ∨
      ∃ result, first environment before = .ok result (first.after environment before) ∧
        (first >>= next).after environment before =
          (next result).after environment (first.after environment before) := by
  cases found : first environment before with
  | error failure left =>
    rw [after_of_error found]
    exact .inl ⟨⟨failure, rfl⟩, after_of_error (bind_of_error found next)⟩
  | ok result middle =>
    rw [after_of_ok found]
    exact .inr ⟨result, rfl, after_congr (bind_of_ok found next)⟩

/-- What is changed at the end is changed in any case. -/
theorem after_withCleanup (body : Analysis α) (change : Progress → Progress)
    (environment : Environment) (before : Progress) :
    (withCleanup body change).after environment before =
      change (body.after environment before) := by
  cases found : body environment before with
  | ok result last => rw [after_of_ok found, after_of_ok (withCleanup_of_ok found change)]
  | error failure last =>
    rw [after_of_error found, after_of_error (withCleanup_of_error found change)]

/-- A scope is opened, and closed after what is done in it. -/
theorem inScope_apply (node : NodeId) (kind : ScopeKind) (parent : Option ScopeId)
    (body : ScopeId → Analysis α) (environment : Environment) (before : Progress) :
    inScope node kind parent body environment before =
      withCleanup (body (before.scopes.push node kind parent).1)
        (fun after => { after with scopes := after.scopes.truncate before.scopes.depth })
        environment { before with scopes := (before.scopes.push node kind parent).2 } := rfl

/-- What is done in a scope leaves the scope closed. -/
theorem after_inScope (node : NodeId) (kind : ScopeKind) (parent : Option ScopeId)
    (body : ScopeId → Analysis α) (environment : Environment) (before : Progress) :
    (inScope node kind parent body).after environment before =
      let inside := (body (before.scopes.push node kind parent).1).after environment
        { before with scopes := (before.scopes.push node kind parent).2 }
      { inside with scopes := inside.scopes.truncate before.scopes.depth } :=
  after_withCleanup _ _ environment _

@[simp] theorem store_apply (environment : Environment) (before : Progress) :
    store environment before = .ok before.store before := rfl

@[simp] theorem scopes_apply (environment : Environment) (before : Progress) :
    scopes environment before = .ok before.scopes before := rfl

@[simp] theorem options_apply (environment : Environment) (before : Progress) :
    options environment before = .ok environment.options before := rfl

@[simp] theorem get_apply (environment : Environment) (before : Progress) :
    (get : Analysis Progress) environment before = .ok before before := rfl

@[simp] theorem read_apply (environment : Environment) (before : Progress) :
    (read : Analysis Environment) environment before = .ok environment before := rfl

@[simp] theorem modify_apply (change : Progress → Progress) (environment : Environment)
    (before : Progress) :
    (modify change : Analysis Unit) environment before = .ok () (change before) := rfl

@[simp] theorem modifyStore_apply (change : Store → Store) (environment : Environment)
    (before : Progress) :
    modifyStore change environment before =
      .ok () { before with store := change before.store } := rfl

@[simp] theorem onStore_apply (change : Store → α × Store) (environment : Environment)
    (before : Progress) :
    onStore change environment before =
      .ok (change before.store).1 { before with store := (change before.store).2 } := rfl

@[simp] theorem onScopes_apply (change : Scopes → α × Scopes) (environment : Environment)
    (before : Progress) :
    onScopes change environment before =
      .ok (change before.scopes).1 { before with scopes := (change before.scopes).2 } := rfl

/-- A change of the scopes that can be made is made. -/
theorem changeScopes_of_ok {change : Scopes → Except Fault Scopes} (environment : Environment)
    {before : Progress} {scopes : Scopes} (changed : change before.scopes = .ok scopes) :
    changeScopes change environment before = .ok () { before with scopes } := by
  simp only [changeScopes, bind_apply, scopes_apply, changed]
  rfl

/-- One that cannot be made is a fault. -/
theorem changeScopes_of_error {change : Scopes → Except Fault Scopes} (environment : Environment)
    {before : Progress} {fault : Fault} (changed : change before.scopes = .error fault) :
    changeScopes change environment before = .error (.fault fault) before := by
  simp only [changeScopes, bind_apply, scopes_apply, changed]
  rfl

/-- A change of the scopes leaves everything else as it is. -/
theorem after_changeScopes (change : Scopes → Except Fault Scopes) (environment : Environment)
    (before : Progress) :
    ∃ scopes, (changeScopes change).after environment before = { before with scopes } := by
  cases changed : change before.scopes with
  | ok scopes => exact ⟨scopes, after_of_ok (changeScopes_of_ok environment changed)⟩
  | error fault =>
    refine ⟨before.scopes, ?_⟩
    rw [after, changeScopes_of_error environment changed]

/-- So does a look-up. -/
theorem after_lookupName? (name : String) (reach : Reach) (environment : Environment)
    (before : Progress) :
    ∃ scopes, (lookupName? name reach).after environment before = { before with scopes } := by
  refine ⟨(before.scopes.lookup name reach).2, ?_⟩
  simp only [after, lookupName?, bind_apply, read_apply, onScopes_apply]
  cases (before.scopes.lookup name reach).1 <;> rfl

end TypeInference.Analysis
