import TypeInference.Proofs.Operations
import TypeInference.Proofs.Phrases

/-!
# Scoping is lexical

Which scopes are open says where an evaluation was asked for, not what a name in it
means: names are looked up and declared from the innermost scope outward along the
parents. So nothing but the innermost of the open scopes matters to an analysis, and
when it is over the scopes that were open are open again. A function is evaluated in
the scope around its definition, whatever scopes are open, none included.
-/

namespace TypeInference

namespace Scopes

/-- The way outward from a scope is told by the parents of the scopes. -/
theorem around_congr {first second : Scopes} (size : first.all.size = second.all.size)
    (parent : ∀ id, (first.scopeAt id).parent = (second.scopeAt id).parent) (id : ScopeId) :
    first.around id = second.around id := by
  have outward (bound : Nat) :
      ∀ start, first.outwardWithin bound start = second.outwardWithin bound start := by
    induction bound with
    | zero => exact fun _ => rfl
    | succ bound inductionHypothesis =>
      intro start
      cases start with
      | none => rfl
      | some id => rw [outwardWithin, outwardWithin, parent, inductionHypothesis]
  rw [around, around, size, parent, outward]

/-- The scopes with other ones open. -/
def withStack (scopes : Scopes) (stack : List ScopeId) : Scopes :=
  { scopes with stack }

variable (scopes : Scopes) (stack : List ScopeId)

/-- The scopes that are open. -/
@[simp] theorem stack_withStack : (scopes.withStack stack).stack = stack := rfl

/-- What is open does not change a scope. -/
@[simp] theorem scopeAt_withStack (id : ScopeId) :
    (scopes.withStack stack).scopeAt id = scopes.scopeAt id := rfl

/-- A scope is changed whatever is open. -/
@[simp] theorem modifyScope_withStack (id : ScopeId) (change : Scope → Scope) :
    (scopes.withStack stack).modifyScope id change =
      (scopes.modifyScope id change).withStack stack := rfl

/-- The way outward does not lead along the open scopes. -/
@[simp] theorem around_withStack (id : ScopeId) :
    (scopes.withStack stack).around id = scopes.around id := by
  refine around_congr ?_ (fun other => ?_) id
  · rfl
  · rw [scopeAt_withStack]

/-- Redirections do not depend on what is open. -/
@[simp] theorem redirect_withStack (id : ScopeId) (name : String) (kind : VariableKind) :
    (scopes.withStack stack).redirect id name kind = scopes.redirect id name kind := by
  unfold redirect enclosingFunction?
  rw [around_withStack]
  rfl

/-- What a name means in a scope does not depend on what is open. -/
@[simp] theorem findHere?_withStack (id : ScopeId) (name : String) (reach : Reach) :
    (scopes.withStack stack).findHere? id name reach = scopes.findHere? id name reach := rfl

/-- What a name means around a scope does not depend on what is open. -/
@[simp] theorem findAround?_withStack (id : ScopeId) (name : String) (reach : Reach) :
    (scopes.withStack stack).findAround? id name reach = scopes.findAround? id name reach := by
  unfold findAround?
  rw [around_withStack]
  rfl

/-- A name is recorded as free whatever is open. -/
@[simp] theorem recordFree_withStack (id : ScopeId) (name : String) (found : ScopeId) :
    (scopes.withStack stack).recordFree id name found =
      (scopes.recordFree id name found).withStack stack := by
  unfold recordFree
  rw [apply_ite (withStack · stack)]
  rfl

/-- A declaration looks at the innermost scope only. -/
theorem declare_withStack (name : String) (value : Value) (kind : VariableKind)
    (node : Option NodeId) (span : Span) (same : stack.head? = scopes.stack.head?) :
    (scopes.withStack stack).declare name value kind node span =
      (scopes.declare name value kind node span).map (withStack · stack) := by
  unfold declare current current?
  rw [stack_withStack, same]
  cases scopes.stack.head? with
  | none => rfl
  | some id =>
    simp only [Except.bind, bind, redirect_withStack]
    rfl

/-- A redirection to the module looks at the innermost scope only. -/
theorem declareGlobal_withStack (name : String) (same : stack.head? = scopes.stack.head?) :
    (scopes.withStack stack).declareGlobal name =
      (scopes.declareGlobal name).map (withStack · stack) := by
  unfold declareGlobal current current?
  rw [stack_withStack, same]
  cases scopes.stack.head? <;> rfl

/-- A redirection to a function around looks at the innermost scope only. -/
theorem declareNonlocal_withStack (name : String) (same : stack.head? = scopes.stack.head?) :
    (scopes.withStack stack).declareNonlocal name =
      (scopes.declareNonlocal name).map (withStack · stack) := by
  unfold declareNonlocal current current?
  rw [stack_withStack, same]
  cases scopes.stack.head? <;> rfl

/-- A look-up looks at the innermost scope only. -/
theorem lookup_withStack (name : String) (reach : Reach)
    (same : stack.head? = scopes.stack.head?) :
    (scopes.withStack stack).lookup name reach =
      ((scopes.lookup name reach).1, (scopes.lookup name reach).2.withStack stack) := by
  unfold lookup current?
  rw [stack_withStack, same]
  cases scopes.stack.head? with
  | none => rfl
  | some id =>
    simp only [findHere?_withStack, findAround?_withStack, scopeAt_withStack]
    cases scopes.findHere? id name reach with
    | some found => rfl
    | none =>
      dsimp only
      split
      · rfl
      · cases scopes.findAround? id name reach with
        | none => rfl
        | some found => simp only [recordFree_withStack]

/-- Opening a scope looks at the innermost scope only. -/
theorem push_withStack (node : NodeId) (kind : ScopeKind) (parent : Option ScopeId)
    (same : parent.isSome ∨ stack.head? = scopes.stack.head?) :
    (scopes.withStack stack).push node kind parent =
      ((scopes.push node kind parent).1,
        (scopes.push node kind parent).2.withStack
          ((scopes.push node kind parent).1 :: stack)) := by
  -- Only without a given scope around is the innermost open one looked at.
  have around : parent.or stack.head? = parent.or scopes.stack.head? := by
    rcases same with given | same
    · cases parent with
      | none => cases given
      | some id => rfl
    · rw [same]
  unfold push current?
  have known : (scopes.withStack stack).scopeOf? node = scopes.scopeOf? node := rfl
  rw [stack_withStack, around, known]
  cases scopes.scopeOf? node <;> rfl

/-- Closing scopes gives any stack that was open in the same way. -/
theorem truncate_withStack (opened : ScopeId) :
    (scopes.withStack (opened :: stack)).truncate stack.length = scopes.withStack stack := by
  simp [truncate, withStack]

end Scopes

/-- The progress with other scopes open. -/
def Progress.withStack (progress : Progress) (stack : List ScopeId) : Progress :=
  { progress with scopes := progress.scopes.withStack stack }

namespace Analysis

variable {α β : Type}

/-- An outcome with other scopes open. -/
def leaving (stack : List ScopeId) :
    EStateM.Result Failure Progress α → EStateM.Result Failure Progress α
  | .ok result progress => .ok result (progress.withStack stack)
  | .error failure progress => .error failure (progress.withStack stack)

/-- An analysis comes to the same with some scopes open as with those that are open,
and leaves them open. -/
def SameWith (stack : List ScopeId) (environment : Environment) (before : Progress)
    (analysis : Analysis α) : Prop :=
  analysis environment (before.withStack stack) = leaving stack (analysis environment before)

/-- An analysis for which the innermost open scope is all that matters. -/
def Lexical (analysis : Analysis α) : Prop :=
  ∀ environment before stack, stack.head? = before.scopes.stack.head? →
    analysis.SameWith stack environment before

/-- An analysis for which no open scope matters. -/
def Enclosed (analysis : Analysis α) : Prop :=
  ∀ environment before stack, analysis.SameWith stack environment before

/-- Whatever an analysis comes to, the scopes that were open are open again. -/
theorem SameWith.stack_after {analysis : Analysis α} {environment : Environment}
    {before : Progress} (same : analysis.SameWith before.scopes.stack environment before) :
    (analysis.after environment before).scopes.stack = before.scopes.stack := by
  have left : analysis environment before =
      leaving before.scopes.stack (analysis environment before) := same
  unfold after
  cases found : analysis environment before with
  | ok result progress | error failure progress =>
    rw [found] at left
    simp only [leaving, EStateM.Result.ok.injEq, EStateM.Result.error.injEq, true_and] at left
    simp only
    rw [left]
    rfl

theorem SameWith.bind {first : Analysis α} {next : α → Analysis β} {stack : List ScopeId}
    {environment : Environment} {before : Progress}
    (same : first.SameWith stack environment before)
    (onwards : ∀ result middle, first environment before = .ok result middle →
      (next result).SameWith stack environment middle) :
    (first >>= next).SameWith stack environment before := by
  unfold SameWith
  rw [bind_apply, bind_apply, same]
  cases found : first environment before with
  | ok result middle => exact onwards result middle found
  | error failure middle => rfl

namespace Enclosed

theorem pure (result : α) : (Pure.pure result : Analysis α).Enclosed :=
  fun _ _ _ => rfl

theorem throw (failure : Failure) : (throw failure : Analysis α).Enclosed :=
  fun _ _ _ => rfl

theorem bind {first : Analysis α} {next : α → Analysis β} (enclosed : first.Enclosed)
    (onwards : ∀ result, (next result).Enclosed) : (first >>= next).Enclosed :=
  fun environment before stack => (enclosed environment before stack).bind fun result middle _ =>
    onwards result environment middle stack

/-- Reading the progress without a look at the scopes. -/
theorem read {next : Progress → Analysis α}
    (blind : ∀ progress scopes, next { progress with scopes } = next progress)
    (enclosed : ∀ progress, (next progress).Enclosed) : (get >>= next).Enclosed := by
  intro environment before stack
  unfold SameWith
  simp only [bind_apply, get_apply]
  rw [show next (before.withStack stack) = next before from blind before _]
  exact enclosed before environment before stack

theorem store : Analysis.store.Enclosed :=
  fun _ _ _ => rfl

theorem options : Analysis.options.Enclosed :=
  fun _ _ _ => rfl

/-- A change of the store. -/
theorem modifyStore (change : Store → Store) : (Analysis.modifyStore change).Enclosed :=
  fun _ _ _ => rfl

/-- A change of the store with a result. -/
theorem onStore (change : Store → α × Store) : (Analysis.onStore change).Enclosed :=
  fun _ _ _ => rfl

/-- A change that is the same whatever is open. -/
theorem modify {change : Progress → Progress}
    (commutes : ∀ progress stack,
      change (Progress.withStack progress stack) = (change progress).withStack stack) :
    (modify change : Analysis Unit).Enclosed := by
  intro environment before stack
  simp only [SameWith, modify_apply, leaving, commutes]

/-- No open scope matters, in particular none but the innermost. -/
theorem lexical {analysis : Analysis α} (enclosed : analysis.Enclosed) : analysis.Lexical :=
  fun environment before stack _ => enclosed environment before stack

end Enclosed

namespace Lexical

/-- The scopes that are left open with a result. -/
theorem stack_of_ok {analysis : Analysis α} (lexical : analysis.Lexical)
    {environment : Environment} {before after : Progress} {result : α}
    (returned : analysis environment before = .ok result after) :
    after.scopes.stack = before.scopes.stack := by
  rw [← after_of_ok returned]
  exact (lexical environment before before.scopes.stack rfl).stack_after

theorem bind {first : Analysis α} {next : α → Analysis β} (lexical : first.Lexical)
    (onwards : ∀ result, (next result).Lexical) : (first >>= next).Lexical := by
  intro environment before stack same
  refine (lexical environment before stack same).bind fun result middle returned => ?_
  refine onwards result environment middle stack ?_
  rw [lexical.stack_of_ok returned]
  exact same

/-- A change of the scopes that looks at the innermost one only. -/
theorem changeScopes {change : Scopes → Except Fault Scopes}
    (commutes : ∀ scopes stack, stack.head? = scopes.stack.head? →
      change (scopes.withStack stack) = (change scopes).map (Scopes.withStack · stack)) :
    (Analysis.changeScopes change).Lexical := by
  intro environment before stack same
  unfold SameWith Analysis.changeScopes
  simp only [bind_apply, scopes_apply]
  rw [show (before.withStack stack).scopes = before.scopes.withStack stack from rfl,
    commutes before.scopes stack same]
  cases change before.scopes <;> rfl

/-- The innermost scope is found, or there is none. -/
theorem currentScope {next : ScopeId → Analysis α} (lexical : ∀ id, (next id).Lexical) :
    (do next (← orFault (← scopes).current)).Lexical := by
  intro environment before stack same
  have found : (before.scopes.withStack stack).current = before.scopes.current := by
    unfold Scopes.current Scopes.current?
    rw [Scopes.stack_withStack, same]
  unfold SameWith
  simp only [bind_apply, scopes_apply]
  rw [show (before.withStack stack).scopes = before.scopes.withStack stack from rfl, found]
  cases before.scopes.current with
  | ok id => exact lexical id environment before stack same
  | error fault => rfl

theorem lookupName? (name : String) (reach : Reach) :
    (Analysis.lookupName? name reach).Lexical := by
  intro environment before stack same
  unfold SameWith Analysis.lookupName?
  simp only [bind_apply, read_apply, onScopes_apply]
  rw [show (before.withStack stack).scopes = before.scopes.withStack stack from rfl,
    Scopes.lookup_withStack _ _ name reach same]
  cases (before.scopes.lookup name reach).1 <;> rfl

/-- Where a definition stands does not depend on what is open. -/
theorem qualifierAlong_withStack (progress : Progress) (stack : List ScopeId)
    (moduleName : String) (outward : List ScopeId) :
    qualifierAlong (progress.withStack stack) moduleName outward =
      qualifierAlong progress moduleName outward := by
  induction outward with
  | nil => rfl
  | cons id outer inductionHypothesis =>
    unfold qualifierAlong
    rw [inductionHypothesis]
    rfl

theorem qualifiedName (name : String) : (Analysis.qualifiedName name).Lexical := by
  intro environment before stack same
  have current : (before.withStack stack).scopes.current? = before.scopes.current? := same
  have around (id : ScopeId) :
      (before.withStack stack).scopes.around id = before.scopes.around id :=
    Scopes.around_withStack ..
  unfold SameWith Analysis.qualifiedName
  simp only [bind_apply, get_apply, options_apply, pure_apply, leaving, qualifierAlong_withStack,
    current, around]

/-- An analysis in a scope of its own. The scope around that is given, or else the
innermost open scope. -/
theorem sameWith_inScope {node : NodeId} {kind : ScopeKind} {parent : Option ScopeId}
    {body : ScopeId → Analysis α} (lexical : ∀ id, (body id).Lexical)
    {environment : Environment} {before : Progress} {stack : List ScopeId}
    (same : parent.isSome ∨ stack.head? = before.scopes.stack.head?) :
    (Analysis.inScope node kind parent body).SameWith stack environment before := by
  unfold SameWith Analysis.inScope
  simp only [bind_apply, scopes_apply, onScopes_apply, withCleanup]
  rw [show (before.withStack stack).scopes = before.scopes.withStack stack from rfl,
    Scopes.push_withStack _ _ node kind parent same]
  -- The new scope is the innermost one in either case, whatever lies below it.
  have stacked := before.scopes.stack_push node kind parent
  generalize (before.scopes.push node kind parent).1 = id at *
  generalize (before.scopes.push node kind parent).2 = pushed at *
  have inside := lexical id environment { before with scopes := pushed } (id :: stack) (by
    rw [stacked]
    rfl)
  change (match body id environment (Progress.withStack { before with scopes := pushed }
    (id :: stack)) with | .ok _ _ => _ | .error _ _ => _) = _
  rw [inside]
  cases body id environment { before with scopes := pushed } with
  | ok result after | error failure after =>
    simp only [leaving]
    congr 1
    exact congrArg (fun scopes : Scopes => { after with scopes })
      (after.scopes.truncate_withStack stack id)

/-- An analysis in a scope of its own. -/
theorem inScope {node : NodeId} {kind : ScopeKind} {parent : Option ScopeId}
    {body : ScopeId → Analysis α} (lexical : ∀ id, (body id).Lexical) :
    (Analysis.inScope node kind parent body).Lexical :=
  fun _ _ _ same => sameWith_inScope lexical (.inr same)

/-- Reading the progress without a look at the scopes. -/
theorem read {next : Progress → Analysis α}
    (blind : ∀ progress scopes, next { progress with scopes } = next progress)
    (lexical : ∀ progress, (next progress).Lexical) : (get >>= next).Lexical := by
  intro environment before stack same
  unfold SameWith
  simp only [bind_apply, get_apply]
  rw [show next (before.withStack stack) = next before from blind before _]
  exact lexical before environment before stack same

/-- Something that is done if an overload waits. -/
theorem whenPending {id : OverloadId} {analysis : Analysis Unit} (lexical : analysis.Lexical) :
    (Engine.whenPending id analysis).Lexical := by
  refine .read (fun _ _ => rfl) fun progress => ?_
  split
  · exact lexical
  · exact (Enclosed.pure ()).lexical

/-- The variables of a scope. -/
theorem globals (id : ScopeId) : (do return globalsOf (← scopes) id : Analysis _).Lexical :=
  fun _ _ _ _ => rfl

/-- An analysis after which the store is changed in any case. -/
theorem withCleanup {body : Analysis α} (lexical : body.Lexical) (change : Store → Store) :
    (Analysis.withCleanup body fun progress =>
      { progress with store := change progress.store }).Lexical := by
  intro environment before stack same
  unfold SameWith Analysis.withCleanup
  rw [lexical environment before stack same]
  cases body environment before <;> rfl

end Lexical

end Analysis

namespace Discipline

open Analysis

/-- Not to depend on the open scopes but for the innermost one. -/
def lexical : Discipline where
  World := Unit
  Holds _ _ analysis := analysis.Lexical
  MayOwn _ _ := True
  IsDefined _ _ := True
  MayChange _ := True
  MayRecord _ := True
  pure _ _ result := (Enclosed.pure result).lexical
  throw _ _ failure := (Enclosed.throw failure).lexical
  bind := .bind
  store _ := Enclosed.store.lexical
  options _ := Enclosed.options.lexical
  lookupName? _ := .lookupName?
  declare _ name value kind node span := .changeScopes fun scopes stack =>
    scopes.declare_withStack stack name value kind node span
  redirectGlobal _ name := .changeScopes fun scopes stack =>
    scopes.declareGlobal_withStack stack name
  redirectNonlocal _ name := .changeScopes fun scopes stack =>
    scopes.declareNonlocal_withStack stack name
  qualifiedName _ := .qualifiedName
  report _ _ _ :=
    (Enclosed.options.bind fun _ => .modify fun _ _ => rfl).lexical
  read := .read
  currentScope := .currentScope
  globals _ := .globals
  inScope := .inScope
  clearVariables _ _ := (Enclosed.modify fun _ _ => rfl).lexical
  insertEntry _ _ := (Enclosed.modify fun _ _ => rfl).lexical
  createFunction {_ _} _ {_} _ {_} _ onwards := (Enclosed.onStore _).lexical.bind fun id =>
    onwards id trivial
  changeFunction {_ _ _} _ _ := (Enclosed.modifyStore _).lexical
  changeOverload {_ _ _} _ _ := (Enclosed.modifyStore _).lexical
  evaluation {_ _} _ {_} _ body := .whenPending <| (Enclosed.modifyStore _).lexical.bind fun _ =>
    .inScope fun scope => (body trivial scope).bind fun _ => (Enclosed.modifyStore _).lexical
  setMember _ _ _ _ := (Enclosed.modifyStore _).lexical
  setAttribute _ _ _ := (Enclosed.modifyStore _).lexical
  createClass {_ _ _} _ {_ _} based onwards := .bind
    (.bind (.qualifiedName _) fun _ => .bind (Enclosed.onStore _).lexical fun _ =>
      .bind (Enclosed.lexical (.modify fun _ _ => rfl)) fun _ => (Enclosed.pure _).lexical)
    fun id => .bind (.bind (based ()) fun _ => (Enclosed.modifyStore _).lexical)
      fun _ => onwards () id trivial
  readDefinition {_ _} _ {_} onwards := Enclosed.store.lexical.bind fun store =>
    onwards () store fun _ => ⟨trivial, trivial⟩
  readOwner {_ _ _ _} _ onwards := Enclosed.store.lexical.bind fun store =>
    onwards () store fun _ _ => trivial

end Discipline

/-- What keeps the discipline of lexical scoping is lexical. -/
theorem Analysis.Keeps.lexical {α : Type} {analysis : Analysis α}
    (keeps : analysis.Keeps .lexical ()) : analysis.Lexical :=
  keeps

namespace Engine

open Analysis

variable {engine : Engine}

theorem copyMembers_lexical (follows : engine.Follows .lexical) (bindings : Bindings)
    (target : ClassId) (members : List (String × Value)) :
    (engine.copyMembers bindings target members).Lexical := by
  induction members with
  | nil => exact (Enclosed.pure ()).lexical
  | cons member rest inductionHypothesis =>
    exact .bind (substitute_keeps follows bindings member.2).lexical fun _ =>
      .bind (Enclosed.modifyStore _).lexical fun _ => inductionHypothesis

theorem makeSpecialization_lexical (follows : engine.Follows .lexical) (template : ClassId)
    (evidence : Evidence) : (engine.makeSpecialization template evidence).Lexical := by
  have materialized (placeholder : ClassId) :
      (engine.materialize template placeholder evidence).Lexical :=
    .bind Enclosed.store.lexical fun _ =>
      .bind (substituteBases_keeps follows evidence.bindings _).lexical fun _ =>
        .bind (Enclosed.modifyStore _).lexical fun _ => .bind Enclosed.store.lexical fun _ =>
          copyMembers_lexical follows _ _ _
  exact .bind Enclosed.store.lexical fun _ => .bind (Enclosed.onStore _).lexical fun _ =>
    .bind (Enclosed.modifyStore _).lexical fun _ =>
      .bind (.withCleanup (materialized _) fun store => endSpecialization store template) fun _ =>
        (Enclosed.onStore _).lexical

theorem specializeClass_lexical (follows : engine.Follows .lexical) (id : ClassId)
    (arguments : Arguments) : (engine.specializeClass id arguments).Lexical := by
  refine .bind Enclosed.store.lexical fun store => ?_
  split
  · exact (follows.specialize _ _).lexical
  · refine .bind (ensureConstructed_keeps follows id).lexical fun _ =>
      .bind Enclosed.store.lexical fun store => ?_
    dsimp only
    split
    · exact (Enclosed.pure _).lexical
    · split
      · exact (Enclosed.pure _).lexical
      · split
        · exact (Enclosed.pure _).lexical
        · exact makeSpecialization_lexical follows id _

/-- The engine of every depth scopes lexically. -/
theorem atDepth_lexical (depth : Nat) : (Engine.atDepth depth).Follows .lexical :=
  atDepth_follows (fun _ follows _ id arguments => specializeClass_lexical follows id arguments)
    depth

/-- An overload is evaluated in the scope around its definition, whatever is open. -/
theorem evaluateOverload_enclosed (follows : engine.Follows .lexical) (id : OverloadId)
    (entry : FunctionEntry) : (engine.evaluateOverload id entry).Enclosed := by
  refine .bind (.modifyStore _) fun _ environment before stack =>
    Lexical.sameWith_inScope (fun scope => ?_) (.inl rfl)
  rw [evaluateInside_eq]
  exact .bind (evaluateParts_keeps follows id entry.definition scope trivial trivial
    trivial).lexical fun _ => (Enclosed.modifyStore _).lexical

/-- The pending overloads of a function are evaluated whatever is open. -/
theorem evaluatePending_enclosed (follows : engine.Follows .lexical) (function : FunctionId)
    (node : NodeId) (places : List Nat) :
    (engine.evaluatePending function node places).Enclosed := by
  induction places with
  | nil => exact .pure ()
  | cons place rest inductionHypothesis =>
    refine .read (fun _ _ => rfl) fun progress => ?_
    dsimp only
    split
    · split
      · exact .bind (evaluateOverload_enclosed follows ⟨function, place⟩ _)
          fun _ => inductionHypothesis
      · exact .bind (.throw _) fun _ => inductionHypothesis
    · exact inductionHypothesis

/-- A function is evaluated whatever is open. -/
theorem evaluateFunction_enclosed (depth : Nat) (function : FunctionId) :
    ((Engine.atDepth depth).evaluateFunction function).Enclosed := by
  cases depth with
  | zero => exact .throw _
  | succ depth =>
    refine Enclosed.store.bind fun store => ?_
    dsimp only
    split
    · exact .pure ()
    · exact evaluatePending_enclosed (atDepth_lexical depth) function _ _

/-- Scoping is lexical. With any other scopes open, or none, the evaluation of a
function comes to the same result or failure and leaves the same, diagnostics included,
but for those scopes, which are open again as the former ones are. An expression and a
block do so with any other scopes open that have the same innermost one.

Proof: not to depend on the open scopes but for the innermost one is a discipline. A
function is evaluated in a scope of its own, around which is the scope of its definition
and not one that is open. -/
theorem evaluation_scopes_lexically (depth : Nat) (environment : Environment)
    (before : Progress) (stack : List ScopeId) :
    (∀ function,
      ((Engine.atDepth depth).evaluateFunction function).SameWith stack environment before ∧
      (((Engine.atDepth depth).evaluateFunction function).after environment before).scopes.stack =
        before.scopes.stack) ∧
    (stack.head? = before.scopes.stack.head? →
      (∀ reach expression,
        ((Engine.atDepth depth).evaluate reach expression).SameWith stack environment before) ∧
      ∀ frame body,
        ((Engine.atDepth depth).walkBlock frame body).SameWith stack environment before) := by
  have follows := atDepth_lexical depth
  refine ⟨fun function => ?_, fun same => ⟨fun reach expression => ?_, fun frame body => ?_⟩⟩
  · have enclosed := evaluateFunction_enclosed depth function environment before
    exact ⟨enclosed stack, (enclosed before.scopes.stack).stack_after⟩
  · exact (evaluate_keeps follows reach expression).lexical environment before stack same
  · exact (walkBlock_keeps follows ⟨fun _ _ => trivial, fun _ _ => trivial⟩ body).lexical
      environment before stack same

/-- A variable and a function that returns it are declared in the scope of a module, and
the scope of another function is open in it. -/
def closureDeclared : Progress :=
  Operation.performAll 3 Registry.environment Registry.start
    [.openScope .module .module none,
      .walkBlock .module
        [.define "x" (.constant (.int 1) .unknown),
          .function ⟨⟨1⟩, .ofName "f", [], none, [.ret (some (.ofName "x")) .unknown], [],
            .unknown⟩],
      .openScope ⟨2⟩ .functionBody none]

/-- The function is evaluated with no scope open as well, and the variable and a block
with nothing open but the innermost scope. -/
theorem evaluation_scopes_lexically_closure :
    let function := Registry.standard.store.nextFunction
    let evaluating := (Engine.atDepth 3).evaluateFunction function
    closureDeclared.scopes.stack = [⟨1⟩, ⟨0⟩] ∧
      evaluating.yields Registry.environment closureDeclared () = true ∧
      evaluating.SameWith [] Registry.environment closureDeclared ∧
      (evaluating.after Registry.environment closureDeclared).scopes.stack = [⟨1⟩, ⟨0⟩] ∧
      ((Engine.atDepth 3).evaluate .everything (.ofName "x")).SameWith [⟨1⟩]
        Registry.environment closureDeclared ∧
      ((Engine.atDepth 3).walkBlock .module [.define "y" (.ofName "x")]).SameWith [⟨1⟩]
        Registry.environment closureDeclared := by
  intro function evaluating
  have opened : closureDeclared.scopes.stack = [⟨1⟩, ⟨0⟩] := by decide +kernel
  have evaluated :=
    (evaluation_scopes_lexically 3 Registry.environment closureDeclared []).1 function
  have walked :=
    (evaluation_scopes_lexically 3 Registry.environment closureDeclared [⟨1⟩]).2
      (by rw [opened]; rfl)
  exact ⟨opened, by decide +kernel, evaluated.1, evaluated.2.trans opened,
    walked.1 .everything (.ofName "x"), walked.2 .module [.define "y" (.ofName "x")]⟩

end Engine

end TypeInference
