import TypeInference.Proofs.Placement

/-!
# Discarding local variables

An analysis is run twice, with local variables kept and with local variables discarded, and
begins in the second run with what it has in the first one, without the variables of finished
functions. Where every scope is placed, it comes to the same in both runs, and in the second
one again to what it has in the first one without the variables of finished functions. This
is a logic: the two runs are compared at every step.
-/

namespace TypeInference

open Analysis

/-- The environment in which the local variables of libraries are kept, or discarded. -/
def Environment.keeping (environment : Environment) (keep : Bool) : Environment :=
  { environment with options := { environment.options with keepLibraryLocals := keep } }

/-- An analysis comes to the same whether local variables are kept or discarded, and where
they are discarded, only those of finished functions are missing afterwards. -/
inductive Agrees (home : NodeId → Option NodeId) (place : Place) (environment : Environment)
    (before : Progress) {α : Type} (analysis : Analysis α) : Prop
  | returned {result : α} {after : Progress}
      (kept : analysis (environment.keeping true) before = .ok result after)
      (discarded : analysis (environment.keeping false) before.forget = .ok result after.forget)
      (placed : after.Placed home place) (onward : before.scopes.Onward after.scopes)
  | failed {failure : Failure} {left leftOther : Progress}
      (kept : analysis (environment.keeping true) before = .error failure left)
      (discarded : analysis (environment.keeping false) before.forget = .error failure leftOther)

namespace Agrees

variable {home : NodeId → Option NodeId} {place : Place} {environment : Environment}
  {before middle : Progress} {α β : Type}

theorem pure (placed : before.Placed home place) (result : α) :
    Agrees home place environment before (Pure.pure result : Analysis α) :=
  .returned rfl rfl placed (.refl _)

theorem bind {first : Analysis α} {next : α → Analysis β}
    (begins : Agrees home place environment before first)
    (continues : ∀ result after, after.Placed home place → before.scopes.Onward after.scopes →
      Agrees home place environment after (next result)) :
    Agrees home place environment before (first >>= next) := by
  cases begins with
  | failed kept discarded => exact .failed (bind_of_error kept next) (bind_of_error discarded next)
  | @returned result after kept discarded placed onward =>
    have keptStep := bind_of_ok kept next
    have discardedStep := bind_of_ok discarded next
    cases continues result after placed onward with
    | failed keptNext discardedNext =>
      exact .failed (keptStep.trans keptNext) (discardedStep.trans discardedNext)
    | returned keptNext discardedNext placedNext onwardNext =>
      exact .returned (keptStep.trans keptNext) (discardedStep.trans discardedNext) placedNext
        (onward.trans onwardNext)

/-- After a first step that is the same in both runs. -/
theorem of_step {analysis rest : Analysis α} (agrees : Agrees home place environment middle rest)
    (kept : analysis (environment.keeping true) before =
      rest (environment.keeping true) middle)
    (discarded : analysis (environment.keeping false) before.forget =
      rest (environment.keeping false) middle.forget)
    (onward : before.scopes.Onward middle.scopes) :
    Agrees home place environment before analysis := by
  cases agrees with
  | returned keptRest discardedRest placed onwardRest =>
    exact .returned (kept.trans keptRest) (discarded.trans discardedRest) placed
      (onward.trans onwardRest)
  | failed keptRest discardedRest =>
    exact .failed (kept.trans keptRest) (discarded.trans discardedRest)

/-- A change of the store that leaves definitions alone. -/
theorem onStore (placed : before.Placed home place) {change : Store → α × Store}
    (same : before.store.SameDefinitions (change before.store).2) :
    Agrees home place environment before (Analysis.onStore change) :=
  .returned rfl rfl (placed.changeStore same) (.refl _)

theorem modifyStore (placed : before.Placed home place) {change : Store → Store}
    (same : before.store.SameDefinitions (change before.store)) :
    Agrees home place environment before (Analysis.modifyStore change) :=
  .returned rfl rfl (placed.changeStore same) (.refl _)

/-- A change of the store that is made in any case. -/
theorem withCleanup {body : Analysis α} {change : Store → Store}
    (agrees : Agrees home place environment before body)
    (same : ∀ store : Store, store.SameDefinitions (change store)) :
    Agrees home place environment before (Analysis.withCleanup body fun progress =>
      { progress with store := change progress.store }) := by
  cases agrees with
  | returned kept discarded placed onward =>
    exact .returned (withCleanup_of_ok kept _) (withCleanup_of_ok discarded _)
      (placed.changeStore (same _)) onward
  | failed kept discarded =>
    exact .failed (withCleanup_of_error kept _) (withCleanup_of_error discarded _)

/-- A change of what scopes contain that commutes with forgetting. -/
theorem changeScopes (placed : before.Placed home place) {change : Scopes → Except Fault Scopes}
    (commutes : change before.scopes.forget = (change before.scopes).map Scopes.forget)
    (edited : ∀ scopes, change before.scopes = .ok scopes →
      before.scopes.Edited False scopes) :
    Agrees home place environment before (Analysis.changeScopes change) := by
  have forgotten : change before.forget.scopes = (change before.scopes).map Scopes.forget :=
    commutes
  cases changed : change before.scopes with
  | ok scopes =>
    have shape := (edited scopes changed).sameShape
    rw [changed] at forgotten
    exact .returned (changeScopes_of_ok _ changed) (changeScopes_of_ok _ forgotten)
      (placed.changeContents shape) shape.onward
  | error fault =>
    rw [changed] at forgotten
    exact .failed (changeScopes_of_error _ changed) (changeScopes_of_error _ forgotten)

theorem lookupName? (placed : before.Placed home place) (name : String) (reach : Reach) :
    Agrees home place environment before (Analysis.lookupName? name reach) := by
  have shape := (before.scopes.edited_lookup name reach).sameShape
  have forgotten : before.forget.scopes.lookup name reach = _ :=
    Scopes.lookup_forget placed.scopes.surrounded name reach
  refine .returned (lookupName?_apply ..) ?_ (placed.changeContents shape) shape.onward
  rw [lookupName?_apply, forgotten]
  rfl

/-- A class is created under the same name. -/
theorem createClass (placed : before.Placed home place) (definition : ClassDefinition) :
    Agrees home place environment before (Engine.createClass definition) := by
  obtain ⟨qualified, named, forgotten⟩ :=
    qualifiedName_forget definition.name.name (environment.keeping true) before
  have discardedName : qualifiedName definition.name.name (environment.keeping false)
    before.forget = .ok qualified before.forget := forgotten
  let created : Progress := { before with
    store := (before.store.addClass { ClassRecord.named definition.name.name qualified none with
      node := some definition.id }).2
    symbols := before.symbols.insertClass definition.id before.store.nextClass }
  have kept : Engine.createClass definition (environment.keeping true) before =
      .ok before.store.nextClass created := bind_of_ok named _
  have discarded : Engine.createClass definition (environment.keeping false) before.forget =
      .ok before.store.nextClass created.forget := bind_of_ok discardedName _
  have same : before.store.SameDefinitions created.store := ⟨fun _ => rfl, fun _ => rfl⟩
  exact .returned kept discarded ((placed.changeStore same).insertClass _ _) (.refl _)

/-- A class is given its bases, if these come to the same. -/
theorem giveBases {engine : Engine} {bases : List Expression} (id : ClassId)
    (based : Agrees home place environment before (engine.evaluateBases bases)) :
    Agrees home place environment before (engine.giveBases id bases) :=
  based.bind fun _ _ placed _ => .modifyStore placed ⟨fun _ => rfl, fun _ => rfl⟩

/-- A scope that is no function's is open while an analysis runs in it. -/
theorem inScope (placed : before.Placed home place) {node : NodeId} {kind : ScopeKind}
    (opens : OpenedIn home place.inside node) (other : kind ≠ .functionBody)
    {body : ScopeId → Analysis α}
    (agrees : ∀ id, ∀ progress, progress.Placed home place →
      Agrees home place environment progress (body id)) :
    Agrees home place environment before (Analysis.inScope node kind none body) := by
  have notFunction := opens.2
  have pushed := placed.push opens other
  have forgotten : before.forget.scopes.push node kind none = _ :=
    Scopes.push_forget node kind none fun id found => by
      obtain ⟨present, same⟩ := Scopes.of_scopeOf? found
      intro function
      have own := (placed.scopes.kind id present).mp function
      rw [same] at own
      exact notFunction own
  have discardedBody := inScope_apply node kind none body (environment.keeping false) before.forget
  rw [forgotten] at discardedBody
  cases agrees (before.scopes.push node kind none).1 _ pushed with
  | failed kept discarded =>
    exact .failed (withCleanup_of_error kept _)
      (discardedBody.trans (withCleanup_of_error discarded _))
  | @returned result after kept discarded placedAfter onward =>
    obtain ⟨closed, last⟩ := placed.scopes.close placedAfter.scopes onward
    have innermost : after.scopes.stack = (before.scopes.push node kind none).1 ::
      before.scopes.stack := onward.stack.trans (Scopes.stack_push ..)
    obtain ⟨present, nodeOf⟩ := Scopes.node_opened before.scopes node kind none
    have nodeAfter := (onward.node _ present).trans nodeOf
    have kindAfter : (after.scopes.scopeAt (before.scopes.push node kind none).1).kind ≠
        .functionBody := by
      intro function
      have own := (placedAfter.scopes.kind _ (lt_of_lt_of_le present onward.size)).mp function
      rw [nodeAfter] at own
      exact notFunction own
    have forgottenAfter : after.forget.scopes.truncate before.scopes.depth =
      (after.scopes.truncate before.scopes.depth).forget :=
    Scopes.truncate_forget innermost kindAfter
    refine .returned (withCleanup_of_ok kept _)
      ((discardedBody.trans (withCleanup_of_ok discarded _)).trans ?_)
      (placedAfter.changeScopes closed (fun id old => ⟨old, rfl⟩) fun _ _ => .inl) last
    change EStateM.Result.ok result { after.forget with
      scopes := after.forget.scopes.truncate before.scopes.depth } = _
    rw [forgottenAfter]
    rfl

/-- A function is declared in the same way, if its decorators come to the same. -/
theorem declareFunction (placed : before.Placed home {}) {definition : FunctionDefinition}
    (settled : definition.Settled home) (owner : Option ClassId) {engine : Engine}
    (decorated : ∀ function progress,
      progress.Placed home { declaring := some definition.id } →
        Agrees home { declaring := some definition.id } environment progress
          (engine.applyDecorators function definition.decorators)) :
    Agrees home {} environment before (engine.declareFunction definition owner) := by
  cases known : before.symbols.function? definition.id with
  | some entry =>
    exact .returned (Engine.declareFunction_of_known _ owner _ known)
      (Engine.declareFunction_of_known _ owner _ known) placed (.refl _)
  | none =>
    obtain ⟨qualified, named, forgotten⟩ :=
      qualifiedName_forget definition.name.name (environment.keeping true) before
    have discardedName : qualifiedName definition.name.name (environment.keeping false)
      before.forget = .ok qualified before.forget := forgotten
    have keptBegins := engine.declareFunction_of_new owner named known
    have discardedBegins := engine.declareFunction_of_new owner discardedName known
    let function := before.store.nextFunction
    cases decorated function _ (placed.addFunction known owner qualified) with
    | failed kept discarded =>
      exact .failed (keptBegins.trans (bind_of_error kept _))
        (discardedBegins.trans (bind_of_error discarded _))
    | @returned _ middle kept discarded placedMiddle onward =>
      obtain ⟨scope, current, -⟩ := placedMiddle.scopes.current
      have finished (environment : Environment) {progress : Progress}
          (same : progress.scopes.stack = middle.scopes.stack) :=
        Engine.finishDeclaration_apply definition function environment
          (show progress.scopes.current = .ok scope by
            unfold Scopes.current Scopes.current?
            rw [same, ← Scopes.current?, current])
      let finish (_ : Unit) := Engine.finishDeclaration definition function
      have keptEnds := (bind_of_ok kept finish).trans (finished (environment.keeping true) rfl)
      have discardedEnds :=
        (bind_of_ok discarded finish).trans (finished (environment.keeping false) rfl)
      exact .returned (keptBegins.trans keptEnds) (discardedBegins.trans discardedEnds)
        (placedMiddle.insert settled current function) onward

end Agrees

/-- The logic of what comes to the same whether local variables are kept or discarded. -/
def Logic.discarding (home : NodeId → Option NodeId) : Logic where
  Index := Unit
  World := Place
  Later := Eq
  later_refl _ := rfl
  later_trans := Eq.trans
  Known _ := .every
  known_later _ _ := id
  Holds place _ _ analyses := ∀ (environment : Environment) (before : Progress),
    environment.options.isUser = false → before.Placed home place →
      Agrees home place environment before (analyses ())
  pure _ _ _ _ placed := .pure placed _
  bind begins continues environment before library placed :=
    (begins environment before library placed).bind fun result after placedAfter _ =>
      continues rfl result (within_every result) environment after library placedAfter
  reads continues environment before library placed :=
    .of_step (continues rfl before.store (within_every _) (.of_union (fun _ => trivial) _)
      environment before library placed) rfl rfl (.refl _)
  Near _ _ := True
  near_of_later _ := trivial
  near_trans _ _ := trivial
  MayOpen place node := OpenedIn home place.inside node
  mayOpen_later := by
    rintro _ _ rfl node
    exact id
  MayDefine place definition := place = {} ∧ definition.Settled home
  mayDefine_later := by
    rintro _ _ rfl definition
    exact id
  options {_ _ _ next} blind holds environment before library placed := by
    have same (keep : Bool) := blind () environment.options keep
    refine (holds environment.options environment before library placed).of_step
      (congrFun (congrFun (same true) _) _) (congrFun (congrFun (same false) _) _) (.refl _)
  lookupName? name reach _ _ _ placed := .lookupName? placed name reach
  declare name _ kind node span _ _ _ _ placed :=
    .changeScopes placed (Scopes.declare_forget placed.scopes.surrounded name _ kind node span)
      fun _ => Scopes.edited_declare
  redirectGlobal name _ _ _ placed :=
    .changeScopes placed (Scopes.declareGlobal_forget _ name)
      fun _ => Scopes.edited_declareGlobal
  redirectNonlocal name _ _ _ placed :=
    .changeScopes placed (Scopes.declareNonlocal_forget _ name)
      fun _ => Scopes.edited_declareNonlocal
  report _ _ _ _ _ placed := .returned rfl rfl (placed.changeLog _) (.refl _)
  changeFunction function _ keeps _ _ _ _ placed := .modifyStore placed
    (Store.alike_modifyFunction _ function (fun record => (keeps _ record).1.node)
      fun record => (keeps _ record).2).sameDefinitions
  setMember name _ overwrite _ _ _ _ _ _ placed :=
    .modifyStore placed (Store.alike_addMember _ _ name _ overwrite).sameDefinitions
  setAttribute name _ _ _ _ _ _ placed :=
    .modifyStore placed (Store.alike_withAttribute _ _ name _).sameDefinitions
  declaredClass _ _ _ _ placed := .returned rfl rfl placed (.refl _)
  createClass definition _ _ based owns environment before library placed := by
    refine .bind (.createClass placed definition) fun id middle placedMiddle _ => ?_
    refine .bind (.giveBases id (based rfl environment middle library placedMiddle)) ?_
    exact fun _ after placedAfter _ => owns rfl id trivial environment after library placedAfter
  inScope opens other body environment _ library placed :=
    .inScope placed opens other fun id progress placedInside =>
      body id environment progress library placedInside
  declareFunction {_ _ definition} owner defines _ decorated environment before library placed := by
    obtain ⟨rfl, settled⟩ := defines
    have decorated := @decorated { declaring := some definition.id } trivial fun _ => id
    exact .declareFunction placed settled owner fun function progress placedInside =>
      decorated function environment progress library placedInside

end TypeInference
