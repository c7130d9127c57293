import TypeInference.Proofs.Discarding
import TypeInference.Proofs.Phrases
import TypeInference.Proofs.Termination

/-!
# Local variables are not needed again

The variables of a function are discarded when its evaluation is over. In the run that keeps
them they are there, but no open scope is inside of the scope of that function: so the
evaluation of a function comes to the same in both runs, and with it everything else.
-/

namespace TypeInference

open Analysis

variable {home : NodeId → Option NodeId} {place : Place} {environment : Environment}
  {before : Progress} {function : FunctionId} {engine : Engine}

/-- A settled definition may be evaluated. -/
theorem FunctionDefinition.Settled.permits {definition : FunctionDefinition}
    (settled : definition.Settled home) (declaring : Option NodeId) :
    (Logic.discarding home).PermitsFunction
      (⟨some definition.id, declaring⟩ : Place) definition where
  parameters := settled.parameters
  returns := settled.returns
  body := Statement.BlockPermitted.mono (fun _ opened => opened)
    (fun _ impossible => impossible.elim) settled.body

/-- The evaluation of a function is begun, and its scope is opened. -/
def Progress.enter (progress : Progress) (function : FunctionId) (entry : FunctionEntry) :
    Progress :=
  { progress.setState function .evaluating with
    scopes := (progress.scopes.push entry.definition.id .functionBody (some entry.scope)).2 }

/-- The scope in which a function is evaluated. -/
def Progress.scopeOf (progress : Progress) (entry : FunctionEntry) : ScopeId :=
  (progress.scopes.push entry.definition.id .functionBody (some entry.scope)).1

/-- An overload is evaluated in the scope of its function, which is closed at the end. -/
theorem Engine.evaluateOverload_apply (engine : Engine) (function : FunctionId)
    (entry : FunctionEntry) (environment : Environment) (before : Progress) :
    engine.evaluateOverload ⟨function, 0⟩ entry environment before =
      Analysis.withCleanup
        (engine.evaluateInside ⟨function, 0⟩ entry.definition (before.scopeOf entry))
        (fun after => { after with scopes := after.scopes.truncate before.scopes.depth })
        environment (before.enter function entry) :=
  rfl

/-- A function that has no scope is begun in the same way after variables were forgotten. -/
theorem Progress.enter_forget (function : FunctionId) {entry : FunctionEntry}
    (missing : ¬before.scopes.Has entry.definition.id) :
    before.forget.enter function entry = (before.enter function entry).forget ∧
      before.forget.scopeOf entry = before.scopeOf entry := by
  have opened : before.forget.scopes.push entry.definition.id .functionBody (some entry.scope) =
      (before.scopeOf entry, (before.enter function entry).scopes.forget) :=
    Scopes.push_forget _ _ _ fun id found => absurd ⟨id, Scopes.of_scopeOf? found⟩ missing
  refine ⟨?_, by rw [scopeOf, opened]⟩
  unfold enter
  rw [opened]
  rfl

namespace Progress.Placed

variable {node : NodeId} {entry : FunctionEntry}

section Waiting

variable (placed : before.Placed home place)
  (definedBy : (before.store.functionAt function).node = some node)
  (declared : before.symbols.function? node = some entry)

include placed definedBy declared

/-- A function that waits has no scope. -/
theorem not_has
    (pending : (before.store.functionAt function).overloads.map (·.state) = [.pending]) :
    ¬before.scopes.Has entry.definition.id := by
  obtain ⟨listed, rfl⟩ := Symbols.mem_of_function? declared
  obtain ⟨settled, -⟩ := placed.entries entry listed
  exact fun has => (placed.begun _ settled.own has).2 function definedBy pending

/-- The body of a function is evaluated inside of it. -/
theorem enter :
    (before.enter function entry).Placed home ⟨some entry.definition.id, place.declaring⟩ := by
  obtain ⟨listed, rfl⟩ := Symbols.mem_of_function? declared
  obtain ⟨settled, present, outside⟩ := placed.entries entry listed
  have begun := placed.setState function (show OverloadState.evaluating ≠ .pending by decide)
  have opened : (before.enter function entry).scopes.Placed home (some entry.definition.id) := by
    rw [← settled.own]
    refine placed.scopes.push ⟨fun _ => settled.own, fun _ => rfl⟩ ?_ ?_
    · intro outer same
      cases same
      exact ⟨present, by rw [outside, homeAround, if_pos settled.own]⟩
    · intro function own
      exact .inl (Option.some.inj (own.symm.trans settled.own))
  refine begun.changeScopes opened
    (fun id there => Scopes.node_push before.scopes _ _ _ there) fun node own has => ?_
  rcases Scopes.has_push before.scopes _ _ has with rfl | has
  · -- The scope is that of the function that was just begun.
    have found : (before.symbols.function? entry.definition.id).isSome := by
      rw [declared]
      rfl
    refine .inr ⟨found, fun id again waiting => ?_⟩
    have apart := (Progress.waits_setState (by decide) id ⟨_, again, found, waiting⟩).2
    exact apart (placed.unique id function _
      ((Store.node_setState _ function id _).symm.trans again) definedBy)
  · exact .inl has

end Waiting

section Leaving

variable {after : Progress} (placed : before.Placed home place)
  (ended : after.Placed home ⟨some entry.definition.id, place.declaring⟩)
  (onward : (before.enter function entry).scopes.Onward after.scopes)

include placed ended onward

/-- After its body a function is evaluated, and its scope is closed. -/
theorem leave :
    Progress.Placed home place { after.setState function .evaluated with
      scopes := after.scopes.truncate before.scopes.depth } := by
  obtain ⟨closed, -⟩ := placed.scopes.close ended.scopes onward
  exact (ended.setState function (by decide)).changeScopes closed (fun id old => ⟨old, rfl⟩)
    fun _ _ => .inl

/-- Whether variables are cleared before their scope is closed or forgotten afterwards makes no
difference. -/
theorem clear_truncate_forget (own : home entry.definition.id = some entry.definition.id)
    (missing : ¬before.scopes.Has entry.definition.id) :
    (after.scopes.forget.clearVariables (before.scopeOf entry)).truncate before.scopes.depth =
      (after.scopes.truncate before.scopes.depth).forget := by
  obtain ⟨there, nodeOf⟩ := Scopes.node_opened before.scopes entry.definition.id
    .functionBody (some entry.scope)
  have nodeAfter := (onward.node _ there).trans nodeOf
  refine Scopes.clear_truncate_forget (onward.stack.trans (Scopes.stack_push ..)) ?_ ?_
  · refine (ended.scopes.kind _ (lt_of_lt_of_le there onward.size)).mpr ?_
    rw [nodeAfter]
    exact own
  · intro listed
    have old := placed.scopes.valid _ listed
    exact missing ⟨_, old, (Scopes.node_push _ _ _ _ old).2.symm.trans nodeOf⟩

end Leaving

end Progress.Placed

namespace Agrees

/-- The only overload of a function that waits is evaluated. -/
theorem evaluateOverload (library : environment.options.isUser = false)
    (placed : before.Placed home place)
    (follows : ∀ place, (Logic.discarding home).Follows (fun _ => engine) place)
    {node : NodeId} (definedBy : (before.store.functionAt function).node = some node)
    (pending : (before.store.functionAt function).overloads.map (·.state) = [.pending])
    {entry : FunctionEntry} (declared : before.symbols.function? node = some entry) :
    Agrees home place environment before (engine.evaluateOverload ⟨function, 0⟩ entry) := by
  obtain ⟨settled, -⟩ := placed.entries entry (Symbols.mem_of_function? declared).1
  have missing := placed.not_has definedBy declared pending
  have keptBody := engine.evaluateOverload_apply function entry (environment.keeping true) before
  have discardedBody :=
    engine.evaluateOverload_apply function entry (environment.keeping false) before.forget
  obtain ⟨entered, scope⟩ := Progress.enter_forget function missing
  rw [entered, scope] at discardedBody
  have contents := Engine.evaluateContents_holds (follows _) ⟨function, 0⟩
    (settled.permits place.declaring) environment _ library
    (placed.enter definedBy declared)
  cases contents with
  | failed kept discarded =>
    exact .failed
      (keptBody.trans (withCleanup_of_error (Engine.evaluateInside_of_error _ kept) _))
      (discardedBody.trans (withCleanup_of_error (Engine.evaluateInside_of_error _ discarded) _))
  | @returned _ after kept discarded ended onward =>
    have keeps : (environment.keeping true).options.discardsLocals = false := by
      simp [Environment.keeping, Options.discardsLocals]
    have discards : (environment.keeping false).options.discardsLocals = true := by
      change (!environment.options.isUser && !false) = true
      rw [library]
      rfl
    have keptInside := Engine.evaluateInside_of_ok (before.scopeOf entry) kept
    have discardedInside := Engine.evaluateInside_of_ok (before.scopeOf entry) discarded
    rw [keeps] at keptInside
    rw [discards] at discardedInside
    refine .returned (keptBody.trans (withCleanup_of_ok keptInside _))
      ((discardedBody.trans (withCleanup_of_ok discardedInside _)).trans ?_)
      (placed.leave ended onward) (placed.scopes.close ended.scopes onward).2
    change EStateM.Result.ok () { after.setState function .evaluated with
      scopes := (after.scopes.forget.clearVariables (before.scopeOf entry)).truncate
        before.scopes.depth } = _
    rw [placed.clear_truncate_forget ended onward settled.own missing]
    rfl

/-- The evaluation of a function comes to the same. -/
theorem evaluateDefinition (library : environment.options.isUser = false)
    (placed : before.Placed home place)
    (follows : ∀ place, (Logic.discarding home).Follows (fun _ => engine) place)
    (function : FunctionId) :
    Agrees home place environment before (engine.evaluateDefinition function) := by
  cases definedBy : (before.store.functionAt function).node with
  | none =>
    have undefined : (before.forget.store.functionAt function).node = none := definedBy
    exact .returned (Engine.evaluateDefinition_of_undefined definedBy)
      (Engine.evaluateDefinition_of_undefined undefined) placed (.refl _)
  | some node =>
    have definedByForgotten : (before.forget.store.functionAt function).node = some node :=
      definedBy
    obtain ⟨state, single⟩ := placed.single function node definedBy
    by_cases pending : state = .pending
    · subst pending
      cases declared : before.symbols.function? node with
      | none =>
        exact .failed (Engine.evaluateDefinition_of_undeclared definedBy single declared)
          (Engine.evaluateDefinition_of_undeclared definedByForgotten single declared)
      | some entry =>
        exact (evaluateOverload library placed follows definedBy single declared).of_step
          (Engine.evaluateDefinition_of_pending definedBy single declared)
          (Engine.evaluateDefinition_of_pending definedByForgotten single declared) (.refl _)
    · exact .returned (Engine.evaluateDefinition_of_begun definedBy single pending)
        (Engine.evaluateDefinition_of_begun definedByForgotten single pending) placed (.refl _)

end Agrees

section Specialization

variable {engine : Engine}

namespace Engine

section Following

variable (follows : ∀ place, (Logic.discarding home).Follows (fun _ => engine) place)

include follows

/-- A specialization is made of what comes to the same. -/
theorem makeSpecialization_discarding (place : Place) (template : ClassId)
    (evidence : Evidence) :
    (Logic.discarding home).Holds place fun _ => engine.makeSpecialization template evidence := by
  let logic := Logic.discarding home
  have materialized (placeholder : ClassId) :
      logic.Holds place fun _ => engine.materialize template placeholder evidence := by
    refine materialize_holds (substitutes (follows place) (within_every _)) template
      placeholder ?_ ?_
    · rintro _ - bases - - environment before - placed
      exact .modifyStore placed (Store.alike_setBases _ placeholder _).sameDefinitions
    · rintro _ - name - value - environment before - placed
      exact .modifyStore placed
        (Store.alike_addMember _ placeholder name value true).sameDefinitions
  intro environment before library placed
  refine Agrees.bind (.returned rfl rfl placed (.refl _)) fun store _ placed _ => ?_
  refine Agrees.bind (.onStore placed ⟨fun _ => rfl, fun _ => rfl⟩) fun placeholder _ placed _ => ?_
  refine Agrees.bind (.modifyStore placed ⟨fun _ => rfl, fun _ => rfl⟩) fun _ middle placed _ => ?_
  refine Agrees.bind ?_ fun _ _ placed _ => .onStore placed ⟨fun _ => rfl, fun _ => rfl⟩
  have ends (store : Store) : store.SameDefinitions (endSpecialization store template) :=
    ⟨fun _ => rfl, fun _ => rfl⟩
  exact (materialized placeholder environment middle library placed).withCleanup ends

/-- A class is specialized in the same way. -/
theorem specializeClass_discarding (place : Place) (id : ClassId) (arguments : Arguments) :
    (Logic.discarding home).Holds place fun _ => engine.specializeClass id arguments := by
  let logic := Logic.discarding home
  refine logic.bind logic.store ?_
  rintro _ rfl store -
  cases (store.classAt id).template with
  | some template => exact (follows place).specialize trivial (within_every _)
  | none =>
    refine logic.bind (ensureConstructed_holds (follows place) id) ?_
    rintro _ rfl _ -
    refine logic.bind logic.store ?_
    rintro _ rfl store -
    have known (id : ClassId) : logic.Holds place fun _ => (Pure.pure id : Analysis ClassId) :=
      logic.pure (within_every id)
    refine Judgement.ite (fun _ => known id) fun _ => ?_
    dsimp only
    split
    · exact known _
    · split
      · exact known _
      · exact makeSpecialization_discarding follows place id _

end Following

/-- The engine of each depth does the same whether local variables are kept or discarded. -/
theorem atDepth_discarding (depth : Nat) : ∀ place,
    (Logic.discarding home).Follows (fun _ => atDepth depth) place := by
  induction depth with
  | zero => exact fun _ => ⟨fun _ _ _ _ _ _ _ => .failed rfl rfl,
      fun _ _ _ _ _ _ _ _ _ => .failed rfl rfl⟩
  | succ depth inductionHypothesis =>
    intro place
    constructor
    · intro second _ function _ environment before library placed
      exact .evaluateDefinition library placed inductionHypothesis function
    · intro second _ id arguments _ _
      exact specializeClass_discarding inductionHypothesis second id arguments

end Engine

end Specialization

namespace Agrees

/-- The declared functions are evaluated to the last. -/
theorem evaluateDeclared (library : environment.options.isUser = false) (depth bound : Nat) :
    ∀ (number : Nat) {before : Progress}, before.Placed home {} →
      Agrees home {} environment before
        (Analysis.evaluateDeclared (Engine.atDepth depth) bound number) := by
  induction bound with
  | zero => exact fun _ _ _ => .failed rfl rfl
  | succ bound inductionHypothesis =>
    intro number before placed
    refine of_step ?_ (evaluateDeclared_succ ..) (evaluateDeclared_succ ..) (.refl _)
    cases before.symbols.functionAt? number with
    | none => exact .pure placed ()
    | some entry =>
      have evaluated : (Logic.discarding home).Holds ({} : Place) fun _ =>
          (Engine.atDepth depth).evaluateFunction entry.function :=
        (Engine.atDepth_discarding depth {}).evaluateFunction trivial
      exact (evaluated environment before library placed).bind fun _ _ placed _ =>
        inductionHypothesis (number + 1) placed

/-- What is analyzed in the scope of a module, which is never forgotten. -/
theorem analyzeIn (library : environment.options.isUser = false) {module : Module}
    (distinct : module.HasDistinctNodes) (flat : module.IsFlat) (depth : Nat)
    (placed : before.Placed module.home {}) {scope : ScopeId}
    (present : scope.index < before.scopes.all.size)
    (own : (before.scopes.scopeAt scope).node = NodeId.module) :
    Agrees module.home {} environment before (module.analyzeIn depth scope) := by
  let logic := Logic.discarding module.home
  have attributes : logic.Holds {} fun _ => declareAttributes moduleAttributes :=
    declareAttributes_holds moduleAttributes
  have permitted : logic.Permits {} module.body := by
    refine Statement.blockPermitted_of_outerNodes ?_ ?_
    · intro node outer
      have homeless := distinct.home_of_outer (List.mem_cons_of_mem _ outer)
      refine ⟨homeless, ?_⟩
      rw [homeless]
      exact fun impossible => nomatch impossible
    · exact fun definition listed => ⟨rfl, distinct.settled flat listed⟩
  have walked := Engine.walkBlock_holds (Engine.atDepth_discarding depth {}) within_module permitted
  refine (attributes environment before library placed).bind fun _ first placed toFirst => ?_
  refine (walked environment first library placed).bind fun _ second placed toSecond => ?_
  refine (evaluateDeclared library depth depth 0 placed).bind fun _ last placed toLast => ?_
  have onward := toFirst.trans (toSecond.trans toLast)
  have kept : ¬last.scopes.Finished scope := by
    apply Scopes.not_finished_of_kind
    intro function
    have itself := (placed.scopes.kind scope (lt_of_lt_of_le present onward.size)).mp function
    rw [onward.node scope present, own, distinct.home_of_outer List.mem_cons_self] at itself
    cases itself
  have same : globalsOf last.scopes.forget scope = globalsOf last.scopes scope := by
    unfold globalsOf
    rw [Scopes.scopeAt_forget_of_unfinished kept]
  refine .returned rfl ?_ placed (.refl _)
  change EStateM.Result.ok (globalsOf last.scopes.forget scope) last.forget = _
  rw [same]

end Agrees

/-- The scopes of a module that was just opened. -/
theorem Scopes.push_module : Scopes.push {} NodeId.module .module none =
    (⟨0⟩, ⟨#[{ kind := .module, node := NodeId.module, parent := none }], [⟨0⟩]⟩) := by
  simp [Scopes.push, Scopes.scopeOf?, Scopes.current?]

/-- A fresh analyzer has everything in place, once the scope of a module is open. -/
theorem Progress.placed_fresh {module : Module} (distinct : module.HasDistinctNodes) :
    Progress.Placed module.home {}
      { store := Registry.standard.store
        scopes := (Scopes.push {} NodeId.module .module none).2 } := by
  rw [Scopes.push_module]
  have homeless := distinct.home_of_outer List.mem_cons_self
  have only {id : ScopeId} (present : id.index < 1) : id = ⟨0⟩ :=
    Scopes.eq_of_index (Nat.lt_one_iff.mp present)
  have undefined {id : FunctionId} {node : NodeId} {β : Prop}
      (definedBy : (Registry.standard.store.functionAt id).node = some node) : β := by
    rw [Registry.node_standard] at definedBy
    cases definedBy
  constructor
  · constructor
    · intro id other present otherPresent _
      rw [only present, only otherPresent]
    · intro id present
      cases only present
      refine ⟨(nomatch ·), fun itself => ?_⟩
      cases homeless.symm.trans itself
    · intro id outer present parent
      cases only present
      cases parent
    · intro id listed
      cases List.mem_singleton.mp listed
      exact Nat.one_pos
    · exact ⟨⟨0⟩, rfl, homeless⟩
    · exact fun _ impossible => nomatch impossible
  · exact fun _ impossible => nomatch impossible
  · exact fun _ _ => undefined
  · exact fun _ _ _ definedBy _ => undefined definedBy
  · exact fun _ _ => undefined
  · exact fun _ impossible => nomatch impossible
  · rintro node itself ⟨id, present, rfl⟩
    cases only present
    cases homeless.symm.trans itself

/-- Nothing is forgotten of a module that was just opened. -/
theorem Scopes.forget_push_module :
    (Scopes.push {} NodeId.module .module none).2.forget =
      (Scopes.push {} NodeId.module .module none).2 := by
  simp [Scopes.push_module, Scopes.forget, Scopes.Finished, Scopes.scopeAt]

namespace Analyzer

/-- The analysis of a flat module comes to the same whether local variables are kept or
discarded, and in the end no scope is open. -/
theorem run_keeping {options : Options} (library : options.isUser = false) {module : Module}
    (distinct : module.HasDistinctNodes) (flat : module.IsFlat) (depth : Nat)
    {run : Bool → EStateM.Result Failure Progress (List Variable)}
    (runs : ∀ keep, run keep = (new { options with keepLibraryLocals := keep }).run
      (Analysis.ofModuleWithin depth module)) :
    (∃ globals after, run true = .ok globals after ∧ run false = .ok globals after.forget ∧
      after.scopes.stack = []) ∨
    ∃ failure left leftOther, run true = .error failure left ∧
      run false = .error failure leftOther := by
  let environment : Environment := ⟨Registry.standard.registry, options⟩
  let opened := Scopes.push {} NodeId.module .module none
  let start : Progress := { store := Registry.standard.store, scopes := opened.2 }
  have whole (keep : Bool) : run keep =
      Analysis.withCleanup (module.analyzeIn depth opened.1)
        (fun after => { after with scopes := after.scopes.truncate 0 })
        (environment.keeping keep) start := runs keep
  have placed : start.Placed module.home {} := Progress.placed_fresh distinct
  have unforgotten : start.forget = start :=
    congrArg (fun scopes => { start with scopes }) Scopes.forget_push_module
  obtain ⟨present, own⟩ := Scopes.node_opened {} NodeId.module .module none
  have analyzed : Agrees module.home {} environment start (module.analyzeIn depth opened.1) :=
    .analyzeIn library distinct flat depth placed present own
  cases analyzed with
  | failed kept discarded =>
    rw [unforgotten] at discarded
    exact .inr ⟨_, _, _, (whole true).trans (withCleanup_of_error kept _),
      (whole false).trans (withCleanup_of_error discarded _)⟩
  | @returned globals after kept discarded placedAfter onward =>
    rw [unforgotten] at discarded
    have innermost : after.scopes.stack = [opened.1] :=
      onward.stack.trans (Scopes.stack_push ..)
    have itself : (after.scopes.scopeAt opened.1).node = NodeId.module :=
      (onward.node _ present).trans own
    have kind : (after.scopes.scopeAt opened.1).kind ≠ .functionBody := by
      intro function
      have home := (placedAfter.scopes.kind _ (lt_of_lt_of_le present onward.size)).mp function
      rw [itself, distinct.home_of_outer List.mem_cons_self] at home
      cases home
    have closed : after.scopes.forget.truncate 0 = (after.scopes.truncate 0).forget :=
      Scopes.truncate_forget innermost kind
    refine .inl ⟨globals, _, (whole true).trans (withCleanup_of_ok kept _),
      ((whole false).trans (withCleanup_of_ok discarded _)).trans ?_,
      Scopes.stack_truncate_cons innermost⟩
    change EStateM.Result.ok globals { after.forget with
      scopes := after.scopes.forget.truncate 0 } = _
    rw [closed]
    rfl

/-- Whether the local variables of a library are kept or discarded, the analysis of a module
whose functions define no functions, and whose nodes are distinct, has the same globals and
the same log. At any depth it fails in the same way, or has the same globals and leaves the
same store, declarations and log, and the same scopes but for the variables of functions. -/
theorem discarded_locals_unneeded (options : Options) (library : options.isUser = false)
    (module : Module) (distinct : module.HasDistinctNodes) (flat : module.IsFlat) :
    ((new { options with keepLibraryLocals := false }).analyze module).1 =
        ((new { options with keepLibraryLocals := true }).analyze module).1 ∧
      ∀ depth,
        let kept := (new { options with keepLibraryLocals := true }).run
          (Analysis.ofModuleWithin depth module)
        let discarded := (new { options with keepLibraryLocals := false }).run
          (Analysis.ofModuleWithin depth module)
        (∃ globals after left, kept = .ok globals after ∧ discarded = .ok globals left ∧
          left.store = after.store ∧ left.symbols = after.symbols ∧ left.log = after.log ∧
          ∀ id, left.scopes.scopeAt id =
            if (after.scopes.scopeAt id).kind = .functionBody then
              { after.scopes.scopeAt id with entries := [] }
            else after.scopes.scopeAt id) ∨
        ∃ failure left leftOther, kept = .error failure left ∧
          discarded = .error failure leftOther := by
  constructor
  · unfold analyze Analysis.ofModule
    rcases run_keeping library distinct flat Engine.depthLimit fun _ => rfl with
      ⟨globals, after, kept, discarded, -⟩ | ⟨failure, left, leftOther, kept, discarded⟩
    · rw [kept, discarded]
      rfl
    · rw [kept, discarded]
  · intro depth
    rcases run_keeping library distinct flat depth fun _ => rfl with
      ⟨globals, after, kept, discarded, closed⟩ | failed
    · refine .inl ⟨globals, after, after.forget, kept, discarded, rfl, rfl, rfl, fun id => ?_⟩
      have finished : after.scopes.Finished id ↔
          (after.scopes.scopeAt id).kind = .functionBody := by
        unfold Scopes.Finished
        rw [closed]
        simp
      change after.scopes.forget.scopeAt id = _
      rw [Scopes.scopeAt_forget]
      simp only [finished]
    · exact .inr failed

/-- A function with a parameter and a local variable, and a variable for what a call of it
gives. -/
def totalModule : Module :=
  ⟨[.defineFunction 1 "total" ["amount"]
      [.define "rate" (.constant (.int 1) .unknown), .returning "rate"],
    .define "v" (.call (.ofName "total") [⟨.positional, .constant (.int 2) .unknown⟩] .unknown)]⟩

/-- The options for a library whose local variables are kept or discarded. -/
def libraryOptions (keep : Bool) : Options :=
  { moduleKind := .library, keepLibraryLocals := keep }

/-- The names of the variables that the functions of an analyzed library have. -/
def localNames (keep : Bool) (module : Module) : List (List String) :=
  let left := (Analysis.ofModule module).after
    ⟨Registry.standard.registry, libraryOptions keep⟩ { store := Registry.standard.store }
  (left.scopes.all.toList.filter fun scope => scope.kind = .functionBody).map Scope.names

/-- The analysis of that module is the same without the variables of its function. -/
theorem discarded_locals_unneeded_call :
    (libraryOptions true).isUser = false ∧ totalModule.HasDistinctNodes ∧ totalModule.IsFlat ∧
      localNames true totalModule = [["amount", "rate"]] ∧ localNames false totalModule = [[]] ∧
      ((new (libraryOptions false)).analyze totalModule).1 =
        ((new (libraryOptions true)).analyze totalModule).1 := by
  have library : (libraryOptions true).isUser = false := by decide
  have distinct : totalModule.HasDistinctNodes := by decide
  have flat : totalModule.IsFlat := by decide
  exact ⟨library, distinct, flat, by decide +kernel, by decide +kernel,
    (discarded_locals_unneeded (libraryOptions true) library totalModule distinct flat).1⟩

/-- A function that returns another one, which reads a variable of the first, and a variable
for what a call of the second gives. -/
def closureModule : Module :=
  ⟨[.defineFunction 1 "outer" []
      [.define "x" (.constant (.int 1) .unknown),
        .defineFunction 2 "inner" [] [.returning "x"], .returning "inner"],
    .define "v" (.call (.call (.ofName "outer") [] .unknown) [] .unknown)]⟩

/-- The value of a variable of an analyzed library, and the codes of all diagnostics. -/
def shownWithCodes (keep : Bool) (module : Module) (name : String) :
    Option (String × List String) :=
  match (new (libraryOptions keep)).analyze module with
  | (.ok analysis, after) => (analysis.value? name).map fun value =>
      (after.store.valueText value, analysis.log.toList.map (·.code))
  | (.error _, _) => none

/-- The inner function is evaluated after the outer one, when the variable that it reads was
discarded: another value is found, and a name is reported as undefined. -/
theorem discarded_locals_needed :
    closureModule.HasDistinctNodes ∧
      shownWithCodes true closureModule "v" = some ("int", []) ∧
      shownWithCodes false closureModule "v" = some ("Unknown", ["undefined-variable"]) ∧
      ((new (libraryOptions false)).analyze closureModule).1 ≠
        ((new (libraryOptions true)).analyze closureModule).1 := by
  have distinct : closureModule.HasDistinctNodes := by decide
  have kept : shownWithCodes true closureModule "v" = some ("int", []) := by decide +kernel
  have discarded : shownWithCodes false closureModule "v" =
      some ("Unknown", ["undefined-variable"]) := by decide +kernel
  have codes (keep : Bool) {text : String} {codes : List String}
      (shown : shownWithCodes keep closureModule "v" = some (text, codes)) :
      ∃ analysis, ((new (libraryOptions keep)).analyze closureModule).1 = .ok analysis ∧
        analysis.log.toList.map (·.code) = codes := by
    unfold shownWithCodes at shown
    split at shown
    · next analysis after analyzed =>
      obtain ⟨value, -, same⟩ := Option.map_eq_some_iff.mp shown
      exact ⟨analysis, by rw [analyzed], congrArg Prod.snd same⟩
    · cases shown
  refine ⟨distinct, kept, discarded, fun same => ?_⟩
  obtain ⟨first, keptAnalysis, nothing⟩ := codes true kept
  obtain ⟨second, discardedAnalysis, reported⟩ := codes false discarded
  rw [keptAnalysis, discardedAnalysis] at same
  cases same
  cases nothing.symm.trans reported

end Analyzer

end TypeInference
