import TypeInference.Analyzer
import TypeInference.Proofs.Homes
import TypeInference.Proofs.Specializations
import TypeInference.Proofs.Standard

/-!
# Analysis terminates without a fault

After the body of a module is walked, the declared functions are evaluated in order, together
with those that are declared meanwhile. Each of these evaluations either changes nothing, so
that the end of the declared functions is one step nearer, or it lowers what remains. So the
analysis of a module converges as a whole, which says two things: with enough depth there is
a result, and with less depth there is no other failure than that evaluations went too deep.
-/

namespace TypeInference

open Analysis

namespace Registry

/-- What is registered mentions registered functions only. -/
theorem mentions_registered {α : Type} [Refers α] {thing : α} (within : Within references thing) :
    Within standard.store.HasFunction thing := by
  refine Refers.widen (fun reference isKnown => ?_) thing within
  cases reference with
  | function id => exact isKnown
  | cls _ | owner _ | vague | union _ => trivial

end Registry

/-- The declared function at a place is evaluated, and then the ones after it. -/
theorem Analysis.evaluateDeclared_succ (engine : Engine) (bound place : Nat)
    (environment : Environment) (before : Progress) :
    evaluateDeclared engine (bound + 1) place environment before =
      (match before.symbols.functionAt? place with
        | none => Pure.pure ()
        | some entry => engine.evaluateFunction entry.function >>= fun _ =>
            evaluateDeclared engine bound (place + 1)) environment before := rfl

namespace Converges

variable {nodes : List NodeId} {known : FunctionId → Prop} {environment : Environment}
  {before : Progress} {α : Type} [Refers α] {kept : Progress → Prop}

/-- A family that is another one from some depth on, and too deep before. -/
theorem beyond {analyses other : Nat → Analysis α}
    (converges : Converges nodes known environment before other kept) (least : Nat)
    (shallow : ∀ depth, depth < least →
      analyses depth environment before = .error .tooDeep before)
    (same : ∀ depth, least ≤ depth →
      analyses depth environment before = other depth environment before) :
    Converges nodes known environment before analyses kept := by
  obtain ⟨later, result, after, converged, keeps⟩ := converges
  exact ⟨later, result, after,
    { converged with stable := converged.stable.beyond least shallow same }, keeps⟩

/-- The declared functions are evaluated to the last. The induction is on what remains and,
where the same remains, on how many functions come after the one at hand. -/
theorem evaluateDeclared (sound : before.Sound nodes known environment) (place : Nat) :
    Converges nodes known environment before
      (fun depth => Analysis.evaluateDeclared (Engine.atDepth depth) (depth - place) place)
      fun _ => True := by
  suffices every : ∀ bound : ℕ ×ₗ ℕ, ∀ count place known, ∀ before : Progress,
      before.remaining nodes = bound → before.symbols.functions.size - place = count →
        before.Sound nodes known environment → Converges nodes known environment before
          (fun depth => Analysis.evaluateDeclared (Engine.atDepth depth) (depth - place) place)
          fun _ => True from every _ _ place known before rfl rfl sound
  intro bound
  induction bound using WellFoundedLT.induction with
  | ind bound lower =>
    intro count
    induction count using Nat.strong_induction_on with
    | h count fewer =>
      rintro place known before rfl rfl sound
      have continues : Converges nodes known environment before
          (fun depth => match before.symbols.functionAt? place with
            | none => Pure.pure ()
            | some entry => (Engine.atDepth depth).evaluateFunction entry.function >>= fun _ =>
                Analysis.evaluateDeclared (Engine.atDepth depth) (depth - (place + 1)) (place + 1))
          fun _ => True := by
        cases found : before.symbols.functionAt? place with
        | none => exact .pure sound (within_unit ()) trivial
        | some entry =>
          have inside : place < before.symbols.functions.size :=
            (Array.getElem?_eq_some_iff.mp found).1
          have isKnown := (sound.entries entry
            (Array.mem_toList_iff.mpr (Array.mem_of_getElem? found))).1
          have evaluated := evaluateFunction sound (fun less _ => shallower nodes less) isKnown
          refine evaluated.bind ?_
          rintro later _ after converged (rfl | less)
          · exact fewer _ (by omega) (place + 1) later after rfl rfl converged.sound
          · exact lower _ less _ (place + 1) later after rfl rfl converged.sound
      refine continues.beyond (place + 1) (fun depth low => ?_) fun depth high => ?_
      · rw [show depth - place = 0 by omega]
        rfl
      · rw [show depth - place = (depth - (place + 1)) + 1 by omega]
        exact Analysis.evaluateDeclared_succ ..

end Converges

/-- What is analyzed in the scope of a module. -/
def Module.analyzeIn (module : Module) (depth : Nat) (scope : ScopeId) :
    Analysis (List Variable) := do
  declareAttributes moduleAttributes
  (Engine.atDepth depth).walkBlock .module module.body
  evaluateDeclared (Engine.atDepth depth) depth 0
  return globalsOf (← scopes) scope

/-- A module can be analyzed from any sound progress. -/
theorem Converges.analyzeIn (module : Module) (scope : ScopeId) {known : FunctionId → Prop}
    {environment : Environment} {before : Progress}
    (sound : before.Sound module.nodes known environment) :
    Converges module.nodes known environment before (fun depth => module.analyzeIn depth scope)
      fun _ => True := by
  have listed : Opens (· ∈ module.nodes) (Outline.ofStatements module.body) :=
    fun entry among node same => List.mem_filterMap.mpr ⟨entry, among, same⟩
  let logic := Logic.convergence module.nodes (before.remaining module.nodes)
  have attributes : logic.Holds known fun _ => declareAttributes moduleAttributes :=
    declareAttributes_holds moduleAttributes
  refine (attributes environment before sound le_rfl).bind ?_
  intro declared _ middle converged few
  have walked : logic.Holds declared fun depth =>
      (Engine.atDepth depth).walkBlock .module module.body :=
    Engine.walkBlock_holds (shallower module.nodes _ declared) within_module
      (Statement.BlockPermitted.of_opens (fun _ _ => trivial) (fun _ => id) listed)
  refine (walked environment middle converged.sound few).bind ?_
  intro walkedKnown _ ending converged _
  refine (Converges.evaluateDeclared converged.sound 0).bind ?_
  intro last _ after converged _
  exact .of_ok (fun _ => rfl) (fun _ => id) converged.sound (.refl _) rfl
    (fun declared among => converged.sound.visible.within _ declared (List.mem_filter.mp among).1)
    trivial

/-- A fresh analyzer is sound, once the scope of a module is open. -/
theorem Progress.sound_fresh (nodes : List NodeId) (options : Options) :
    Progress.Sound nodes Registry.standard.store.HasFunction
      ⟨Registry.standard.registry, options⟩
      { store := Registry.standard.store
        scopes := (Scopes.push {} NodeId.module .module none).2 } where
  registered := Registry.mentions_registered Registry.within_registry_standard
  stored := by
    dsimp only
    exact Registry.mentions_registered Registry.within_store_standard
  visible := by
    refine ⟨within_push (fun _ => ?_) _ _ _, ?_⟩
    · exact within_nil
    · rw [Scopes.stack_push]
      exact List.cons_ne_nil _ _
  present _ := id
  entries _ impossible := nomatch impossible
  defined id node _ definedBy := by
    rw [Registry.node_standard] at definedBy
    cases definedBy
  single id node definedBy := by
    rw [Registry.node_standard] at definedBy
    cases definedBy
  flat id template madeFrom := by
    rw [Registry.template_standard] at madeFrom
    cases madeFrom

/-- The analysis of a module by a fresh analyzer stabilizes. -/
theorem Analyzer.stabilizes (options : Options) (module : Module) :
    ∃ globals after, Stabilizes (fun depth => Analysis.ofModuleWithin depth module)
      ⟨(Analyzer.new options).registry, options⟩ { store := (Analyzer.new options).store }
      globals after := by
  obtain ⟨known, globals, after, converged, -⟩ :=
    Converges.analyzeIn module _ (Progress.sound_fresh module.nodes options)
  have closed := converged.stable.withCleanup fun progress =>
    { progress with scopes := progress.scopes.truncate 0 }
  exact ⟨globals, _, closed.enough, closed.otherwise⟩

/-- Whatever a module contains and whatever the options are, its analysis by a fresh analyzer
ends: from some depth on it gives one result, which no greater depth changes. -/
theorem Analyzer.analysis_terminates (options : Options) (module : Module) :
    ∃ enough globals after, ∀ depth, enough ≤ depth →
      (Analyzer.new options).run (Analysis.ofModuleWithin depth module) = .ok globals after := by
  obtain ⟨globals, after, stable⟩ := stabilizes options module
  obtain ⟨enough, returned⟩ := stable.enough
  exact ⟨enough, globals, after, returned⟩

/-- Whatever a module contains and whatever the options are, a fresh analyzer never ends in a
fault: at any depth there is a result, unless evaluations were nested deeper than allowed. So
it is when the analyzer is asked for a module. -/
theorem Analyzer.analysis_faultless (options : Options) (module : Module) :
    (∀ depth,
      (∃ globals after, (Analyzer.new options).run (Analysis.ofModuleWithin depth module) =
        .ok globals after) ∨
      ∃ after, (Analyzer.new options).run (Analysis.ofModuleWithin depth module) =
        .error .tooDeep after) ∧
    ((∃ found, ((Analyzer.new options).analyze module).1 = .ok found) ∨
      ((Analyzer.new options).analyze module).1 = .error (.analysis .tooDeep)) := by
  obtain ⟨globals, after, stable⟩ := stabilizes options module
  have outcome (depth : Nat) :
      (Analyzer.new options).run (Analysis.ofModuleWithin depth module) = .ok globals after ∨
        ∃ left, (Analyzer.new options).run (Analysis.ofModuleWithin depth module) =
          .error .tooDeep left := stable.otherwise depth
  refine ⟨fun depth => (outcome depth).imp_left fun returned => ⟨globals, after, returned⟩, ?_⟩
  unfold Analyzer.analyze Analysis.ofModule
  rcases outcome Engine.depthLimit with returned | ⟨left, failed⟩
  · rw [returned]
    exact .inl ⟨_, rfl⟩
  · rw [failed]
    exact .inr rfl

end TypeInference
