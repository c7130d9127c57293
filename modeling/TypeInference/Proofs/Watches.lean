import TypeInference.Proofs.Formation

/-!
# Watched analyses

An analysis is watched by comparing the progress it begins with and the progress it leaves: if
these are not as they should be, a fault takes the place of what comes of it. Watching an engine
is watching everything that is asked of it and of all engines of lesser depths, so it says
something about the progress in the middle of an analysis, however deep it is nested.

Where the progress is always as it should be, watching makes no difference. For an engine it is
enough that this is so of what grounded progress reaches.
-/

namespace TypeInference

open Analysis

section Watching

variable (watch : Environment → Progress → Progress → Prop)
  [∀ environment before after, Decidable (watch environment before after)]

/-- An analysis that fails if the progress it leaves is not as it should be. -/
def Analysis.watched {α : Type} (analysis : Analysis α) : Analysis α := fun environment before =>
  let after := analysis.after environment before
  if watch environment before after then analysis environment before
  else .error (.fault (.registry "progress is not as it should be")) after

/-- The engine of a depth, where everything that is asked of it and of the engines of lesser
depths is watched. -/
def Engine.watchedAtDepth : Nat → Engine
  | 0 => .exhausted
  | depth + 1 =>
    { evaluateFunction := fun function =>
        watched watch (evaluateDefinition (watchedAtDepth depth) function)
      specialize := fun id arguments =>
        watched watch (specializeClass (watchedAtDepth depth) id arguments) }

/-- The engine of a depth, watched or not. -/
def Engine.watchedIf (depth : Nat) (watches : Bool) : Engine :=
  if watches then watchedAtDepth watch depth else atDepth depth

end Watching

variable {watch : Environment → Progress → Progress → Prop}
  [∀ environment before after, Decidable (watch environment before after)]
  {environment : Environment} {before : Progress}

/-- Analyses go alike, watched or not, if the progress is as it should be. -/
theorem Grounds.watched {α : Type} [Refers α] {analyses asked : Bool → Analysis α}
    (asks : Grounds environment none before asked)
    (permits : watch environment before ((asked true).after environment before))
    (blind : analyses false = asked false)
    (watching : analyses true = Analysis.watched watch (asked true)) :
    Grounds environment none before analyses := by
  refine asks.of_step (fun watches => ?_) (.refl before)
  cases watches with
  | false => rw [blind]
  | true => rw [watching, Analysis.watched, if_pos permits]

/-- So do engines of any depth. -/
theorem Engine.areGrounded_watchedIf
    (permits : ∀ {environment before after}, Progress.Grounded environment before →
      before.Reaches environment none after → after.Grounded environment →
        watch environment before after) (depth : Nat) :
    AreGrounded (watchedIf watch depth) := by
  refine areGrounded_of_deeper (fun watches => ?_) (fun depth _ _ function grounded evaluated => ?_)
    (fun depth _ _ id arguments grounded specialized => ?_) depth
  · cases watches <;> rfl
  · obtain ⟨reaches, left⟩ := evaluated.after true
    exact evaluated.watched (permits grounded reaches left) rfl rfl
  · obtain ⟨reaches, left⟩ := specialized.after true
    exact specialized.watched (permits grounded reaches left) rfl rfl

/-- Then watching makes no difference to the analysis of a module. -/
theorem Analysis.ofModuleBy_watched
    (permits : ∀ {environment before after}, Progress.Grounded environment before →
      before.Reaches environment none after → after.Grounded environment →
        watch environment before after)
    (grounded : before.Grounded environment) (depth : Nat) (module : Module) :
    ofModuleBy (Engine.watchedAtDepth watch depth) depth module environment before =
      ofModuleWithin depth module environment before :=
  (Grounds.ofModuleBy (Engine.areGrounded_watchedIf permits depth) grounded depth module).same
    true false

end TypeInference
