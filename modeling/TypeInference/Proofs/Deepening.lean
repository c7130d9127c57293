import TypeInference.Proofs.Outcome

/-!
# Enough depth

The depth of an engine limits how far evaluations nest, so an analysis with an engine is a
family of analyses, one for each depth. Such a family stabilizes if from some depth on it
gives one result, and at any other depth gives the same or notices that it went too deep. A
family that stabilizes at some depth terminates without that limit, and has no other outcome.

The laws say how composed families stabilize. A family that asks the next shallower engine
stabilizes one step deeper than what it asks for.
-/

namespace TypeInference.Analysis

variable {α β : Type}

/-- With enough depth a family of analyses gives one result, and with any depth this one or
the notice that evaluations went too deep. -/
structure Stabilizes (analyses : Nat → Analysis α) (environment : Environment)
    (before : Progress) (result : α) (after : Progress) : Prop where
  enough : ∃ least, ∀ depth, least ≤ depth →
    analyses depth environment before = .ok result after
  otherwise : ∀ depth, analyses depth environment before = .ok result after ∨
    ∃ left, analyses depth environment before = .error .tooDeep left

namespace Stabilizes

variable {environment : Environment} {before middle after : Progress}

/-- What does not depend on the depth. -/
theorem of_ok {analyses : Nat → Analysis α} {result : α}
    (returned : ∀ depth, analyses depth environment before = .ok result after) :
    Stabilizes analyses environment before result after :=
  ⟨⟨0, fun depth _ => returned depth⟩, fun depth => .inl (returned depth)⟩

theorem bind {first : Nat → Analysis α} {next : Nat → α → Analysis β} {found : α} {result : β}
    (begins : Stabilizes first environment before found middle)
    (continues : Stabilizes (fun depth => next depth found) environment middle result after) :
    Stabilizes (fun depth => first depth >>= next depth) environment before result after := by
  constructor
  · obtain ⟨one, begun⟩ := begins.enough
    obtain ⟨other, continued⟩ := continues.enough
    refine ⟨max one other, fun depth deep => ?_⟩
    rw [bind_apply, begun depth (by omega)]
    exact continued depth (by omega)
  · intro depth
    rw [bind_apply]
    rcases begins.otherwise depth with returned | ⟨left, failed⟩
    · rw [returned]
      exact continues.otherwise depth
    · rw [failed]
      exact .inr ⟨left, rfl⟩

/-- A change that is made in any case is made to what the analysis leaves. -/
theorem withCleanup {body : Nat → Analysis α} {result : α}
    (stable : Stabilizes body environment before result after) (change : Progress → Progress) :
    Stabilizes (fun depth => Analysis.withCleanup (body depth) change) environment before result
      (change after) := by
  constructor
  · obtain ⟨least, returned⟩ := stable.enough
    refine ⟨least, fun depth deep => ?_⟩
    simp only [Analysis.withCleanup, returned depth deep]
  · intro depth
    rcases stable.otherwise depth with returned | ⟨left, failed⟩
    · exact .inl (by simp only [Analysis.withCleanup, returned])
    · exact .inr ⟨change left, by simp only [Analysis.withCleanup, failed]⟩

/-- A family that is too deep at first and then asks another one, which is a step shallower. -/
theorem deeper {analyses asked : Nat → Analysis α} {result : α}
    (shallow : analyses 0 environment before = .error .tooDeep before)
    (asks : ∀ depth, analyses (depth + 1) environment before = asked depth environment before)
    (stable : Stabilizes asked environment before result after) :
    Stabilizes analyses environment before result after := by
  constructor
  · obtain ⟨least, returned⟩ := stable.enough
    refine ⟨least + 1, fun depth deep => ?_⟩
    obtain ⟨shallower, rfl⟩ : ∃ shallower, depth = shallower + 1 := ⟨depth - 1, by omega⟩
    rw [asks, returned shallower (by omega)]
  · intro depth
    cases depth with
    | zero => exact .inr ⟨before, shallow⟩
    | succ shallower => simpa only [asks] using stable.otherwise shallower

/-- A family that is another one from some depth on, and too deep before. -/
theorem beyond {analyses other : Nat → Analysis α} {result : α} (least : Nat)
    (shallow : ∀ depth, depth < least →
      analyses depth environment before = .error .tooDeep before)
    (same : ∀ depth, least ≤ depth →
      analyses depth environment before = other depth environment before)
    (stable : Stabilizes other environment before result after) :
    Stabilizes analyses environment before result after := by
  constructor
  · obtain ⟨enough, returned⟩ := stable.enough
    refine ⟨max least enough, fun depth deep => ?_⟩
    rw [same depth (by omega), returned depth (by omega)]
  · intro depth
    by_cases deep : least ≤ depth
    · simpa only [same depth deep] using stable.otherwise depth
    · exact .inr ⟨before, shallow depth (Nat.lt_of_not_le deep)⟩

end Stabilizes

end TypeInference.Analysis
