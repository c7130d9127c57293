import TypeInference.Proofs.Discipline

/-!
# Substitution keeps disciplines

Substitution needs nothing but the specializations of an engine. The laws follow the
definitions, and those of recursive definitions follow their recursion.
-/

namespace TypeInference

namespace Engine

variable {discipline : Discipline} {world : discipline.World} {engine : Engine}

theorem ensureConstructed_keeps (follows : engine.Follows discipline) (id : ClassId) :
    (engine.ensureConstructed id).Keeps discipline world := by
  refine .bind .store fun store => ?_
  split
  · exact .pure ()
  · split
    · exact follows.evaluateFunction _
    · exact .pure ()

theorem constructedMethod?_keeps (follows : engine.Follows discipline) (id : ClassId)
    (name : String) :
    (engine.constructedMethod? id name).Keeps discipline world :=
  .bind (ensureConstructed_keeps follows id) fun _ => .bind .store fun _ => .pure _

theorem substituteClass_keeps (follows : engine.Follows discipline) (bindings : Bindings)
    (id : ClassId) :
    (engine.substituteClass bindings id).Keeps discipline world := by
  refine .bind .store fun store => ?_
  split
  · exact .pure id
  · dsimp only
    split
    · exact .pure id
    · exact follows.specialize _ _

theorem substituteType_keeps (follows : engine.Follows discipline) (bindings : Bindings) (ty : Ty) :
    (engine.substituteType bindings ty).Keeps discipline world := by
  cases ty with
  | cls id =>
    exact .bind (substituteClass_keeps follows bindings id) fun _ => .pure _
  | _ => exact .pure _

mutual

theorem substitute_keeps (follows : engine.Follows discipline)
    (bindings : Bindings) :
    ∀ value, (engine.substitute bindings value).Keeps discipline world
  | .unknown => .pure _
  | .type ty => by
    rw [substitute]
    exact .bind (substituteType_keeps follows bindings ty) fun _ => .pure _
  | .union alternatives => by
    rw [substitute]
    exact .bind (substituteAll_keeps follows bindings alternatives) fun _ =>
      .bind .store fun _ => .pure _
  | .object (.parameter parameter) content => by
    rw [substitute]
    split
    · exact .bind .store fun _ => .pure _
    · exact .pure _
    · exact .pure _
  | .object (.cls id) content => by
    rw [substitute]
    refine .bind (substituteClass_keeps follows bindings id) fun specialized => ?_
    match content with
    | .plain =>
      dsimp only
      split
      · exact .pure _
      · exact .bind .store fun _ => .pure _
    | .constant _ => exact .pure _
    | .sequence ⟨items, _⟩ =>
      exact .bind (substituteAll_keeps follows bindings items) fun _ => .pure _
    | .mapping ⟨entries, _⟩ =>
      exact .bind (substituteEntries_keeps follows bindings entries) fun _ => .pure _
    | .iterator element =>
      exact .bind (substitute_keeps follows bindings element) fun _ => .pure _
  | .object .unknown _ => .pure _
  | .object (.function _) _ => .pure _
  | .object (.marker _) _ => .pure _

theorem substituteAll_keeps (follows : engine.Follows discipline) (bindings : Bindings) :
    ∀ values, (engine.substituteAll bindings values).Keeps discipline world
  | [] => .pure _
  | value :: rest => by
    rw [substituteAll]
    exact .bind (substitute_keeps follows bindings value) fun _ =>
      .bind (substituteAll_keeps follows bindings rest) fun _ => .pure _

theorem substituteEntries_keeps (follows : engine.Follows discipline) (bindings : Bindings) :
    ∀ entries, (engine.substituteEntries bindings entries).Keeps discipline world
  | [] => .pure _
  | (key, value) :: rest => by
    rw [substituteEntries]
    exact .bind (substitute_keeps follows bindings key) fun _ =>
      .bind (substitute_keeps follows bindings value) fun _ =>
        .bind (substituteEntries_keeps follows bindings rest) fun _ => .pure _

end

theorem substituteBases_keeps (follows : engine.Follows discipline) (bindings : Bindings)
    (bases : List Ty) :
    (engine.substituteBases bindings bases).Keeps discipline world := by
  induction bases with
  | nil => exact .pure _
  | cons base rest inductionHypothesis =>
    cases base with
    | marker => exact inductionHypothesis
    | cls id =>
      exact .bind (substituteClass_keeps follows bindings id) fun _ =>
        .bind inductionHypothesis fun _ => .pure _
    | _ => exact .bind inductionHypothesis fun _ => .pure _

end Engine

end TypeInference
