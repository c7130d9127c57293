import TypeInference.Proofs.Lexical
import TypeInference.Proofs.StoreRelation

/-!
# Balance of the stacks

Scopes are opened and closed, and specializations begin and end. Whatever fails in
between, what was opened is closed and what was begun ends: when an operation is over,
the open scopes are those from before and every class has the unfinished specializations
from before, a class that was created none.

For the scopes this is part of lexical scoping. For the specializations it is a relation
of stores: nothing but the making of a specialization touches a stack, and that takes off
at its end what it put there.
-/

namespace TypeInference

/-- Every class has the same unfinished specializations in both stores; a class that is
in one of them only has none. -/
def Store.SameUnfinished (before after : Store) : Prop :=
  ∀ id, (after.classAt id).unfinished = (before.classAt id).unfinished

namespace Store.SameUnfinished

variable {before middle after : Store}

theorem refl (store : Store) : store.SameUnfinished store :=
  fun _ => rfl

theorem trans (earlier : before.SameUnfinished middle) (later : middle.SameUnfinished after) :
    before.SameUnfinished after :=
  fun id => (later id).trans (earlier id)

theorem addClass (store : Store) {record : ClassRecord} (idle : record.unfinished = {}) :
    store.SameUnfinished (store.addClass record).2 := by
  intro id
  rw [classAt_addClass_eq]
  split
  · next created =>
    rw [created, classAt_of_not_hasClass store _ store.not_hasClass_nextClass, idle]
    rfl
  · rfl

/-- A change of a class that leaves its stack alone. -/
theorem modifyClass (store : Store) (changed : ClassId) {change : ClassRecord → ClassRecord}
    (kept : ∀ record : ClassRecord, (change record).unfinished = record.unfinished) :
    store.SameUnfinished (store.modifyClass changed change) := by
  intro id
  rw [classAt_modifyClass_eq]
  split
  · exact kept _
  · rfl

theorem setBases (store : Store) (id : ClassId) (bases : List Ty) :
    store.SameUnfinished (store.setBases id bases) :=
  .modifyClass store id fun _ => rfl

theorem addMember (store : Store) (id : ClassId) (name : String) (value : Value)
    (overwrite : Bool) :
    store.SameUnfinished (store.addMember id name value overwrite).2 := by
  rw [addMember_eq]
  exact .modifyClass store id fun _ => rfl

/-- A specialization that begins and ends leaves every stack as it was, if what is done
in between does. -/
theorem bracket {store made : Store} {template : ClassId} {bindings : Bindings}
    (present : store.HasClass template)
    (idle : Engine.unfinished? store template (store.signature bindings) = none)
    (kept : (store.begin template bindings).SameUnfinished made) :
    store.SameUnfinished (Engine.endSpecialization made template) := by
  intro id
  have apart : template ≠ store.nextClass := ne_nextClass present
  have begun := store.classAt_begin template id bindings present idle
  rw [classAt_endSpecialization]
  -- Only the stack of the template is touched: the placeholder comes and goes.
  by_cases reached : id = template
  · subst reached
    rw [if_neg apart, if_pos rfl] at begun
    have stack := kept id
    rw [begun] at stack
    -- Its stack is not empty meanwhile, so the template is in the store.
    have still : made.HasClass id := by
      refine Decidable.byContradiction fun outside => ?_
      rw [classAt_of_not_hasClass made id outside] at stack
      cases stack
    rw [if_pos ⟨rfl, still⟩]
    simp only [stack, UnfinishedStack.pop]
  · rw [if_neg reached] at begun
    rw [if_neg fun both => reached both.1, kept id, begun]
    split
    · next created =>
      rw [created, classAt_of_not_hasClass store _ store.not_hasClass_nextClass]
      rfl
    · rfl

end Store.SameUnfinished

/-- To leave every class with the unfinished specializations it had, also where something
fails. -/
def StoreRelation.balance : StoreRelation where
  Relates := Store.SameUnfinished
  Failing := True
  MayRecord _ := True
  waiting other _ := (other trivial).elim
  refl := .refl
  trans := .trans
  createFunction _ _ _ _ _ := rfl
  changeFunction _ _ _ _ _ := rfl
  changeOverload _ _ _ _ _ _ := rfl
  evaluation _ same := same
  interruption _ _ same := same
  addMember := .addMember
  createClass store _ blank _ := .addClass store blank.unfinished
  setBases := .setBases
  parametrize store id _ := .modifyClass store id fun _ => rfl
  specialization present idle same :=
    (Store.SameUnfinished.bracket present idle same).trans (.modifyClass _ _ fun _ => rfl)
  abandonment _ present idle same := .bracket present idle same

namespace Operation

/-- Stacks are symmetric on every exit path. When an operation that does not itself open
or close scopes is over, with a result or a failure, the open scopes are exactly those
from before, and every class has exactly the unfinished specializations from before. -/
theorem stacks_symmetric (depth : Nat) (environment : Environment) (before : Progress)
    {operation : Operation} (still : operation.movesScopes = false) :
    ((operation.perform depth).after environment before).scopes.stack = before.scopes.stack ∧
      ∀ id, (((operation.perform depth).after environment before).store.classAt id).unfinished =
        (before.store.classAt id).unfinished := by
  have lexical := (perform_keeps (Engine.atDepth_lexical depth) (fun _ => trivial)
    (fun _ => trivial) still).lexical
  have balanced := (perform_keeps (Engine.atDepth_respects .balance depth) (fun _ => trivial)
    (fun _ => trivial) still).respects
  exact ⟨(lexical environment before before.scopes.stack rfl).stack_after,
    balanced.onwards trivial environment before⟩

/-- A generic class and one derived from it, declared in the scope of a module that is
open. -/
def derivedDeclared : Progress :=
  performAll 3 Registry.environment Registry.start
    [.openScope .module .module none,
      .walkBlock .module
        [.typeVariable "T", .defineClass 1 "Base" [.indexed "Generic" "T"] [],
          .defineClass 2 "Derived" [.indexed "Base" "T"] []]]

/-- A specialization that is abandoned, since its base can not be specialized at this
depth, leaves no trace on the stacks. -/
theorem stacks_symmetric_abandoned :
    let operation : Operation := .evaluate .everything (.indexed "Derived" "int")
    let abandoned := (operation.perform 1).after Registry.environment derivedDeclared
    operation.movesScopes = false ∧
      (operation.perform 1).yields Registry.environment derivedDeclared () = false ∧
      abandoned.store.classes.size = derivedDeclared.store.classes.size + 1 ∧
      abandoned.scopes.stack = derivedDeclared.scopes.stack ∧
      ∀ id, (abandoned.store.classAt id).unfinished =
        (derivedDeclared.store.classAt id).unfinished := by
  intro operation abandoned
  have still : operation.movesScopes = false := rfl
  exact ⟨still, by decide +kernel, by decide +kernel,
    stacks_symmetric 1 Registry.environment derivedDeclared still⟩

end Operation

end TypeInference
