import TypeInference.Proofs.Caching

/-!
# What is spared where nothing is pending

Where no overload is pending, nothing is evaluated, and so no attribute is set and no function is
changed. What is left are specializations, and these fill caches and give members to nothing but the
placeholders that they create. So functions stay as they are, and classes that were there keep their
members, but for a placeholder that is being made.
-/

namespace TypeInference

open Analysis

/-- Functions are as they were, and so are the members of the classes that were there, but for one
class that may be in the making. -/
structure Store.Spares (making : Option ClassId) (before after : Store) : Prop where
  functions : after.functions = before.functions
  grown : before.classes.size ≤ after.classes.size
  members : ∀ id, making ≠ some id → before.HasClass id →
    (after.classAt id).members = (before.classAt id).members

namespace Store.Spares

variable {making : Option ClassId} {before middle after : Store}

theorem refl (store : Store) : store.Spares making store :=
  ⟨rfl, Nat.le_refl _, fun _ _ _ => rfl⟩

theorem trans (first : before.Spares making middle) (second : middle.Spares making after) :
    before.Spares making after where
  functions := second.functions.trans first.functions
  grown := Nat.le_trans first.grown second.grown
  members id apart present :=
    (second.members id apart (Nat.lt_of_lt_of_le present first.grown)).trans
      (first.members id apart present)

/-- Where no class is being made, the members of all stay. -/
theorem sameMembers (spares : before.Spares none after) {id : ClassId}
    (present : before.HasClass id) : (after.classAt id).members = (before.classAt id).members :=
  spares.members id (Option.some_ne_none id).symm present

theorem settled (spares : before.Spares making after) {state : OverloadState}
    (idle : before.NoOverloadIs state) : after.NoOverloadIs state := by
  rw [NoOverloadIs, spares.functions]
  exact idle

end Store.Spares

/-- What fills caches only spares the members of classes. -/
theorem Store.Caches.spares {making : Option ClassId} {before after : Store}
    (caches : before.Caches making after) : before.Spares making after where
  functions := caches.functions
  grown := caches.grown
  members id apart present := by rw [(caches.gains id apart present).kept]

/-- An analysis that spares classes wherever no overload is pending and it gives a result. -/
def Analysis.Spares {α : Type} (making : Option ClassId) (analysis : Analysis α) : Prop :=
  ∀ environment before result after, before.store.NoOverloadIs .pending →
    analysis environment before = .ok result after → before.store.Spares making after.store

theorem Analysis.Caches.spares {α : Type} {making : Option ClassId} {analysis : Analysis α}
    (caches : analysis.Caches making) : analysis.Spares making :=
  fun _ _ _ _ settled returned => (caches.of_ok settled returned).stores.spares

/-- A specialization spares all classes that there are. -/
theorem Engine.specialize_spares (depth : Nat) (id : ClassId) (arguments : Arguments) :
    ((Engine.atDepth depth).specialize id arguments).Spares none :=
  (specialize_caches depth id arguments).spares

end TypeInference
