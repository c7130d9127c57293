import TypeInference.Proofs.Isolation
import TypeInference.Proofs.Bookkeeping
import TypeInference.Proofs.Operations

/-!
# What is registered stays

Every expression can reach the registered classes and functions: as receivers, as bases, as
decorators, through their attributes. An analysis reads all of them and changes nothing about
them, with one exception: a registered class keeps the specializations that were made of it.
These are classes of their own, none of them registered.
-/

namespace TypeInference

namespace Store

/-- A class that is retained with its unfinished specializations differs in nothing but the
finished ones. -/
theorem Retains.classAt_eq {origin store : Store} (retains : origin.Retains store)
    (finished : origin.SameUnfinished store) {id : ClassId} (old : origin.HasClass id) :
    store.classAt id =
      { origin.classAt id with specializations := (store.classAt id).specializations } := by
  have same := retains.classes id old
  have stack := finished id
  generalize store.classAt id = after at same stack
  generalize origin.classAt id = before at same stack
  cases after
  cases before
  simp_all [ClassRecord.unspecialized]

/-- What a class of the origin has stored at the end of a course was made on the way, if the
origin has no specialization. -/
theorem Course.stored_new {confined : Prop} {origin store : Store} {events : List Event}
    (course : Course confined origin events store) (orderly : origin.Orderly)
    (plain : ∀ id, (origin.classAt id).template = none) {id specialized : ClassId}
    (stored : store.Stores id specialized) :
    store.HasClass specialized ∧ ¬origin.HasClass specialized ∧
      (store.classAt specialized).template = some id := by
  have kept : store.Orderly := course.invariant Orderly orderly fun step => step.orderly
  obtain ⟨present, made, -⟩ := kept.stored stored
  refine ⟨present, fun old => ?_, made⟩
  -- A class of the origin would still be what it was: no specialization.
  have same : (store.classAt specialized).template = (origin.classAt specialized).template :=
    (course.invariant (fun store => store.HasClass specialized ∧
        (store.classAt specialized).template = (origin.classAt specialized).template)
      ⟨old, rfl⟩ fun step before =>
        ⟨step.hasClass before.1, (step.sameIdentity before.1).template.trans before.2⟩).2
  rw [made, plain] at same
  cases same

end Store

namespace Analyzer

/-- What is registered is read and not changed. Whatever a module does and however its analysis
ends, every name means what it meant, every registered function is as it was, and so is every
registered class apart from its specializations, all of which are new classes.

Proof: definitions declare functions and classes of their own and change only these; the making
of a specialization changes its placeholder, which is new, and the two tables in which the
template keeps its specializations, of which one is left as it was found. -/
theorem registered_unchanged (options : Options) (module : Module) :
    ((new options).analyze module).2.registry = Registry.standard.registry ∧
      (∀ id, Registry.standard.store.HasClass id →
        (storeAfter options module).HasClass id ∧
          (storeAfter options module).classAt id =
            { Registry.standard.store.classAt id with
              specializations := ((storeAfter options module).classAt id).specializations } ∧
          ∀ specialized ∈ ((storeAfter options module).classAt id).specializations.values,
            (storeAfter options module).HasClass specialized ∧
              ¬Registry.standard.store.HasClass specialized ∧
              ((storeAfter options module).classAt specialized).template = some id) ∧
      ∀ id, Registry.standard.store.HasFunction id →
        (storeAfter options module).HasFunction id ∧
          (storeAfter options module).functionAt id = Registry.standard.store.functionAt id := by
  obtain ⟨retains, finished⟩ := retains_afterAll Registry.node_standard [module]
    (.refl (new options).store) (.refl (new options).store)
  obtain ⟨events, course⟩ := course_storeAfter options module
  obtain ⟨names, -⟩ := environment_afterAll (new options) [module]
  refine ⟨names, fun id old => ⟨retains.hasClass old, retains.classAt_eq finished old, ?_⟩,
    fun id old => ⟨retains.hasFunction old, retains.functions id old⟩⟩
  exact fun specialized stored =>
    course.stored_new Registry.orderly_standard Registry.template_standard stored

/-- The registered class of lists after a module with lists of its own class was analyzed. -/
theorem registered_unchanged_list :
    Registry.standard.store.HasClass (Store.builtinClass .list) ∧
      ((storeAfter {} (listing (.int 1) [])).classAt
        (Store.builtinClass .list)).specializations.size = 1 ∧
      (storeAfter {} (listing (.int 1) [])).classAt (Store.builtinClass .list) =
        { Registry.standard.store.classAt (Store.builtinClass .list) with
          specializations := ((storeAfter {} (listing (.int 1) [])).classAt
            (Store.builtinClass .list)).specializations } := by
  have present : Registry.standard.store.HasClass (Store.builtinClass .list) := by
    decide +kernel
  obtain ⟨-, classes, -⟩ := registered_unchanged {} (listing (.int 1) [])
  exact ⟨present, by decide +kernel, (classes _ present).2.1⟩

end Analyzer

end TypeInference
