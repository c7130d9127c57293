import TypeInference.Analysis.Arguments
import TypeInference.Analysis.Monad
import TypeInference.Store.Inheritance

/-!
# What is evaluated on demand

Two things are done wherever their result is needed, and may need themselves
again: the evaluation of a function and the specialization of a class. Neither
is bounded by the syntax at hand. An engine offers both; everything that needs
them takes an engine, and only the depth of the engine limits how far they nest.
-/

namespace TypeInference

/-- The evaluation of functions and the specialization of classes. -/
structure Engine where
  evaluateFunction : FunctionId → Analysis Unit
  specialize : ClassId → Arguments → Analysis ClassId

namespace Engine

/-- The engine that goes no deeper. -/
def exhausted : Engine where
  evaluateFunction _ := throw .tooDeep
  specialize _ _ := throw .tooDeep

/-- Makes sure that the constructor of a class has been evaluated, so that the
attributes it sets on its receiver are known. A specialization shares the
constructor of its template; registered classes need none. -/
def ensureConstructed (engine : Engine) (id : ClassId) : Analysis Unit := do
  let store ← Analysis.store
  if (store.classAt id).flags.builtin then return
  match (store.ownMember? (store.templateOf id) "__init__").bind Value.asFunction? with
  | some constructor => engine.evaluateFunction constructor
  | none => return

/-- The method of a class, looked up after its constructor has been evaluated. -/
def constructedMethod? (engine : Engine) (id : ClassId) (name : String) :
    Analysis (Option FunctionId) := do
  engine.ensureConstructed id
  return (← Analysis.store).method? id name

end Engine

end TypeInference
