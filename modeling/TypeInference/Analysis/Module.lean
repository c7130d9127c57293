import TypeInference.Definitions.Evaluation

/-!
# Analysis of a module

The body of a module is walked once. After that every declared function that was
not needed before is evaluated in order of declaration, together with those that
are declared meanwhile. The result is the variables of the module, without the
names that every module has by itself.
-/

namespace TypeInference.Analysis

/-- The names that every module has by itself. -/
def moduleAttributes : List String :=
  ["__name__", "__file__", "__doc__", "__qualname__"]

/-- Declares the names that every module has by itself. -/
def declareAttributes : List String → Analysis Unit
  | [] => return
  | name :: rest => do
    let value := (← store).builtinObject .str
    declare name value .global none .unknown
    declareAttributes rest

/-- Evaluates the declared functions from a place on, at most a given number. -/
def evaluateDeclared (engine : Engine) : Nat → Nat → Analysis Unit
  | 0, _ => throw .tooDeep
  | bound + 1, place => do
    match (← get).symbols.functionAt? place with
    | none => return
    | some entry =>
      engine.evaluateFunction entry.function
      evaluateDeclared engine bound (place + 1)

/-- The variables of a scope that the module has not by itself. -/
def globalsOf (scopes : Scopes) (id : ScopeId) : List Variable :=
  (scopes.scopeAt id).entries.filter fun found => !moduleAttributes.contains found.name

/-- The variables of a module, analyzed with evaluations nested to a given depth
and with at most as many declared functions. -/
def ofModuleWithin (depth : Nat) (module : Module) : Analysis (List Variable) :=
  inScope .module .module none fun id => do
    let engine := Engine.atDepth depth
    declareAttributes moduleAttributes
    engine.walkBlock .module module.body
    evaluateDeclared engine depth 0
    return globalsOf (← scopes) id

/-- The variables of a module. -/
def ofModule (module : Module) : Analysis (List Variable) :=
  ofModuleWithin Engine.depthLimit module

end TypeInference.Analysis
