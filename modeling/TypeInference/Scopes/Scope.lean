import TypeInference.Source.Node
import TypeInference.Source.Position
import TypeInference.Types.Value

/-!
# Variables and scopes

A scope keeps its variables in order of declaration. Declaring a variable again
refines it: a known value is never replaced by the unknown one, and the variable
keeps the kind and the place of its first declaration.
-/

namespace TypeInference

/-- The place of a scope in order of creation. -/
structure ScopeId where
  index : Nat
deriving DecidableEq, Inhabited

/-- What opens a scope. -/
inductive ScopeKind where
  | module
  | classBody
  | functionBody
  | comprehension
deriving DecidableEq, Inhabited

/-- How a variable came to be declared. -/
inductive VariableKind where
  | local
  | global
  | nonlocal
  | parameter
deriving DecidableEq, Inhabited

/-- A named value. -/
structure Variable where
  name : String
  value : Value
  kind : VariableKind
  /-- The definition that declares it, if one does. -/
  node : Option NodeId
  span : Span
deriving Inhabited

namespace Variable

/-- The variable after it is declared again. -/
def refine (existing again : Variable) : Variable :=
  { existing with
    value := if again.value.isUnknown && !existing.value.isUnknown then existing.value
      else again.value
    node := again.node.or existing.node }

end Variable

/-- A scope. -/
structure Scope where
  kind : ScopeKind
  node : NodeId
  /-- The scope around it in the source. -/
  parent : Option ScopeId
  entries : List Variable := []
  /-- The names that a statement redirects to the module. -/
  globals : List String := []
  /-- The names that a statement redirects to a function around. -/
  nonlocals : List String := []
  /-- The names found in functions around, in the order they were first found. -/
  freeVariables : List String := []
deriving Inhabited

namespace Scope

/-- Whether a name was found in a function around. -/
def isClosure (scope : Scope) : Bool :=
  !scope.freeVariables.isEmpty

/-- The names of the variables in order. -/
def names (scope : Scope) : List String :=
  scope.entries.map (·.name)

/-- The variable of a name. -/
def find? (scope : Scope) (name : String) : Option Variable :=
  scope.entries.find? fun known => known.name = name

/-- Variables with one more: the one of its name refined, or itself at the end. -/
def declareIn (declared : Variable) : List Variable → List Variable
  | [] => [declared]
  | known :: rest =>
    if known.name = declared.name then known.refine declared :: rest
    else known :: declareIn declared rest

/-- Declares a variable or refines the one of its name. -/
def insert (scope : Scope) (declared : Variable) : Scope :=
  { scope with entries := declareIn declared scope.entries }

/-- Records a name as found in a function around. -/
def markFree (scope : Scope) (name : String) : Scope :=
  if scope.freeVariables.contains name then scope
  else { scope with freeVariables := scope.freeVariables ++ [name] }

/-- Redirects a name to the module. -/
def redirectGlobal (scope : Scope) (name : String) : Scope :=
  if scope.globals.contains name then scope else { scope with globals := scope.globals ++ [name] }

/-- Redirects a name to a function around. -/
def redirectNonlocal (scope : Scope) (name : String) : Scope :=
  if scope.nonlocals.contains name then scope
  else { scope with nonlocals := scope.nonlocals ++ [name] }

/-- Refining a variable keeps its name. -/
@[simp] theorem name_refine (existing again : Variable) :
    (existing.refine again).name = existing.name := rfl

/-- A declaration keeps the order of the names; a new name comes last. -/
theorem names_insert (scope : Scope) (declared : Variable) :
    (scope.insert declared).names =
      if declared.name ∈ scope.names then scope.names else scope.names ++ [declared.name] := by
  have inVariables (entries : List Variable) :
      (declareIn declared entries).map (·.name) =
        if declared.name ∈ entries.map (·.name) then entries.map (·.name)
        else entries.map (·.name) ++ [declared.name] := by
    induction entries with
    | nil => simp [declareIn]
    | cons known rest inductionHypothesis =>
      by_cases here : known.name = declared.name
      · simp [declareIn, here]
      · have apart : ¬declared.name = known.name := fun equal => here equal.symm
        simp only [declareIn, if_neg here, List.map_cons, inductionHypothesis, List.mem_cons,
          apart, false_or]
        split <;> simp
  exact inVariables scope.entries

/-- A name is recorded as free at most once. -/
theorem nodup_freeVariables_markFree (scope : Scope) (name : String)
    (distinct : scope.freeVariables.Nodup) : (scope.markFree name).freeVariables.Nodup := by
  unfold markFree
  split
  · exact distinct
  · next absent =>
    refine List.nodup_append.mpr ⟨distinct, by simp, ?_⟩
    intro present listed last lastListed equal
    have last_eq : last = name := by simpa using lastListed
    exact absent (by simpa using last_eq ▸ equal ▸ listed)

end Scope

end TypeInference
