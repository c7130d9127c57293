import TypeInference.Types.Ty

/-!
# Bindings of type parameters

Bindings give types to type parameters, in the order in which the parameters
came. Parameters are found by identity. A parameter bound to itself is open; one
bound to another parameter leaves that other one open.
-/

namespace TypeInference

/-- Type parameters with the types they are bound to. -/
structure Bindings where
  entries : List (TypeParameter × Ty) := []

namespace Bindings

instance : Inhabited Bindings := ⟨⟨[]⟩⟩

/-- No parameter is bound. -/
def empty : Bindings := ⟨[]⟩

/-- Every parameter is bound to itself. -/
def identity (parameters : List TypeParameter) : Bindings :=
  ⟨parameters.map fun parameter => (parameter, .parameter parameter)⟩

/-- How many parameters there are. -/
def size (bindings : Bindings) : Nat :=
  bindings.entries.length

/-- Whether there is no parameter. -/
def isEmpty (bindings : Bindings) : Bool :=
  bindings.entries.isEmpty

/-- The bound parameters in order. -/
def keys (bindings : Bindings) : List TypeParameter :=
  bindings.entries.map (·.1)

/-- The types in the order of their parameters. -/
def types (bindings : Bindings) : List Ty :=
  bindings.entries.map (·.2)

/-- The type of the first entry for a parameter of a given identity. -/
def findIn (hash : TypeHash) : List (TypeParameter × Ty) → Option Ty
  | [] => none
  | entry :: rest => if entry.1.hash = hash then some entry.2 else findIn hash rest

/-- Entries with one more binding: in place for a known parameter, else last. -/
def bindIn (parameter : TypeParameter) (ty : Ty) :
    List (TypeParameter × Ty) → List (TypeParameter × Ty)
  | [] => [(parameter, ty)]
  | entry :: rest =>
    if entry.1.hash = parameter.hash then (entry.1, ty) :: rest
    else entry :: bindIn parameter ty rest

/-- The type a parameter is bound to. -/
def find? (bindings : Bindings) (parameter : TypeParameter) : Option Ty :=
  findIn parameter.hash bindings.entries

/-- Whether a parameter is bound, be it to itself. -/
def contains (bindings : Bindings) (parameter : TypeParameter) : Bool :=
  (bindings.find? parameter).isSome

/-- Binds a parameter. A known parameter keeps its place. -/
def bind (bindings : Bindings) (parameter : TypeParameter) (ty : Ty) : Bindings :=
  ⟨bindIn parameter ty bindings.entries⟩

/-- Whether a parameter is missing or bound to itself. -/
def isUnresolved (bindings : Bindings) (parameter : TypeParameter) : Bool :=
  match bindings.find? parameter with
  | some (.parameter target) => target.hash = parameter.hash
  | some _ => false
  | none => true

/-- The type a parameter is bound to, unless that is the parameter itself. -/
def resolve? (bindings : Bindings) (parameter : TypeParameter) : Option Ty :=
  match bindings.find? parameter with
  | some (.parameter target) =>
    if target.hash = parameter.hash then none else some (.parameter target)
  | some ty => some ty
  | none => none

/-- A list of parameters with one more, unless it is among them. -/
def addDistinct (parameters : List TypeParameter) (parameter : TypeParameter) :
    List TypeParameter :=
  if parameters.any fun known => known.hash = parameter.hash then parameters
  else parameters ++ [parameter]

/-- The parameters that are still open: the bound types that are parameters,
each once, in order. -/
def openParameters (bindings : Bindings) : List TypeParameter :=
  (bindings.types.filterMap Ty.asParameter?).foldl addDistinct []

/-- Among entries with one more binding its identity is found with the new type, and every other one
with its own. -/
theorem findIn_bindIn (hash : TypeHash) (parameter : TypeParameter) (ty : Ty)
    (entries : List (TypeParameter × Ty)) :
    findIn hash (bindIn parameter ty entries) =
      if parameter.hash = hash then some ty else findIn hash entries := by
  induction entries with
  | nil => simp [bindIn, findIn]
  | cons entry rest inductionHypothesis =>
    by_cases here : entry.1.hash = parameter.hash
    · by_cases same : parameter.hash = hash <;> simp [bindIn, findIn, here, same]
    · by_cases same : entry.1.hash = hash
      · have apart : parameter.hash ≠ hash := fun equal => here (same.trans equal.symm)
        have other : hash ≠ parameter.hash := fun equal => apart equal.symm
        simp [bindIn, findIn, same, apart, other]
      · simp [bindIn, findIn, here, same, inductionHypothesis]

/-- A bound parameter has its new type and every other one keeps its own. -/
theorem find?_bind (bindings : Bindings) (parameter asked : TypeParameter) (ty : Ty) :
    (bindings.bind parameter ty).find? asked =
      if parameter.hash = asked.hash then some ty else bindings.find? asked :=
  findIn_bindIn asked.hash parameter ty bindings.entries

/-- A bind keeps the parameters in order; an unknown one comes last. -/
theorem keys_bind (bindings : Bindings) (parameter : TypeParameter) (ty : Ty) :
    (bindings.bind parameter ty).keys =
      if bindings.contains parameter then bindings.keys else bindings.keys ++ [parameter] := by
  have inEntries (entries : List (TypeParameter × Ty)) :
      (bindIn parameter ty entries).map (·.1) =
        if (findIn parameter.hash entries).isSome then entries.map (·.1)
        else entries.map (·.1) ++ [parameter] := by
    induction entries with
    | nil => simp [bindIn, findIn]
    | cons entry rest inductionHypothesis =>
      by_cases here : entry.1.hash = parameter.hash
      · simp [bindIn, findIn, here]
      · simp only [bindIn, findIn, if_neg here, List.map_cons, inductionHypothesis]
        split <;> simp
  exact inEntries bindings.entries

end Bindings

end TypeInference
