import TypeInference.Source.Node

/-!
# Faults of the analysis itself

A fault is a broken invariant of the analysis and never a property of the
analyzed code. A registration fails only when its name is taken.
-/

namespace TypeInference

/-- A name that is already registered cannot be registered again. -/
structure NameTaken where
  name : String
deriving DecidableEq

/-- The text of a refused registration. -/
def NameTaken.message (refusal : NameTaken) : String :=
  "name '" ++ refusal.name ++ "' is already registered"

/-- Broken invariants of the analysis. -/
inductive Fault where
  /-- An overload is evaluated without the function that declares it. -/
  | missingDeclaringFunction (overload : String)
  /-- A definition is evaluated that was never declared. -/
  | unknownDefinition (node : NodeId)
  /-- A scope is needed and none is open. -/
  | scopeUnderflow
  /-- The registered names are not as they should be. -/
  | registry (reason : String)
deriving DecidableEq

/-- The text of a fault. -/
def Fault.message : Fault → String
  | .missingDeclaringFunction overload => "overload '" ++ overload ++ "' has no declaring function"
  | .unknownDefinition node => "no definition collected for node " ++ node.text
  | .scopeUnderflow => "scope stack underflow"
  | .registry reason => "registry error: " ++ reason

/-- A refused registration seen as a fault. -/
def NameTaken.fault (refusal : NameTaken) : Fault :=
  .registry refusal.message

end TypeInference
