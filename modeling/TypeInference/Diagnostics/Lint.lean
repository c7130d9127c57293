import TypeInference.Source.Position

/-!
# Problems in the analyzed code

A lint is a condition of the analyzed source. Each has a stable code, a default
severity and a message; lints are reported and never end an analysis.
-/

namespace TypeInference

/-- How serious a diagnostic is. -/
inductive Severity where
  | error
  | warning
  | information
  | hint
deriving DecidableEq, Inhabited

/-- The word for a severity in a printed diagnostic. -/
def Severity.label : Severity → String
  | .error => "error"
  | .warning => "warning"
  | .information => "info"
  | .hint => "hint"

/-- The conditions of analyzed code that are diagnosed. -/
inductive Lint where
  /-- A value that cannot index a sequence. -/
  | badIndexType (typeName : String)
  /-- An instance method whose first parameter is not the conventional one. -/
  | noSelfArgument (function : String)
  /-- A class method whose first parameter is not the conventional one. -/
  | noClsArgument (function : String)
  /-- A method without parameters. -/
  | noMethodArgument (function : String)
  /-- A constructor that returns something. -/
  | returnInInit
  /-- A name that no scope and no registered name resolves. -/
  | undefinedVariable (name : String)
  /-- A binary operator whose builtin operand types never combine. -/
  | unsupportedOperandType (operator left right : String)
deriving DecidableEq

namespace Lint

/-- The stable name of the condition. -/
def code : Lint → String
  | .badIndexType _ => "bad-index-type"
  | .noSelfArgument _ => "no-self-argument"
  | .noClsArgument _ => "no-cls-argument"
  | .noMethodArgument _ => "no-method-argument"
  | .returnInInit => "return-in-init"
  | .undefinedVariable _ => "undefined-variable"
  | .unsupportedOperandType _ _ _ => "unsupported-operand-type"

/-- Operands and indices that cannot work are errors, the rest are warnings. -/
def severity : Lint → Severity
  | .badIndexType _ => .error
  | .unsupportedOperandType _ _ _ => .error
  | _ => .warning

/-- The text shown for the condition. -/
def message : Lint → String
  | .badIndexType typeName => "Unsupported index type '" ++ typeName ++ "'"
  | .noSelfArgument function =>
    "Instance method '" ++ function ++ "' should take a 'self' parameter"
  | .noClsArgument function => "Class method '" ++ function ++ "' should take a 'cls' parameter"
  | .noMethodArgument function =>
    "Method '" ++ function ++ "' should take at least one parameter"
  | .returnInInit => "Explicit return in __init__"
  | .undefinedVariable name => "Undefined variable: '" ++ name ++ "'"
  | .unsupportedOperandType operator left right =>
    "Unsupported operand types for '" ++ operator ++ "': '" ++ left ++ "' and '" ++ right ++ "'"

/-- The names that the message mentions. -/
def details : Lint → List String
  | .badIndexType typeName => [typeName]
  | .noSelfArgument function => [function]
  | .noClsArgument function => [function]
  | .noMethodArgument function => [function]
  | .returnInInit => []
  | .undefinedVariable name => [name]
  | .unsupportedOperandType operator left right => [operator, left, right]

/-- The condition of a given code that mentions given names. -/
def ofCode? : String → List String → Option Lint
  | "bad-index-type", [typeName] => some (.badIndexType typeName)
  | "no-self-argument", [function] => some (.noSelfArgument function)
  | "no-cls-argument", [function] => some (.noClsArgument function)
  | "no-method-argument", [function] => some (.noMethodArgument function)
  | "return-in-init", [] => some .returnInInit
  | "undefined-variable", [name] => some (.undefinedVariable name)
  | "unsupported-operand-type", [operator, left, right] =>
    some (.unsupportedOperandType operator left right)
  | _, _ => none

/-- A condition is determined by its code and the names it mentions. -/
@[simp] theorem ofCode?_code_details (lint : Lint) :
    ofCode? lint.code lint.details = some lint := by
  cases lint <;> rfl

end Lint

end TypeInference
