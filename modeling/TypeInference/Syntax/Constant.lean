import TypeInference.Number.Binary64
import TypeInference.Text.Hexadecimal
import TypeInference.Text.Quoted
import TypeInference.Text.Utf8
import TypeInference.Types.Builtin

/-!
# Constants

A literal of the analyzed language and at once the value it denotes. Integers
have 64 bits. Equal constants are of one kind: the integer one, the truth value
and the number of the same size all differ.
-/

namespace TypeInference

/-- A literal value. -/
inductive Constant where
  | int (value : Int64)
  | float (value : Binary64)
  | str (text : String)
  | bytes (content : List UInt8)
  | bool (value : Bool)
  | none
  | ellipsis
deriving Inhabited

namespace Constant

/-- Equality within each kind; numbers compare as numbers. -/
def same : Constant → Constant → Bool
  | .int first, .int second => first == second
  | .float first, .float second => first == second
  | .str first, .str second => first == second
  | .bytes first, .bytes second => first == second
  | .bool first, .bool second => first == second
  | .none, .none => true
  | .ellipsis, .ellipsis => true
  | _, _ => false

instance : BEq Constant := ⟨same⟩

/-- The builtin type of a literal. -/
def builtin : Constant → Builtin
  | .int _ => .int
  | .float _ => .float
  | .str _ => .str
  | .bytes _ => .bytes
  | .bool _ => .bool
  | .none => .noneType
  | .ellipsis => .ellipsis

/-- The integer that a constant counts as. -/
def asInt : Constant → Option Int64
  | .int value => some value
  | .bool value => some (if value then 1 else 0)
  | _ => Option.none

/-- The text of a text constant. -/
def asText : Constant → Option String
  | .str text => some text
  | _ => Option.none

/-- The constant as it is shown to a reader. -/
def text : Constant → String
  | .int value => toString value.toInt
  | .float value => value.text
  | .str text => "'" ++ text ++ "'"
  | .bytes content => "b'" ++ String.ofList (Utf8.decode content) ++ "'"
  | .bool true => "True"
  | .bool false => "False"
  | .none => "None"
  | .ellipsis => "..."

/-- The constant with its kind. -/
def debugText : Constant → String
  | .int value => "Int(" ++ toString value.toInt ++ ")"
  | .float value => "Float(" ++ value.debugText ++ ")"
  | .str text => "Str(" ++ Quoted.quote text ++ ")"
  | .bytes content =>
    "Bytes([" ++ String.intercalate ", " (content.map fun byte => toString byte.toNat) ++ "])"
  | .bool value => "Bool(" ++ (if value then "true" else "false") ++ ")"
  | .none => "None"
  | .ellipsis => "Ellipsis"

/-- A constant equals itself. -/
@[simp] theorem same_self (constant : Constant) : constant.same constant = true := by
  cases constant <;> simp [same]

end Constant

end TypeInference
