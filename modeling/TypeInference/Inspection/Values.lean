import TypeInference.Analysis.Arguments
import TypeInference.Inspection.Description
import TypeInference.Store.Objects
import TypeInference.Store.Text

/-!
# Descriptions of types and values

A registered class or function is named by its qualified name, every other one
by its number and its name. A value is described with everything known of its
content.
-/

namespace TypeInference

namespace Description

/-- The text for a class. -/
def classText (id : ClassId) : Description String := do
  let store ← store
  let record := store.classAt id
  if record.flags.builtin && record.template.isNone then return "b:" ++ record.qualifiedName
  return "c" ++ toString (← mentionClass id) ++ ":" ++ store.className id

/-- The text for a function. -/
def functionText (id : FunctionId) : Description String := do
  let record := (← store).functionAt id
  if record.flags.builtin then return "bf:" ++ record.qualifiedName
  return "f" ++ toString (← mentionFunction id) ++ ":" ++ record.qualifiedName

mutual

/-- The text for a type. -/
def typeText : Ty → Description String
  | .unknown => return "Unknown"
  | .cls id => classText id
  | .parameter declared => parameterText declared
  | .function id => functionText id
  | .marker parameters => return "g:[" ++ Store.listed (← parameterTexts parameters) ++ "]"

/-- The text for a type parameter, with its constraints and its bound. -/
def parameterText : TypeParameter → Description String
  | ⟨name, constraints, bound⟩ => do
    let constraintTexts ← typeTexts constraints
    let boundText ← boundText bound
    return "p:" ++ name ++ (if constraintTexts.isEmpty then "" else
      "(" ++ Store.listed constraintTexts ++ ")") ++ boundText

/-- The text for the bound of a type parameter, if it has one. -/
def boundText : Option Ty → Description String
  | none => return ""
  | some bound => return "<:" ++ (← typeText bound)

/-- The texts for several types. -/
def typeTexts : List Ty → Description (List String)
  | [] => return []
  | ty :: rest => return (← typeText ty) :: (← typeTexts rest)

/-- The texts for several type parameters. -/
def parameterTexts : List TypeParameter → Description (List String)
  | [] => return []
  | parameter :: rest => return (← parameterText parameter) :: (← parameterTexts rest)

end

end Description

instance : Describe Ty := ⟨fun ty => return .text (← Description.typeText ty)⟩

instance : Describe TypeParameter :=
  ⟨fun parameter => return .text (← Description.parameterText parameter)⟩

instance : Describe ClassId := ⟨fun id => return .text (← Description.classText id)⟩

instance : Describe FunctionId := ⟨fun id => return .text (← Description.functionText id)⟩

instance : Describe Constant where
  describe
    | .int value => describe value.toInt
    | .float value => describe ("float", Hexadecimal.word value.bits)
    | .str text => describe ("str", text)
    | .bytes content => describe ("bytes", String.join (content.map Hexadecimal.byte))
    | .bool flag => describe flag
    | .none => describe ["none"]
    | .ellipsis => describe ["ellipsis"]

namespace Description

mutual

/-- A value with its content. -/
def ofValue : Value → Description Data
  | .unknown => return .text "Unknown"
  | .type ty => record [("type", describe ty)]
  | .union alternatives => return .record [("union", .list (← ofValues alternatives))]
  | .object ty content => do
    let ty ← describe ty
    return .record (("inst", ty) :: (← ofContent content))

/-- What is known of an object beyond its type. -/
def ofContent : Content → Description (List (String × Data))
  | .plain => return []
  | .constant value => return [("const", ← describe value)]
  | .sequence ⟨items, exact⟩ =>
    return [("seq", .list (← ofValues items)), ("exact", .flag exact)]
  | .mapping ⟨entries, exact⟩ =>
    return [("map", .list (← ofEntries entries)), ("exact", .flag exact)]
  | .iterator element => return [("iter", ← ofValue element)]

/-- Several values with their content. -/
def ofValues : List Value → Description (List Data)
  | [] => return []
  | value :: rest => return (← ofValue value) :: (← ofValues rest)

/-- Entries of a mapping with their content. -/
def ofEntries : List (Value × Value) → Description (List Data)
  | [] => return []
  | (key, value) :: rest => do
    let entry := Data.list [← ofValue key, ← ofValue value]
    return entry :: (← ofEntries rest)

end

end Description

instance : Describe Value := ⟨Description.ofValue⟩

instance : Describe Bindings := ⟨fun bindings => describe bindings.entries⟩

instance : Describe FormalParameter where
  describe parameter :=
    describe (parameter.name, parameter.kind, parameter.declaredType, parameter.default)

instance : Describe Argument where
  describe argument := describe (argument.name, argument.value, argument.declaredType)

namespace Description

/-- A constant, and which of some constants it equals. -/
def ofConstant (constant : Constant) (others : List Constant) : Description Data :=
  record [("value", describe constant), ("display", describe constant.text),
    ("type", describe constant.builtin), ("int", describe (constant.asInt.map Int64.toInt)),
    ("str", describe constant.asText), ("equals", describe (others.map (constant == ·)))]

/-- Everything that can be asked about a value. -/
def ofInquiry (value : Value) : Description Data := do
  let store ← store
  let ty := store.typeOf value
  record [("value", describe value), ("display", describe (store.valueText value)),
    ("unknown", describe value.isUnknown), ("is_type", describe value.isType),
    ("is_instance", describe value.isObject), ("none", describe (store.isNone value)),
    ("py_type", describe ty), ("type_name", describe (store.typeName ty)),
    ("generic", describe (store.isGenericType ty)), ("builtin", describe (store.builtin? ty)),
    ("union", describe (value.asUnion?.map (·.length))),
    ("constant", describe value.asConstant?)]

/-- Arguments, and the values bound to parameters of some names. -/
def ofArguments (arguments : Arguments) (names : List String) : Description Data :=
  record [("list", describe arguments.list), ("len", describe arguments.size),
    ("empty", describe arguments.list.isEmpty), ("span", describe arguments.span),
    ("by_name", describe (names.map fun name => (arguments.byName? name).map (·.value))),
    ("beyond", describe arguments.list[arguments.size]?.isSome)]

end Description

end TypeInference
