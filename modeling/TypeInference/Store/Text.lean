import TypeInference.Store.Union

/-!
# Values as text

A value is shown by its type, or in full with everything known of its content.
The full form names each part and keeps values inside of values readable.
-/

namespace TypeInference.Store

/-- Parts in a row. -/
def listed (parts : List String) : String :=
  String.intercalate ", " parts

/-- A record as text: its name and its fields between braces. -/
def fielded (name : String) (fields : List (String × String)) : String :=
  name ++ " \x7b " ++ listed (fields.map fun field => field.1 ++ ": " ++ field.2) ++ " \x7d"

mutual

/-- A value by its types. -/
def valueText (store : Store) : Value → String
  | .unknown => "Unknown"
  | .type ty => "type[" ++ store.typeName ty ++ "]"
  | .object ty _ => store.typeName ty
  | .union alternatives => "Union[" ++ listed (store.valueTexts alternatives) ++ "]"

/-- Several values by their types. -/
def valueTexts (store : Store) : List Value → List String
  | [] => []
  | value :: rest => store.valueText value :: store.valueTexts rest

end

/-- A truth value as text. -/
def flagText (flag : Bool) : String :=
  if flag then "true" else "false"

mutual

/-- A value with its content. -/
def valueDebug (store : Store) : Value → String
  | .unknown => "Unknown"
  | .type ty => "Type(" ++ store.typeName ty ++ ")"
  | .object ty .plain => "Instance(" ++ store.typeName ty ++ ")"
  | .object ty content =>
    "Instance(" ++ store.typeName ty ++ ", " ++ store.contentDebug content ++ ")"
  | .union alternatives => "Union([" ++ listed (store.valueDebugs alternatives) ++ "])"

/-- The content of an object. -/
def contentDebug (store : Store) : Content → String
  | .plain => "Object"
  | .constant constant => "Constant(" ++ constant.debugText ++ ")"
  | .sequence ⟨items, exact⟩ =>
    "Sequence(" ++ fielded "Collection"
      [("contents", "[" ++ listed (store.valueDebugs items) ++ "]"),
       ("exact", flagText exact)] ++ ")"
  | .mapping ⟨entries, exact⟩ =>
    "Mapping(" ++ fielded "Mapping"
      [("entries", "[" ++ listed (store.entryDebugs entries) ++ "]"),
       ("exact", flagText exact)] ++ ")"
  | .iterator element => "Iterator(" ++ store.valueDebug element ++ ")"

/-- Several values with their content. -/
def valueDebugs (store : Store) : List Value → List String
  | [] => []
  | value :: rest => store.valueDebug value :: store.valueDebugs rest

/-- Entries of a mapping with their content. -/
def entryDebugs (store : Store) : List (Value × Value) → List String
  | [] => []
  | (key, value) :: rest =>
    ("(" ++ store.valueDebug key ++ ", " ++ store.valueDebug value ++ ")")
      :: store.entryDebugs rest

end

/-- A type, marked as one. -/
def typeDebug (store : Store) (ty : Ty) : String :=
  "PyType(" ++ store.typeName ty ++ ")"

/-- The word for the kind of a parameter. -/
def parameterKindText : ParameterKind → String
  | .normal => "Normal"
  | .varPositional => "VarPositional"
  | .keywordOnly => "KeywordOnly"
  | .varKeyword => "VarKeyword"

/-- A parameter with everything known of it. -/
def parameterDebug (store : Store) (parameter : FormalParameter) : String :=
  fielded "ParameterInfo"
    [("name", Quoted.quote parameter.name),
     ("declared_type", store.typeDebug parameter.declaredType),
     ("default_value", store.valueDebug (parameter.default.getD .unknown)),
     ("has_default", flagText parameter.default.isSome),
     ("kind", parameterKindText parameter.kind)]

/-- The word for the state of an overload. -/
def overloadStateText : OverloadState → String
  | .pending => "Pending"
  | .evaluating => "Evaluating"
  | .evaluated => "Evaluated"

/-- An overload with its parameters. -/
def overloadDebug (store : Store) (overload : Overload) : String :=
  fielded "Overload"
    [("name", Quoted.quote overload.name),
     ("parameters", "[" ++ listed (overload.parameters.map store.parameterDebug) ++ "]"),
     ("state", overloadStateText overload.state)]

/-- What stands behind a type: a class, a parameter, or a function with its
overloads; nothing for the rest. -/
def entityDebug (store : Store) : Ty → String
  | .cls id => "ClassType(" ++ store.className id ++ ")"
  | .parameter parameter => "GenericParam(" ++ parameter.name ++ ")"
  | .function id =>
    let record := store.functionAt id
    "FunctionType(" ++ record.qualifiedName ++ ") ["
      ++ listed (record.overloads.map store.overloadDebug) ++ "]"
  | _ => ""

/-- The names of members, each between quotes. -/
def memberNamesText (members : MemberTable) : String :=
  "[" ++ listed (members.keys.map Quoted.quote) ++ "]"

end TypeInference.Store
