import TypeInference.Analyzer
import TypeInference.Inspection.Entries

/-!
# Summaries

What a registered name stands for, what a builtin type is like, and what the
analysis of a module found, for a reader who asks for some names, codes and
documents.
-/

namespace TypeInference

/-- The word for how a variable came to be declared, in a summary. -/
def VariableKind.label : VariableKind → String
  | .local => "Local"
  | .global => "Global"
  | .nonlocal => "Nonlocal"
  | .parameter => "Parameter"

namespace Description

/-- A registered name, with the entry of the class or function it stands for. -/
def ofName (registry : Registry) (name : String) : Description Data := do
  let store ← store
  let found := registry.find? name
  record ([("name", describe name), ("contains", describe (registry.contains name)),
    ("value", describe found)] ++ match found with
    | some (.type (.cls id)) =>
      [("class", ofClass id), ("generic_marker", describe (Registry.isGenericMarker store id)),
       ("instance", describe (store.newObject id))]
    | some (.type (.function id)) =>
      [("function", ofFunction id), ("type_var", describe (Registry.isTypeVariable store id))]
    | _ => [])

/-- A builtin type, with the entry of its class. -/
def ofBuiltin (builtin : Builtin) : Description Data := do
  let store ← store
  record [("class", ofClass (Store.builtinClass builtin)),
    ("instance", describe (store.builtinObject builtin)),
    ("rank", describe builtin.numericRank), ("sequence", describe builtin.isSequence),
    ("collection", describe builtin.isCollection)]

/-- What a reader wants to know about an analyzed module. -/
structure Inquiry where
  names : List String := []
  codes : List String := []
  documents : List DocumentId := []

/-- What the analysis of a module found. -/
def ofAnalysis (analyzer : Analyzer) (found : ModuleAnalysis) (inquiry : Inquiry) :
    Description Data :=
  let shown (value : Value) : String := analyzer.store.valueText value
  record [("names", describe (found.globals.map (·.name))),
    ("globals", describe (found.globals.map fun global =>
      (global.name, global.kind.label, shown global.value, global.span.text))),
    ("values", describe (inquiry.names.map fun name => (found.value? name).map shown)),
    ("codes", describe (inquiry.codes.map fun code => (found.log.withCode code).length)),
    ("documents", describe (inquiry.documents.map fun document =>
      (found.log.forDocument document).length)),
    ("document", describe analyzer.options.document),
    ("diagnostics", describe found.log.text), ("count", describe found.log.size),
    ("has_errors", describe found.log.hasErrors),
    ("cleared", describe DiagnosticLog.empty.isEmpty)]

end Description

end TypeInference
