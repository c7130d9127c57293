import TypeInference.Analysis.Monad
import TypeInference.Inspection.Values
import TypeInference.Store.Inheritance

/-!
# Entries for objects and scopes

The entry of a class or function shows its whole record. Tables hold the entries
of all objects that were mentioned: an entry may mention more of them, and the
tables are complete when every mentioned object has its entry. There are no more
objects than the store holds.
-/

namespace TypeInference

instance : Describe Variable where
  describe found := describe (found.name, found.kind, found.node, found.span, found.value)

instance : DescribeRow Diagnostic where
  describeRow diagnostic :=
    describeRow (diagnostic.span, diagnostic.code, diagnostic.severity, diagnostic.source,
      diagnostic.message)

/-- The word for a kind of fault. -/
def Fault.kind : Fault → String
  | .missingDeclaringFunction _ => "MissingDeclaringMember"
  | .unknownDefinition _ => "UnknownDefinition"
  | .scopeUnderflow => "ScopeUnderflow"
  | .registry _ => "Registry"

namespace Data

/-- What went wrong, by its kind and its text. -/
def ofError (kind message : String) : Data :=
  .record [("error", .text kind), ("message", .text message)]

/-- A fault. -/
def ofFault (fault : Fault) : Data :=
  ofError fault.kind fault.message

/-- A failure. -/
def ofFailure : Failure → Data
  | .fault fault => ofFault fault
  | .tooDeep => ofError "TooDeep" Failure.tooDeep.message

end Data

namespace Description

/-- The field for an identity, if identities are shown. -/
def hashField (hash : TypeHash) : Description (List (String × Description Data)) :=
  return if (← read).showsHashes then [("hash", describe hash)] else []

/-- The entry of a class. -/
def ofClass (id : ClassId) : Description Data := do
  let store ← store
  let found := store.classAt id
  record ([("ref", describe id), ("name", describe found.name),
    ("qualified", describe found.qualifiedName), ("builtin", describe found.builtin),
    ("flags", describe found.flags), ("node", describe found.node),
    ("bases", describe found.bases), ("mro", describe found.resolutionOrder),
    ("params", describe found.parameters), ("open", describe found.openParameters),
    ("generic", describe (store.isGeneric id)), ("metaclass", describe (store.isMetaclass id)),
    ("explicit", describe found.explicitParameters?), ("template", describe found.template),
    ("specializations", describe found.specializations.size),
    ("members", describe found.members.entries)] ++ (← hashField found.hash))

/-- The entry of an overload. -/
def ofOverload (overload : Overload) : Description Data := do
  let store ← store
  record [("name", describe overload.name), ("node", describe overload.node),
    ("state", describe overload.state), ("attached", describe true),
    ("params", describe overload.parameters), ("declared", describe overload.declaredReturn),
    ("inferred", describe overload.inferredReturns.length),
    ("return", describe (store.returnValue overload))]

/-- The entry of a function. -/
def ofFunction (id : FunctionId) : Description Data := do
  let found := (← store).functionAt id
  record ([("overloads", list ofOverload found.overloads), ("ref", describe id),
    ("name", describe found.name), ("qualified", describe found.qualifiedName),
    ("node", describe found.node), ("flags", describe found.flags),
    ("method", describe found.isMethod), ("valid_decorators", describe found.hasValidDecorators),
    ("class", describe found.declaringClass)] ++ (← hashField found.hash))

/-- Completes tables that hold the entries of the objects mentioned first, with at
most some number of further entries. Classes come before functions. -/
def completeTables (classes functions : Array Data) : Nat → Description (Array Data × Array Data)
  | 0 => return (classes, functions)
  | bound + 1 => do
    let mentions ← get
    match mentions.classes[classes.size]?, mentions.functions[functions.size]? with
    | some id, _ => completeTables (classes.push (← ofClass id)) functions bound
    | none, some id => completeTables classes (functions.push (← ofFunction id)) bound
    | none, none => return (classes, functions)

/-- The tables of all mentioned objects. -/
def tables : Description (List (String × Data)) := do
  let store ← store
  let (classes, functions) ←
    completeTables #[] #[] (store.classes.size + store.functions.size)
  return [("classes", .list classes.toList), ("functions", .list functions.toList)]

/-- A scope. -/
def ofScope (scopes : Scopes) (id : ScopeId) : Description Data :=
  let scope := scopes.scopeAt id
  record [("id", describe id), ("kind", describe scope.kind), ("node", describe scope.node),
    ("parent", describe scope.parent), ("variables", describe scope.entries),
    ("free", describe scope.freeVariables), ("closure", describe scope.isClosure)]

/-- The state that an analysis is left with: its scopes, what was declared, and
the builtin classes that were specialized. -/
def ofProgress (progress : Progress) : List (String × Description Data) :=
  let functions := progress.symbols.functions.toList
  let classes := progress.symbols.classes.entries.mergeSort fun first second =>
    first.1.number ≤ second.1.number
  let specializations := Builtin.all.map fun builtin =>
    (builtin, (progress.store.classAt (Store.builtinClass builtin)).specializations.size)
  [("scopes", list (fun index => ofScope progress.scopes ⟨index⟩)
      (List.range progress.scopes.all.size)),
    ("declared_functions", describe (functions.map fun entry =>
      (entry.definition.id, entry.scope, entry.function))),
    ("symbol_counts", describe (functions.length, functions.isEmpty, classes.length)),
    ("declared_classes", describe classes),
    ("builtin_specializations", describe (specializations.filter fun entry => entry.2 ≠ 0))]

end Description

end TypeInference
