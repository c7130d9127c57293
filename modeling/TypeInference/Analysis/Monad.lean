import TypeInference.Analysis.Options
import TypeInference.Analysis.Symbols
import TypeInference.Diagnostics.Log
import TypeInference.Registry.Basic
import TypeInference.Scopes.Basic

/-!
# Analyses

An analysis reads the registered names and the options, and changes the store,
the scopes, the declared symbols and the log of diagnostics. When it fails, what
was changed stays changed. A failure is either a fault of the analysis or the
notice that evaluations were nested deeper than allowed, which says nothing
about the analyzed code.

A scope is open exactly while the analysis inside of it runs, whether that
succeeds or fails.
-/

namespace TypeInference

/-- Why an analysis gives no result. -/
inductive Failure where
  | fault (cause : Fault)
  /-- More evaluations inside of one another than allowed. -/
  | tooDeep
deriving DecidableEq

/-- The text of a failure. -/
def Failure.message : Failure → String
  | .fault cause => cause.message
  | .tooDeep => "evaluation nested too deeply"

/-- What an analysis reads. -/
structure Environment where
  registry : Registry
  options : Options

/-- What an analysis changes. -/
structure Progress where
  store : Store
  scopes : Scopes := {}
  symbols : Symbols := {}
  log : DiagnosticLog := {}

/-- A computation that reads an environment and changes the progress. -/
abbrev Analysis := ReaderT Environment (EStateM Failure Progress)

namespace Analysis

variable {α : Type}

/-- The store as it is. -/
def store : Analysis Store := do
  return (← get).store

/-- The scopes as they are. -/
def scopes : Analysis Scopes := do
  return (← get).scopes

/-- The options. -/
def options : Analysis Options := do
  return (← read).options

/-- Changes the store. -/
def modifyStore (change : Store → Store) : Analysis Unit :=
  modify fun progress => { progress with store := change progress.store }

/-- Changes the store and gives a result. -/
def onStore (change : Store → α × Store) : Analysis α :=
  modifyGet fun progress =>
    let (result, store) := change progress.store
    (result, { progress with store })

/-- Changes the scopes and gives a result. -/
def onScopes (change : Scopes → α × Scopes) : Analysis α :=
  modifyGet fun progress =>
    let (result, scopes) := change progress.scopes
    (result, { progress with scopes })

/-- The result of a computation that can end in a fault. -/
def orFault : Except Fault α → Analysis α
  | .ok result => pure result
  | .error cause => throw (.fault cause)

/-- Changes the scopes or ends in a fault. -/
def changeScopes (change : Scopes → Except Fault Scopes) : Analysis Unit := do
  let changed ← orFault (change (← scopes))
  modify fun progress => { progress with scopes := changed }

/-- Runs an analysis and then a change, whether the analysis succeeds or fails. -/
def withCleanup (body : Analysis α) (change : Progress → Progress) : Analysis α :=
  fun environment progress =>
    match body environment progress with
    | .ok result progress => .ok result (change progress)
    | .error failure progress => .error failure (change progress)

/-- Runs an analysis in the scope of a node and closes the scope, together with
whatever was opened in it. -/
def inScope (node : NodeId) (kind : ScopeKind) (parent : Option ScopeId)
    (body : ScopeId → Analysis α) : Analysis α := do
  let depth := (← scopes).depth
  let id ← onScopes fun scopes => scopes.push node kind parent
  withCleanup (body id) fun progress => { progress with scopes := progress.scopes.truncate depth }

/-- Declares or refines a variable from within the current scope. -/
def declare (name : String) (value : Value) (kind : VariableKind) (node : Option NodeId)
    (span : Span) : Analysis Unit :=
  changeScopes fun scopes => scopes.declare name value kind node span

/-- What a name means: a variable that can be reached, or else a registered name. -/
def lookupName? (name : String) (reach : Reach) : Analysis (Option Value) := do
  let registry := (← read).registry
  match ← onScopes fun scopes => scopes.lookup name reach with
  | some (_, found) => return some found.value
  | none => return if reach.builtins then registry.find? name else none

/-- The start of the qualified names of definitions in some scopes, given from
the innermost outward: the nearest class, or the nearest function with a mark
for what is local to it. Beyond the module nothing counts. -/
def qualifierAlong (progress : Progress) (moduleName : String) : List ScopeId → String
  | [] => moduleName
  | id :: outer =>
    let scope := progress.scopes.scopeAt id
    match scope.kind with
    | .module => moduleName
    | .comprehension => qualifierAlong progress moduleName outer
    | .classBody =>
      match progress.symbols.class? scope.node with
      | some declared => (progress.store.classAt declared).qualifiedName
      | none => qualifierAlong progress moduleName outer
    | .functionBody =>
      match progress.symbols.function? scope.node with
      | some entry => (progress.store.functionAt entry.function).qualifiedName ++ ".<locals>"
      | none => qualifierAlong progress moduleName outer

/-- The qualified name of a definition in the current scope. -/
def qualifiedName (name : String) : Analysis String := do
  let progress ← get
  let outward := match progress.scopes.current? with
    | some id => id :: progress.scopes.around id
    | none => []
  return qualifierAlong progress (← options).moduleName outward ++ "." ++ name

/-- Reports a problem in the analyzed code. -/
def report (lint : Lint) (span : Span) : Analysis Unit := do
  let document := (← options).document
  modify fun progress => { progress with log := progress.log.report document (lint.at span) }

/-- Collects the results of an analysis for each of some items, in order. -/
def each {β : Type} (visit : α → Analysis β) : List α → Analysis (List β)
  | [] => return []
  | item :: rest => return (← visit item) :: (← each visit rest)

end Analysis

end TypeInference
