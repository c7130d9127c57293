import TypeInference.Diagnostics.Lint
import TypeInference.Source.Node

/-!
# Diagnostics and their log

A diagnostic is a lint at a place, with the severity it is shown under. The log
keeps every diagnostic together with its document in the order of reporting;
nothing is filtered and nothing is merged.
-/

namespace TypeInference

/-- The part of the program that found a problem. -/
inductive DiagnosticSource where
  | analysis
  | linter
deriving DecidableEq, Inhabited

/-- A problem at a place in a document. -/
structure Diagnostic where
  message : String
  span : Span
  code : String
  severity : Severity
  source : DiagnosticSource
deriving DecidableEq

namespace Diagnostic

/-- Place, severity, code and message in one line. -/
def text (diagnostic : Diagnostic) : String :=
  diagnostic.span.text ++ ": " ++ diagnostic.severity.label ++ "[" ++ diagnostic.code ++ "]: "
    ++ diagnostic.message

end Diagnostic

/-- The diagnostic of a lint found at a span. -/
def Lint.at (lint : Lint) (span : Span) : Diagnostic :=
  { message := lint.message, span, code := lint.code, severity := lint.severity,
    source := .analysis }

/-- Diagnostics with their documents, in the order of reporting. -/
structure DiagnosticLog where
  entries : Array (DocumentId × Diagnostic) := #[]
deriving Inhabited

namespace DiagnosticLog

/-- The log before anything is reported. -/
def empty : DiagnosticLog := {}

/-- Adds a diagnostic at the end. -/
def report (log : DiagnosticLog) (document : DocumentId) (diagnostic : Diagnostic) :
    DiagnosticLog :=
  ⟨log.entries.push (document, diagnostic)⟩

/-- How many diagnostics were reported. -/
def size (log : DiagnosticLog) : Nat :=
  log.entries.size

/-- Whether nothing was reported. -/
def isEmpty (log : DiagnosticLog) : Bool :=
  log.entries.isEmpty

/-- Whether a diagnostic of the highest severity was reported. -/
def hasErrors (log : DiagnosticLog) : Bool :=
  log.entries.any fun entry => entry.2.severity == .error

/-- All diagnostics in the order of reporting. -/
def toList (log : DiagnosticLog) : List Diagnostic :=
  log.entries.toList.map (·.2)

/-- The diagnostics of one document. -/
def forDocument (log : DiagnosticLog) (document : DocumentId) : List Diagnostic :=
  (log.entries.toList.filter fun entry => entry.1 = document).map (·.2)

/-- The diagnostics with a given code. -/
def withCode (log : DiagnosticLog) (code : String) : List Diagnostic :=
  log.toList.filter (·.code == code)

/-- One line for each diagnostic, after its document. -/
def text (log : DiagnosticLog) : String :=
  String.join (log.entries.toList.map fun entry =>
    entry.1.location ++ ":" ++ entry.2.text ++ "\n")

/-- Reporting puts the diagnostic behind all earlier ones. -/
@[simp] theorem toList_report (log : DiagnosticLog) (document : DocumentId)
    (diagnostic : Diagnostic) :
    (log.report document diagnostic).toList = log.toList ++ [diagnostic] := by
  simp [report, toList]

/-- Reporting adds exactly one diagnostic. -/
@[simp] theorem size_report (log : DiagnosticLog) (document : DocumentId)
    (diagnostic : Diagnostic) : (log.report document diagnostic).size = log.size + 1 := by
  simp [report, size]

end DiagnosticLog

end TypeInference
