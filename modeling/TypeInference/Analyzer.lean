import TypeInference.Analysis.Module
import TypeInference.Registry.Standard
import TypeInference.Store.Text

/-!
# Analyzing modules

An analyzer holds the registered names and the options. Each module is analyzed
with scopes, symbols and a log of its own; the store of classes and functions is
shared, so that the registered classes keep their specializations.
-/

namespace TypeInference

/-- The registered names, their objects, and the options. -/
structure Analyzer where
  store : Store
  registry : Registry
  options : Options

/-- What the analysis of a module gives. -/
structure ModuleAnalysis where
  globals : List Variable
  log : DiagnosticLog

/-- What an analyzer can refuse. -/
inductive AnalyzerError where
  | registration (refusal : NameTaken)
  | analysis (failure : Failure)

/-- The text of a refusal. -/
def AnalyzerError.message : AnalyzerError → String
  | .registration refusal => "registration failed: " ++ refusal.message
  | .analysis failure => "analysis failed: " ++ failure.message

namespace Analyzer

/-- An analyzer with the standard registry. -/
def new (options : Options) : Analyzer :=
  let world := Registry.standard
  ⟨world.store, world.registry, options⟩

/-- Makes a name known to every module. -/
def registerBuiltin (analyzer : Analyzer) (name : String) (value : Value) :
    Except AnalyzerError Analyzer :=
  match analyzer.registry.register name value with
  | .ok registry => .ok { analyzer with registry }
  | .error refusal => .error (.registration refusal)

/-- Runs an analysis without scopes, symbols and diagnostics from before. -/
def run {α : Type} (analyzer : Analyzer) (analysis : Analysis α) :
    EStateM.Result Failure Progress α :=
  analysis ⟨analyzer.registry, analyzer.options⟩ { store := analyzer.store }

/-- Analyzes a module. The analyzer keeps the store that the analysis leaves. -/
def analyze (analyzer : Analyzer) (module : Module) :
    Except AnalyzerError ModuleAnalysis × Analyzer :=
  match analyzer.run (Analysis.ofModule module) with
  | .ok globals progress => (.ok ⟨globals, progress.log⟩, { analyzer with store := progress.store })
  | .error failure progress =>
    (.error (.analysis failure), { analyzer with store := progress.store })

end Analyzer

namespace ModuleAnalysis

/-- The variable of a name. -/
def global? (analysis : ModuleAnalysis) (name : String) : Option Variable :=
  analysis.globals.find? fun found => found.name = name

/-- The value of a variable. -/
def value? (analysis : ModuleAnalysis) (name : String) : Option Value :=
  (analysis.global? name).map (·.value)

end ModuleAnalysis

end TypeInference
