import TypeInference.Source.Node

/-!
# Options of an analysis
-/

namespace TypeInference

/-- What kind of module is analyzed. It decides which bodies are walked. -/
inductive ModuleKind where
  | user
  | library
  | stub
  | specialized
deriving DecidableEq, Inhabited

/-- How a module is analyzed. -/
structure Options where
  moduleKind : ModuleKind := .user
  /-- Keep the local variables of evaluated functions, also outside of user modules. -/
  keepLibraryLocals : Bool := false
  /-- How many items of a display are evaluated; a longer one is not exact. -/
  maxCollectionSize : Nat := 1000
  /-- The document that diagnostics are attached to. -/
  document : DocumentId := .unnamed
  /-- The start of the qualified names of the module. -/
  moduleName : String := "__main__"
deriving Inhabited

namespace Options

/-- Whether the module is one of the user's own. -/
def isUser (options : Options) : Bool :=
  options.moduleKind = .user

/-- Whether the local variables of evaluated functions are forgotten. -/
def discardsLocals (options : Options) : Bool :=
  !options.isUser && !options.keepLibraryLocals

end Options

end TypeInference
