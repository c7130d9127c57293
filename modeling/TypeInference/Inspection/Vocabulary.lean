import TypeInference.Analysis.Options
import TypeInference.Diagnostics.Log
import TypeInference.Scopes.Basic
import TypeInference.Types.Class
import TypeInference.Types.Function

/-!
# Words for kinds and flags

Kinds and flags appear in data by their words. A kind has one word; flags that
can be set together are listed by the words of those that are set, in a fixed
order. Reading words back gives the kind or the flags they were written for.
-/

namespace TypeInference

/-- A kind whose values have one word each. -/
class Worded (α : Type) where
  words : List (String × α)

namespace Worded

variable {α : Type} [Worded α]

/-- What a word stands for. -/
def ofWord? (word : String) : Option α :=
  words.lookup word

/-- The word of a value. -/
def word? [DecidableEq α] (value : α) : Option String :=
  (words.find? fun entry => entry.2 = value).map (·.1)

end Worded

instance : Worded ScopeKind :=
  ⟨[("module", .module), ("class", .classBody), ("function", .functionBody),
    ("comprehension", .comprehension)]⟩

instance : Worded VariableKind :=
  ⟨[("local", .local), ("global", .global), ("nonlocal", .nonlocal), ("parameter", .parameter)]⟩

instance : Worded ParameterKind :=
  ⟨[("normal", .normal), ("vararg", .varPositional), ("kwonly", .keywordOnly),
    ("kwargs", .varKeyword)]⟩

instance : Worded OverloadState :=
  ⟨[("pending", .pending), ("evaluating", .evaluating), ("evaluated", .evaluated)]⟩

instance : Worded ModuleKind :=
  ⟨[("user", .user), ("library", .library), ("stub", .stub), ("specialized", .specialized)]⟩

instance : Worded Severity :=
  ⟨[("error", .error), ("warning", .warning), ("information", .information), ("hint", .hint)]⟩

instance : Worded DiagnosticSource :=
  ⟨[("analysis", .analysis), ("linter", .linter)]⟩

instance : Worded Builtin :=
  ⟨Builtin.all.map fun builtin => (builtin.name, builtin)⟩

instance : Worded BinaryOperator :=
  ⟨BinaryOperator.all.map fun operator => (operator.symbol, operator)⟩

instance : Worded UnaryOperator :=
  ⟨UnaryOperator.all.map fun operator => (operator.symbol, operator)⟩

/-- Flags that can be set together, with a word for each. -/
class FlagSet (α : Type) where
  flags : List (String × α)
  none : α
  union : α → α → α

namespace FlagSet

variable {α : Type} [FlagSet α]

/-- The flags that some words stand for, if each of them is one. -/
def ofWords? : List String → Option α
  | [] => some none
  | word :: rest => do
    let flag ← flags.lookup word
    let others ← ofWords? rest
    return union flag others

/-- The words of the flags that are set. -/
def words [DecidableEq α] (set : α) : List String :=
  (flags.filter fun entry => union set entry.2 = set).map (·.1)

end FlagSet

instance : FlagSet ClassFlags where
  flags := [("BUILTIN", { builtin := true }), ("METACLASS", { metaclass := true }),
    ("SPECIALIZED", { specialized := true }), ("TYPE_OF_TYPE", { typeOfType := true })]
  none := {}
  union := .union

instance : FlagSet FunctionFlags where
  flags := [("STATIC", { static := true }), ("CLASS_METHOD", { classMethod := true }),
    ("ABSTRACT", { isAbstract := true }), ("OVERLOAD", { overload := true }),
    ("PROPERTY", { property := true }), ("GENERATOR", { generator := true }),
    ("BUILTIN", { builtin := true }), ("INVALID_DECORATORS", { invalidDecorators := true })]
  none := {}
  union := .union

instance : FlagSet Reach where
  flags := [("LOCAL", { current := true }), ("NONLOCAL", { enclosing := true }),
    ("GLOBAL", { module := true }), ("BUILTINS", { builtins := true }), ("NORMAL", .everything)]
  none := {}
  union := .union

/-- Reading the words of class flags gives the flags. -/
theorem FlagSet.ofWords?_words_class (set : ClassFlags) :
    FlagSet.ofWords? (FlagSet.words set) = some set := by
  rcases set with ⟨builtin, metaclass, specialized, typeOfType⟩
  cases builtin <;> cases metaclass <;> cases specialized <;> cases typeOfType <;> rfl

end TypeInference
