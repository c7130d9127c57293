import TypeInference.Scopes.Scope
import TypeInference.Syntax.Tree
import TypeInference.OrderedTable

/-!
# Declared functions and classes

The definitions of a module that were met so far, by the node that defines them.
Functions also keep the order in which they were declared; of two under one node
the later one counts.
-/

namespace TypeInference

/-- A declared function. -/
structure FunctionEntry where
  definition : FunctionDefinition
  /-- The scope that the definition stands in, which is around its body. -/
  scope : ScopeId
  function : FunctionId

/-- The declared functions and classes of a module. -/
structure Symbols where
  functions : Array FunctionEntry := #[]
  classes : OrderedTable NodeId ClassId := {}

instance : Inhabited Symbols := ⟨{}⟩

namespace Symbols

/-- The function that a node defines. -/
def function? (symbols : Symbols) (node : NodeId) : Option FunctionEntry :=
  symbols.functions.toList.reverse.find? fun entry => entry.definition.id = node

/-- The function declared at a place in the order of declaration. -/
def functionAt? (symbols : Symbols) (place : Nat) : Option FunctionEntry :=
  symbols.functions[place]?

/-- Declares a function. -/
def insert (symbols : Symbols) (entry : FunctionEntry) : Symbols :=
  { symbols with functions := symbols.functions.push entry }

/-- The class that a node defines. -/
def class? (symbols : Symbols) (node : NodeId) : Option ClassId :=
  symbols.classes.find? node

/-- Declares a class. -/
def insertClass (symbols : Symbols) (node : NodeId) (id : ClassId) : Symbols :=
  { symbols with classes := symbols.classes.put node id }

end Symbols

end TypeInference
