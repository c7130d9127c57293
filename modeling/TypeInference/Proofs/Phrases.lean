import TypeInference.Syntax.Tree

/-!
# Phrases without places

Short ways to write down the syntax trees of programs that stand for themselves
and not for a place in a text.
-/

namespace TypeInference

/-- A name at no place. -/
def Identifier.ofName (name : String) : Identifier :=
  ⟨name, .unknown⟩

namespace Expression

/-- A name. -/
def ofName (name : String) : Expression :=
  .name (.ofName name)

/-- An attribute of what a name means. -/
def attributeOf (target name : String) : Expression :=
  .attribute (ofName target) (.ofName name) .unknown

/-- One name indexed by another one. -/
def indexed (target index : String) : Expression :=
  .index (ofName target) (ofName index) .unknown

end Expression

namespace Statement

/-- A name is given a value. -/
def define (name : String) (value : Expression) : Statement :=
  .assign [.ofName name] value .unknown

/-- A name is declared as a type parameter. -/
def typeVariable (name : String) : Statement :=
  define name
    (.call (.ofName "TypeVar") [⟨.positional, .constant (.str name) .unknown⟩] .unknown)

/-- A class is defined, with a number for its node. -/
def defineClass (node : Nat) (name : String) (bases : List Expression)
    (body : List Statement) : Statement :=
  .classDefinition ⟨⟨node⟩, .ofName name, bases, body, [], .unknown⟩

/-- A function is defined, with a number for its node and without type hints. -/
def defineFunction (node : Nat) (name : String) (parameters : List String)
    (body : List Statement) : Statement :=
  .function ⟨⟨node⟩, .ofName name, parameters.map fun parameter => { name := .ofName parameter },
    none, body, [], .unknown⟩

/-- The value of a name is returned. -/
def returning (name : String) : Statement :=
  .ret (some (.ofName name)) .unknown

/-- A method of one statement that sets an attribute on the receiver. -/
def setter (node : Nat) (name : String) (others : List Parameter) (attributeName : String)
    (value : Expression) : Statement :=
  .function ⟨⟨node⟩, .ofName name, { name := .ofName "self" } :: others, none,
    [.assign [.attributeOf "self" attributeName] value .unknown], [], .unknown⟩

/-- A method without a body that is declared to return what a name describes. -/
def declaring (node : Nat) (name result : String) : Statement :=
  .function ⟨⟨node⟩, .ofName name, [{ name := .ofName "self" }], some (.ofName result),
    [.pass .unknown], [], .unknown⟩

end Statement

end TypeInference
