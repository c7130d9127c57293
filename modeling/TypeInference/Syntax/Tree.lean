import TypeInference.Source.Node
import TypeInference.Source.Position
import TypeInference.Syntax.Constant
import TypeInference.Syntax.Operator

/-!
# Syntax trees

The expressions, statements and definitions of the analyzed language. Every node
has a span; the nodes that open a scope also have an identity. A tree may stand
for a program that no parser would accept: nothing here asks that targets can be
assigned to, that returns stand in functions, or that identities are distinct.
-/

namespace TypeInference

/-- A name at a place. -/
structure Identifier where
  name : String
  span : Span
deriving Inhabited

/-- The displays that list items. -/
inductive DisplayKind where
  | list
  | tuple
  | set
deriving DecidableEq, Inhabited

/-- The builtin type that a display makes. -/
def DisplayKind.builtin : DisplayKind → Builtin
  | .list => .list
  | .tuple => .tuple
  | .set => .set

/-- What a comprehension makes. -/
inductive ComprehensionKind where
  | list
  | set
  | dict
  | generator
deriving DecidableEq, Inhabited

/-- How an argument is passed. -/
inductive Passing where
  /-- By its place. -/
  | positional
  /-- By the name of a parameter. -/
  | keyword (name : Identifier)
  /-- As a sequence of further positional arguments. -/
  | star
  /-- As a mapping of further keyword arguments. -/
  | doubleStar
deriving Inhabited

/-- How a parameter takes arguments. -/
inductive ParameterKind where
  | normal
  /-- All positional arguments that are left. -/
  | varPositional
  | keywordOnly
  /-- All keyword arguments that are left. -/
  | varKeyword
deriving DecidableEq, Inhabited

mutual

/-- An expression. -/
inductive Expression where
  | constant (value : Constant) (span : Span)
  | name (identifier : Identifier)
  | attribute (target : Expression) (name : Identifier) (span : Span)
  | index (target index : Expression) (span : Span)
  /-- The bounds inside an index; each may be missing. -/
  | slice (lower upper step : Option Expression) (span : Span)
  | call (callee : Expression) (arguments : List CallArgument) (span : Span)
  | display (kind : DisplayKind) (items : List Expression) (span : Span)
  | dict (entries : List (Expression × Expression)) (span : Span)
  | comprehension (comprehension : Comprehension)
  | yield (value : Option Expression) (span : Span)
  | unary (operator : UnaryOperator) (operand : Expression) (span : Span)
  | binary (left : Expression) (operator : BinaryOperator) (right : Expression) (span : Span)

/-- An argument of a call. -/
structure CallArgument where
  passing : Passing
  value : Expression

/-- A comprehension. One that makes a mapping has its key as element. -/
structure Comprehension where
  id : NodeId
  kind : ComprehensionKind
  element : Expression
  value : Option Expression
  clauses : List Clause
  span : Span

/-- A clause of a comprehension. -/
inductive Clause where
  | iteration (target iterable : Expression) (span : Span)
  | condition (test : Expression) (span : Span)

end

instance : Inhabited Expression := ⟨.constant .none .unknown⟩

namespace Clause

/-- The iterable of an iteration. -/
def iterable? : Clause → Option Expression
  | .iteration _ iterable _ => some iterable
  | .condition _ _ => none

end Clause

namespace Comprehension

/-- The iterable of the first iteration among the clauses. -/
def firstIterable? (comprehension : Comprehension) : Option Expression :=
  comprehension.clauses.findSome? Clause.iterable?

end Comprehension

namespace Expression

/-- The span of the outermost node. -/
def span : Expression → Span
  | .constant _ span => span
  | .name identifier => identifier.span
  | .attribute _ _ span => span
  | .index _ _ span => span
  | .slice _ _ _ span => span
  | .call _ _ span => span
  | .display _ _ span => span
  | .dict _ span => span
  | .comprehension sampled => sampled.span
  | .yield _ span => span
  | .unary _ _ span => span
  | .binary _ _ _ span => span

/-- The expression with another span for its outermost node. -/
def withSpan (span : Span) : Expression → Expression
  | .constant value _ => .constant value span
  | .name identifier => .name { identifier with span }
  | .attribute target attributeName _ => .attribute target attributeName span
  | .index target position _ => .index target position span
  | .slice lower upper step _ => .slice lower upper step span
  | .call callee arguments _ => .call callee arguments span
  | .display kind items _ => .display kind items span
  | .dict entries _ => .dict entries span
  | .comprehension sampled => .comprehension { sampled with span }
  | .yield value _ => .yield value span
  | .unary operator operand _ => .unary operator operand span
  | .binary left operator right _ => .binary left operator right span

/-- A comprehension with another identity; other expressions have none. -/
def withId (id : NodeId) : Expression → Expression
  | .comprehension sampled => .comprehension { sampled with id }
  | other => other

/-- The name, if the expression is one. -/
def asName? : Expression → Option String
  | .name identifier => some identifier.name
  | _ => none

end Expression

/-- A declared parameter. -/
structure Parameter where
  name : Identifier
  typeHint : Option Expression := none
  default : Option Expression := none
  kind : ParameterKind := .normal

mutual

/-- A statement. -/
inductive Statement where
  | expression (expression : Expression) (span : Span)
  | assign (targets : List Expression) (value : Expression) (span : Span)
  | annotated (target hint : Expression) (value : Option Expression) (span : Span)
  | ret (value : Option Expression) (span : Span)
  | function (definition : FunctionDefinition)
  | classDefinition (definition : ClassDefinition)
  | global (names : List Identifier) (span : Span)
  | nonlocal (names : List Identifier) (span : Span)
  | branch (test : Expression) (body otherwise : List Statement) (span : Span)
  | iteration (target iterable : Expression) (body otherwise : List Statement) (span : Span)
  | loop (test : Expression) (body otherwise : List Statement) (span : Span)
  | pass (span : Span)

/-- The definition of a function. -/
structure FunctionDefinition where
  id : NodeId
  name : Identifier
  parameters : List Parameter
  returns : Option Expression
  body : List Statement
  decorators : List Expression
  span : Span

/-- The definition of a class. -/
structure ClassDefinition where
  id : NodeId
  name : Identifier
  bases : List Expression
  body : List Statement
  decorators : List Expression
  span : Span

end

instance : Inhabited Statement := ⟨.pass .unknown⟩

namespace Statement

/-- The span of the statement. -/
def span : Statement → Span
  | .expression _ span => span
  | .assign _ _ span => span
  | .annotated _ _ _ span => span
  | .ret _ span => span
  | .function definition => definition.span
  | .classDefinition definition => definition.span
  | .global _ span => span
  | .nonlocal _ span => span
  | .branch _ _ _ span => span
  | .iteration _ _ _ _ span => span
  | .loop _ _ _ span => span
  | .pass span => span

/-- The statement with another span. -/
def withSpan (span : Span) : Statement → Statement
  | .expression evaluated _ => .expression evaluated span
  | .assign targets value _ => .assign targets value span
  | .annotated target hint value _ => .annotated target hint value span
  | .ret value _ => .ret value span
  | .function definition => .function { definition with span }
  | .classDefinition definition => .classDefinition { definition with span }
  | .global names _ => .global names span
  | .nonlocal names _ => .nonlocal names span
  | .branch test body otherwise _ => .branch test body otherwise span
  | .iteration target iterable body otherwise _ => .iteration target iterable body otherwise span
  | .loop test body otherwise _ => .loop test body otherwise span
  | .pass _ => .pass span

/-- A definition with another identity; other statements have none. -/
def withId (id : NodeId) : Statement → Statement
  | .function definition => .function { definition with id }
  | .classDefinition definition => .classDefinition { definition with id }
  | statement => statement

/-- The definition of a function, if the statement is one. -/
def asFunction? : Statement → Option FunctionDefinition
  | .function definition => some definition
  | _ => none

/-- The definition of a class, if the statement is one. -/
def asClass? : Statement → Option ClassDefinition
  | .classDefinition definition => some definition
  | _ => none

end Statement

/-- A module: the statements of its body. Its own node is `NodeId.module`. -/
structure Module where
  body : List Statement

end TypeInference
