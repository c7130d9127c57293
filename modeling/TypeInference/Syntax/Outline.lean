import TypeInference.Syntax.Tree

/-!
# Outlines

The outline of a module lists its nodes in pre-order, each with a label, its
span and, if it opens a scope, its identity.
-/

namespace TypeInference

/-- A node of an outline. -/
structure OutlineEntry where
  label : String
  span : Span
  node : Option NodeId := none

namespace Outline

/-- The label of a display. -/
def displayLabel : DisplayKind → String
  | .list => "list"
  | .tuple => "tuple"
  | .set => "set"

mutual

/-- The nodes of an expression. -/
def ofExpression : Expression → List OutlineEntry
  | .constant _ span => [⟨"constant", span, none⟩]
  | .name identifier => [⟨"name " ++ identifier.name, identifier.span, none⟩]
  | .attribute target _ span => ⟨"attr", span, none⟩ :: ofExpression target
  | .index target index span =>
    ⟨"index", span, none⟩ :: (ofExpression target ++ ofExpression index)
  | .slice lower upper step span =>
    ⟨"slice", span, none⟩ :: (ofOptional lower ++ ofOptional upper ++ ofOptional step)
  | .call callee arguments span =>
    ⟨"call", span, none⟩ :: (ofExpression callee ++ ofArguments arguments)
  | .display kind items span => ⟨displayLabel kind, span, none⟩ :: ofExpressions items
  | .dict entries span => ⟨"dict", span, none⟩ :: ofEntries entries
  | .comprehension comprehension => ofComprehension comprehension
  | .yield value span => ⟨"yield", span, none⟩ :: ofOptional value
  | .unary _ operand span => ⟨"un", span, none⟩ :: ofExpression operand
  | .binary left operator right span =>
    ⟨"bin " ++ operator.symbol, span, none⟩ :: (ofExpression left ++ ofExpression right)

/-- The nodes of a comprehension. -/
def ofComprehension : Comprehension → List OutlineEntry
  | ⟨id, _, element, value, clauses, span⟩ =>
    ⟨if (clauses.findSome? Clause.iterable?).isSome then "comp" else "comp without for", span,
      some id⟩ :: (ofExpression element ++ ofOptional value ++ ofClauses clauses)

/-- The nodes of an expression that may be missing. -/
def ofOptional : Option Expression → List OutlineEntry
  | none => []
  | some expression => ofExpression expression

/-- The nodes of several expressions. -/
def ofExpressions : List Expression → List OutlineEntry
  | [] => []
  | expression :: rest => ofExpression expression ++ ofExpressions rest

/-- The nodes of the arguments of a call. -/
def ofArguments : List CallArgument → List OutlineEntry
  | [] => []
  | ⟨_, value⟩ :: rest => ofExpression value ++ ofArguments rest

/-- The nodes of the keys and values of a mapping. -/
def ofEntries : List (Expression × Expression) → List OutlineEntry
  | [] => []
  | (key, value) :: rest => ofExpression key ++ ofExpression value ++ ofEntries rest

/-- The nodes of clauses. -/
def ofClauses : List Clause → List OutlineEntry
  | [] => []
  | .iteration target iterable _ :: rest =>
    ofExpression target ++ ofExpression iterable ++ ofClauses rest
  | .condition test _ :: rest => ofExpression test ++ ofClauses rest

end

/-- The nodes of the type hint and the default of each parameter. -/
def ofParameters (parameters : List Parameter) : List OutlineEntry :=
  parameters.flatMap fun parameter =>
    ofOptional parameter.typeHint ++ ofOptional parameter.default

mutual

/-- The nodes of a statement. -/
def ofStatement : Statement → List OutlineEntry
  | .expression expression span => ⟨"expr", span, none⟩ :: ofExpression expression
  | .assign targets value span =>
    ⟨"=", span, none⟩ :: (ofExpressions targets ++ ofExpression value)
  | .annotated target hint value span =>
    ⟨"ann", span, none⟩ :: (ofExpression target ++ ofExpression hint ++ ofOptional value)
  | .ret value span => ⟨"return", span, none⟩ :: ofOptional value
  | .function definition => ofFunction definition
  | .classDefinition definition => ofClass definition
  | .global _ span => [⟨"global", span, none⟩]
  | .nonlocal _ span => [⟨"nonlocal", span, none⟩]
  | .branch test body otherwise span =>
    ⟨"if", span, none⟩ :: (ofExpression test ++ ofStatements body ++ ofStatements otherwise)
  | .iteration target iterable body otherwise span =>
    ⟨"for", span, none⟩ :: (ofExpression target ++ ofExpression iterable ++ ofStatements body
      ++ ofStatements otherwise)
  | .loop test body otherwise span =>
    ⟨"while", span, none⟩ :: (ofExpression test ++ ofStatements body ++ ofStatements otherwise)
  | .pass span => [⟨"pass", span, none⟩]

/-- The nodes of a function definition. -/
def ofFunction : FunctionDefinition → List OutlineEntry
  | ⟨id, _, parameters, returns, body, decorators, span⟩ =>
    ⟨"def", span, some id⟩ :: (ofExpressions decorators ++ ofParameters parameters
      ++ ofOptional returns ++ ofStatements body)

/-- The nodes of a class definition. -/
def ofClass : ClassDefinition → List OutlineEntry
  | ⟨id, _, bases, body, decorators, span⟩ =>
    ⟨"class", span, some id⟩ :: (ofExpressions bases ++ ofExpressions decorators
      ++ ofStatements body)

/-- The nodes of several statements. -/
def ofStatements : List Statement → List OutlineEntry
  | [] => []
  | statement :: rest => ofStatement statement ++ ofStatements rest

end

end Outline

/-- The nodes of a module in pre-order. -/
def Module.outline (module : Module) : List OutlineEntry :=
  Outline.ofStatements module.body

end TypeInference
