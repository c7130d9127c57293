import TypeInference.Proofs.Homes

/-!
# What a program may be charged with

The syntax limits how often something can happen: an index expression is evaluated where it
stands, a definition declares its function, a return statement records a value with the overload
whose body it stands in. The charges of a phrase list all of that, once for each time. Where
operators are checked, their operands are evaluated in addition, and with them every index
expression that stands in them.

The charges of a definition include those of its body, although the body is walked later. So
every index expression, definition and return statement of a program is listed at most once,
apart from the index expressions that are evaluated again. What evaluation never comes to is not
listed at all: the bounds of slices, the arguments of decorators, the decorators of classes, what
is assigned to, and what is yielded, unless it declares the return of a function.
-/

namespace TypeInference

/-- Something that happens a limited number of times. -/
inductive Charge where
  /-- An index expression is evaluated, whose position stands at a span: in the course of
  evaluation, or once more because an operator is checked. -/
  | indexed (again : Bool) (position : Span)
  /-- A function is declared for a node. -/
  | declared (node : NodeId)
  /-- A returned value is recorded with an overload. -/
  | returned (id : OverloadId)
deriving DecidableEq

namespace Expression

mutual

/-- The places of the positions in the index expressions that the evaluation of an expression
comes to. -/
def positions : Expression → List Span
  | .constant _ _ | .name _ | .slice _ _ _ _ | .yield _ _ => []
  | .attribute target _ _ => positions target
  | .index target position _ => positions target ++ (positions position ++ [position.span])
  | .call callee arguments _ => positions callee ++ argumentPositions arguments
  | .display _ items _ => itemPositions items
  | .dict entries _ => entryPositions entries
  | .comprehension sampled => comprehensionPositions sampled
  | .unary _ operand _ => positions operand
  | .binary left _ right _ => positions left ++ positions right

/-- The same for a comprehension. -/
def comprehensionPositions : Comprehension → List Span
  | ⟨_, _, element, value, clauses, _⟩ =>
    clausePositions clauses ++ (positions element ++ optionalPositions value)

/-- The same for an expression that may be missing. -/
def optionalPositions : Option Expression → List Span
  | none => []
  | some expression => positions expression

/-- The same for several expressions. -/
def itemPositions : List Expression → List Span
  | [] => []
  | item :: rest => positions item ++ itemPositions rest

/-- The same for the arguments of a call. -/
def argumentPositions : List CallArgument → List Span
  | [] => []
  | ⟨_, value⟩ :: rest => positions value ++ argumentPositions rest

/-- The same for the keys and values of a mapping. -/
def entryPositions : List (Expression × Expression) → List Span
  | [] => []
  | (key, value) :: rest => positions key ++ (positions value ++ entryPositions rest)

/-- The same for clauses. -/
def clausePositions : List Clause → List Span
  | [] => []
  | .iteration _ iterable _ :: rest => positions iterable ++ clausePositions rest
  | .condition test _ :: rest => positions test ++ clausePositions rest

end

mutual

/-- The places of positions that are evaluated when an expression is checked: those in the
operands of its binary operators, once for every operator that they stand in. -/
def rechecks : Expression → List Span
  | .constant _ _ | .name _ => []
  | .attribute target _ _ => rechecks target
  | .index target position _ => rechecks target ++ rechecks position
  | .slice lower upper step _ =>
    optionalRechecks lower ++ (optionalRechecks upper ++ optionalRechecks step)
  | .call callee arguments _ => rechecks callee ++ argumentRechecks arguments
  | .display _ items _ => itemRechecks items
  | .dict entries _ => entryRechecks entries
  | .comprehension sampled => comprehensionRechecks sampled
  | .yield value _ => optionalRechecks value
  | .unary _ operand _ => rechecks operand
  | .binary left _ right _ =>
    rechecks left ++ (rechecks right ++ (positions left ++ positions right))

/-- The same for a comprehension, of which only the first iterable is checked. -/
def comprehensionRechecks : Comprehension → List Span
  | ⟨_, _, _, _, clauses, _⟩ => firstIterableRechecks clauses

/-- The same for the iterable of the first iteration. -/
def firstIterableRechecks : List Clause → List Span
  | [] => []
  | .iteration _ iterable _ :: _ => rechecks iterable
  | .condition _ _ :: rest => firstIterableRechecks rest

/-- The same for an expression that may be missing. -/
def optionalRechecks : Option Expression → List Span
  | none => []
  | some expression => rechecks expression

/-- The same for several expressions. -/
def itemRechecks : List Expression → List Span
  | [] => []
  | item :: rest => rechecks item ++ itemRechecks rest

/-- The same for the arguments of a call. -/
def argumentRechecks : List CallArgument → List Span
  | [] => []
  | ⟨_, value⟩ :: rest => rechecks value ++ argumentRechecks rest

/-- The same for the keys and values of a mapping. -/
def entryRechecks : List (Expression × Expression) → List Span
  | [] => []
  | (key, value) :: rest => rechecks key ++ (rechecks value ++ entryRechecks rest)

end

end Expression

namespace Charge

/-- The charges for positions that are evaluated. -/
def indices (again : Bool) (positions : List Span) : List Charge :=
  positions.map (.indexed again)

@[simp] theorem indices_nil (again : Bool) : indices again [] = [] := rfl

@[simp] theorem indices_append (again : Bool) (first second : List Span) :
    indices again (first ++ second) = indices again first ++ indices again second :=
  List.map_append

@[simp] theorem count_indices_indexed (again other : Bool) (positions : List Span)
    (span : Span) : (indices again positions).count (.indexed other span) =
      if again = other then positions.count span else 0 := by
  induction positions with
  | nil => simp
  | cons position rest inductionHypothesis =>
    change ((Charge.indexed again position) :: indices again rest).count _ = _
    rw [List.count_cons, List.count_cons, inductionHypothesis]
    by_cases same : again = other <;> by_cases here : position = span <;> simp [same, here]

@[simp] theorem count_indices_declared (again : Bool) (positions : List Span) (node : NodeId) :
    (indices again positions).count (.declared node) = 0 :=
  List.count_eq_zero.mpr (by simp [indices])

@[simp] theorem count_indices_returned (again : Bool) (positions : List Span) (id : OverloadId) :
    (indices again positions).count (.returned id) = 0 :=
  List.count_eq_zero.mpr (by simp [indices])

/-- The charges for an expression that a statement checks and evaluates. -/
def checked (expression : Expression) : List Charge :=
  indices true expression.rechecks ++ indices false expression.positions

/-- The same for an expression that may be missing. -/
def optionalChecked (expression : Option Expression) : List Charge :=
  indices true (Expression.optionalRechecks expression)
    ++ indices false (Expression.optionalPositions expression)

/-- The charges for the type hints and defaults of parameters. -/
def parameters (listed : List Parameter) : List Charge :=
  indices false (listed.flatMap fun parameter =>
    Expression.optionalPositions parameter.typeHint
      ++ Expression.optionalPositions parameter.default)

/-- The charges for the decorators of a function, of which calls are not made. -/
def decorators (listed : List Expression) : List Charge :=
  indices false (listed.flatMap fun decorator =>
    (Engine.decoratorCallee decorator).positions)

/-- The charges for the return that a definition declares: for its type hint, or else for its
first yield. -/
def declaredReturn (hint : Option Expression) (body : List Statement) : List Charge :=
  indices false (match hint with
    | some hint => hint.positions
    | none => ((Engine.topLevelYield? body).map Expression.optionalPositions).getD [])

/-- The charge for a value that is returned to an overload. -/
def toOverload (overload : Option OverloadId) : List Charge :=
  (overload.map Charge.returned).toList

mutual

/-- The charges of a statement, of which values are returned to an overload. -/
def ofStatement (overload : Option OverloadId) : Statement → List Charge
  | .expression expression _ => checked expression
  | .assign _ value _ => checked value
  | .annotated _ hint value _ => indices false hint.positions ++ optionalChecked value
  | .ret value _ => optionalChecked value ++ toOverload overload
  | .function definition =>
    decorators definition.decorators ++ .declared definition.id :: ofFunction none definition
  | .classDefinition definition => ofClass definition
  | .global _ _ | .nonlocal _ _ | .pass _ => []
  | .branch test body otherwise _ | .loop test body otherwise _ =>
    checked test ++ (ofBlock overload body ++ ofBlock overload otherwise)
  | .iteration _ iterable body otherwise _ =>
    checked iterable ++ (ofBlock overload body ++ ofBlock overload otherwise)

/-- The charges of what a definition of a function describes: its parameters, its return and
its body, whose values are returned to an overload. -/
def ofFunction (overload : Option OverloadId) : FunctionDefinition → List Charge
  | ⟨_, _, listed, returns, body, _, _⟩ =>
    parameters listed ++ (declaredReturn returns body ++ ofBlock overload body)

/-- The charges of a class with its body. Nothing returns from there. -/
def ofClass : ClassDefinition → List Charge
  | ⟨_, _, bases, body, _, _⟩ =>
    indices false (Expression.itemPositions bases) ++ ofBlock none body

/-- The charges of several statements. -/
def ofBlock (overload : Option OverloadId) : List Statement → List Charge
  | [] => []
  | statement :: rest => ofStatement overload statement ++ ofBlock overload rest

end

end Charge

/-- The charges of a module. -/
def Module.charges (module : Module) : List Charge :=
  Charge.ofBlock none module.body

namespace Charge

/-- Charges that allow to record a value with an overload, although no statement may return
one. -/
def orReturn (id : OverloadId) (bill : List Charge) : List Charge :=
  if .returned id ∈ bill then bill else bill ++ [.returned id]

/-- The value that is recorded without a statement takes the place of the first one. -/
theorem count_orReturn (id : OverloadId) (bill : List Charge) (charge : Charge) :
    (orReturn id bill).count charge =
      if charge = .returned id then max 1 (bill.count charge) else bill.count charge := by
  unfold orReturn
  by_cases listed : Charge.returned id ∈ bill
  · have positive := List.count_pos_iff.mpr listed
    rw [if_pos listed]
    split
    · next same =>
      subst same
      omega
    · rfl
  · have none := List.count_eq_zero.mpr listed
    rw [if_neg listed, List.count_append]
    split
    · next same =>
      subst same
      simp [none]
    · next apart =>
      rw [List.count_eq_zero.mpr (List.mem_singleton.not.mpr apart), Nat.add_zero]

/-- Where a value is recorded with an overload, that is the one that values are returned to. -/
theorem count_toOverload (overload : Option OverloadId) (charge : Charge) :
    (toOverload overload).count charge = if overload.map .returned = some charge then 1 else 0 := by
  cases overload with
  | none => simp [toOverload]
  | some id => by_cases same : Charge.returned id = charge <;> simp [toOverload, same]

section Overloads

variable {overload : Option OverloadId} {charge : Charge}

mutual

/-- Which overload values are returned to makes a difference for returned values only. -/
theorem count_ofStatement (other : overload.map .returned ≠ some charge) : ∀ statement,
    (ofStatement overload statement).count charge = (ofStatement none statement).count charge
  | .expression _ _ | .assign _ _ _ | .annotated _ _ _ _ | .function _ | .classDefinition _
  | .global _ _ | .nonlocal _ _ | .pass _ => by simp only [ofStatement]
  | .ret _ _ => by
    simp only [ofStatement, List.count_append, count_toOverload, if_neg other]
    simp
  | .branch _ body otherwise _ | .loop _ body otherwise _ | .iteration _ _ body otherwise _ => by
    simp only [ofStatement, List.count_append, count_ofBlock other body,
      count_ofBlock other otherwise]

theorem count_ofBlock (other : overload.map .returned ≠ some charge) : ∀ block,
    (ofBlock overload block).count charge = (ofBlock none block).count charge
  | [] => rfl
  | statement :: rest => by
    simp only [ofBlock, List.count_append, count_ofStatement other statement,
      count_ofBlock other rest]

end

theorem count_ofFunction (other : overload.map .returned ≠ some charge)
    (definition : FunctionDefinition) :
    (ofFunction overload definition).count charge = (ofFunction none definition).count charge := by
  obtain ⟨_, _, listed, returns, body, _, _⟩ := definition
  simp only [ofFunction, List.count_append, count_ofBlock other body]

mutual

/-- Without an overload nothing is returned. -/
theorem count_ofStatement_returned (id : OverloadId) : ∀ statement,
    (ofStatement none statement).count (.returned id) = 0
  | .expression _ _ | .assign _ _ _ | .annotated _ _ _ _ | .ret _ _ => by
    simp [ofStatement, checked, optionalChecked, toOverload]
  | .function definition => by
    simp [ofStatement, decorators, count_ofFunction_returned id definition]
  | .classDefinition ⟨_, _, _, body, _, _⟩ => by
    simp [ofStatement, ofClass, count_ofBlock_returned id body]
  | .global _ _ | .nonlocal _ _ | .pass _ => rfl
  | .branch _ body otherwise _ | .loop _ body otherwise _ | .iteration _ _ body otherwise _ => by
    simp [ofStatement, checked, count_ofBlock_returned id body,
      count_ofBlock_returned id otherwise]

theorem count_ofFunction_returned (id : OverloadId) : ∀ definition,
    (ofFunction none definition).count (.returned id) = 0
  | ⟨_, _, _, _, body, _, _⟩ => by
    simp [ofFunction, parameters, declaredReturn, count_ofBlock_returned id body]

theorem count_ofBlock_returned (id : OverloadId) : ∀ block,
    (ofBlock none block).count (.returned id) = 0
  | [] => rfl
  | statement :: rest => by
    simp [ofBlock, count_ofStatement_returned id statement, count_ofBlock_returned id rest]

end

end Overloads

section Nodes

open Outline

mutual

/-- A node is declared no more often than it stands in a statement. -/
theorem count_ofStatement_declared (node : NodeId) : ∀ statement,
    (ofStatement none statement).count (.declared node) ≤
      (nodes (Outline.ofStatement statement)).count node
  | .expression _ _ | .assign _ _ _ | .annotated _ _ _ _ | .ret _ _ => by
    simp [ofStatement, checked, optionalChecked, toOverload]
  | .function ⟨id, _, _, _, body, _, _⟩ => by
    have inside := count_ofBlock_declared node body
    have own : (Charge.declared id == Charge.declared node) = (id == node) := by
      by_cases same : id = node <;> simp [same]
    simp only [ofStatement, ofFunction, decorators, parameters, declaredReturn,
      Outline.ofStatement, Outline.ofFunction,
      nodes_cons_some, nodes_append, List.count_append, List.count_cons, count_indices_declared,
      own]
    omega
  | .classDefinition ⟨_, _, _, body, _, _⟩ => by
    have inside := count_ofBlock_declared node body
    simp only [ofStatement, ofClass, Outline.ofStatement, Outline.ofClass, nodes_cons_some,
      nodes_append, List.count_append, List.count_cons, count_indices_declared]
    omega
  | .global _ _ | .nonlocal _ _ | .pass _ => Nat.zero_le _
  | .branch _ body otherwise _ | .loop _ body otherwise _ | .iteration _ _ body otherwise _ => by
    have first := count_ofBlock_declared node body
    have second := count_ofBlock_declared node otherwise
    simp only [ofStatement, checked, Outline.ofStatement, nodes_cons_none, nodes_append,
      List.count_append, count_indices_declared]
    omega

theorem count_ofBlock_declared (node : NodeId) : ∀ block,
    (ofBlock none block).count (.declared node) ≤ (nodes (Outline.ofStatements block)).count node
  | [] => Nat.le_refl _
  | statement :: rest => by
    have first := count_ofStatement_declared node statement
    have others := count_ofBlock_declared node rest
    simp only [ofBlock, Outline.ofStatements, nodes_append, List.count_append]
    omega

end

end Nodes

end Charge

/-- In a module with distinct nodes no node is declared twice. -/
theorem Module.HasDistinctNodes.count_declared {module : Module}
    (distinct : module.HasDistinctNodes) (node : NodeId) :
    module.charges.count (.declared node) ≤ 1 := by
  have once := List.nodup_iff_count_le_one.mp distinct node
  have among := Charge.count_ofBlock_declared node module.body
  rw [List.count_cons] at once
  exact among.trans (by unfold Module.nodes Module.outline at once; omega)

end TypeInference
