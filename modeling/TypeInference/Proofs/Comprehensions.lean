import TypeInference.Evaluation.Expression
import TypeInference.Proofs.ClassBodies

/-!
# Comprehensions and the names they read

An expression reads the names that stand in it, and its comprehensions read names in scopes of their
own. Which scope that is depends on where a comprehension stands: the first iterable of a
comprehension belongs to the scope around it, and everything else to its own. What is not evaluated
reads nothing: slices, yields, and of generators all but the first iterable.

A comprehension is in order if none of its clauses reads a name that it binds itself or that a later
clause binds.
-/

namespace TypeInference

namespace Expression

/-- The name that a type hint in text reads. -/
def textName : Expression → List String
  | .constant (.str text) _ => [Blank.trim text]
  | _ => []

/-- The names that an index reads because its texts may be type hints. -/
def textNames : Expression → List String
  | .display .tuple items _ => items.flatMap textName
  | single => textName single

mutual

/-- The names that the evaluation of an expression reads. -/
def reads : Expression → List String
  | .constant _ _ | .slice _ _ _ _ | .yield _ _ => []
  | .name identifier => [identifier.name]
  | .attribute target _ _ => reads target
  | .index target position _ => reads target ++ (reads position ++ textNames position)
  | .call callee arguments _ => reads callee ++ argumentReads arguments
  | .display _ items _ => itemReads items
  | .dict entries _ => entryReads entries
  | .comprehension sampled => comprehensionReads sampled
  | .unary _ operand _ => reads operand
  | .binary left _ right _ => reads left ++ reads right

/-- The names that a comprehension reads. -/
def comprehensionReads : Comprehension → List String
  | ⟨_, kind, element, value, clauses, _⟩ =>
    firstReads clauses ++ if kind = .generator then [] else
      clauseReads false clauses ++ (reads element ++ optionalReads value)

/-- The names that the iterable of the first iteration among clauses reads. -/
def firstReads : List Clause → List String
  | [] => []
  | .iteration _ iterable _ :: _ => reads iterable
  | .condition _ _ :: rest => firstReads rest

/-- The names that clauses read in the scope of their comprehension, all of them or all but those of
the first iterable. -/
def clauseReads (all : Bool) : List Clause → List String
  | [] => []
  | .iteration _ iterable _ :: rest =>
    (if all then reads iterable else []) ++ clauseReads true rest
  | .condition test _ :: rest => reads test ++ clauseReads all rest

/-- The names that an expression reads if it is there. -/
def optionalReads : Option Expression → List String
  | none => []
  | some expression => reads expression

/-- The names that several expressions read. -/
def itemReads : List Expression → List String
  | [] => []
  | item :: rest => reads item ++ itemReads rest

/-- The names that keys and values read. -/
def entryReads : List (Expression × Expression) → List String
  | [] => []
  | (key, value) :: rest => reads key ++ (reads value ++ entryReads rest)

/-- The names that the arguments of a call read. -/
def argumentReads : List CallArgument → List String
  | [] => []
  | ⟨_, value⟩ :: rest => reads value ++ argumentReads rest

end

mutual

/-- The comprehensions that are evaluated with an expression, each with the node of the scope that
it is evaluated in. -/
def samples (around : NodeId) : Expression → List (NodeId × Comprehension)
  | .constant _ _ | .name _ | .slice _ _ _ _ | .yield _ _ => []
  | .attribute target _ _ => samples around target
  | .index target position _ => samples around target ++ samples around position
  | .call callee arguments _ => samples around callee ++ argumentSamples around arguments
  | .display _ items _ => itemSamples around items
  | .dict entries _ => entrySamples around entries
  | .comprehension sampled => comprehensionSamples around sampled
  | .unary _ operand _ => samples around operand
  | .binary left _ right _ => samples around left ++ samples around right

/-- A comprehension, and those that are evaluated with it. -/
def comprehensionSamples (around : NodeId) : Comprehension → List (NodeId × Comprehension)
  | ⟨id, kind, element, value, clauses, span⟩ =>
    firstSamples around clauses ++ if kind = .generator then [] else
      (around, ⟨id, kind, element, value, clauses, span⟩) ::
        (clauseSamples id false clauses ++ (samples id element ++ optionalSamples id value))

/-- The comprehensions in the iterable of the first iteration among clauses. -/
def firstSamples (around : NodeId) : List Clause → List (NodeId × Comprehension)
  | [] => []
  | .iteration _ iterable _ :: _ => samples around iterable
  | .condition _ _ :: rest => firstSamples around rest

/-- The comprehensions in clauses, all of them or all but those in the first iterable. -/
def clauseSamples (around : NodeId) (all : Bool) : List Clause → List (NodeId × Comprehension)
  | [] => []
  | .iteration _ iterable _ :: rest =>
    (if all then samples around iterable else []) ++ clauseSamples around true rest
  | .condition test _ :: rest => samples around test ++ clauseSamples around all rest

/-- The comprehensions in an expression if it is there. -/
def optionalSamples (around : NodeId) : Option Expression → List (NodeId × Comprehension)
  | none => []
  | some expression => samples around expression

/-- The comprehensions in several expressions. -/
def itemSamples (around : NodeId) : List Expression → List (NodeId × Comprehension)
  | [] => []
  | item :: rest => samples around item ++ itemSamples around rest

/-- The comprehensions in keys and values. -/
def entrySamples (around : NodeId) : List (Expression × Expression) → List (NodeId × Comprehension)
  | [] => []
  | (key, value) :: rest =>
    samples around key ++ (samples around value ++ entrySamples around rest)

/-- The comprehensions in the arguments of a call. -/
def argumentSamples (around : NodeId) : List CallArgument → List (NodeId × Comprehension)
  | [] => []
  | ⟨_, value⟩ :: rest => samples around value ++ argumentSamples around rest

end

end Expression

namespace Clause

/-- The names that clauses bind. -/
def names : List Clause → List String
  | [] => []
  | .iteration target _ _ :: rest => target.targetNames ++ names rest
  | .condition _ _ :: rest => names rest

/-- No clause reads a name that it binds itself or that a later one binds. The first iterable may
count, or is evaluated before. -/
def InOrder (all : Bool) : List Clause → Prop
  | [] => True
  | .iteration target iterable _ :: rest =>
    (all = true → ∀ name ∈ iterable.reads, name ∉ target.targetNames ++ names rest) ∧
      InOrder true rest
  | .condition test _ :: rest => (∀ name ∈ test.reads, name ∉ names rest) ∧ InOrder all rest

instance decidableInOrder : ∀ (all : Bool) (clauses : List Clause), Decidable (InOrder all clauses)
  | _, [] => .isTrue trivial
  | all, .iteration _ _ _ :: rest => by
    unfold InOrder
    have := decidableInOrder true rest
    infer_instance
  | all, .condition _ _ :: rest => by
    unfold InOrder
    have := decidableInOrder all rest
    infer_instance

end Clause

/-- No clause of a comprehension reads a name that it binds itself or that a later clause binds, the
iterable of the first iteration apart, which belongs to the scope around. -/
def Comprehension.InOrder (comprehension : Comprehension) : Prop :=
  Clause.InOrder false comprehension.clauses

instance (comprehension : Comprehension) : Decidable comprehension.InOrder :=
  inferInstanceAs (Decidable (Clause.InOrder false comprehension.clauses))

end TypeInference
