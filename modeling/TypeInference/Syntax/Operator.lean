/-!
# Operators

The binary and unary operators of the analyzed language and their spelling.
Comparisons always give a truth value; logical operators give one of their
operands.
-/

namespace TypeInference

/-- Operators between two operands. -/
inductive BinaryOperator where
  | add
  | subtract
  | multiply
  | divide
  | floorDivide
  | modulo
  | power
  | bitAnd
  | bitOr
  | bitXor
  | shiftLeft
  | shiftRight
  | and
  | or
  | equal
  | notEqual
  | less
  | lessEqual
  | greater
  | greaterEqual
  | is
  | isNot
  | in
  | notIn
deriving DecidableEq, Inhabited

namespace BinaryOperator

/-- Every binary operator. -/
def all : List BinaryOperator :=
  [.add, .subtract, .multiply, .divide, .floorDivide, .modulo, .power, .bitAnd, .bitOr, .bitXor,
   .shiftLeft, .shiftRight, .and, .or, .equal, .notEqual, .less, .lessEqual, .greater,
   .greaterEqual, .is, .isNot, .in, .notIn]

/-- The operator as it is written. -/
def symbol : BinaryOperator → String
  | .add => "+"
  | .subtract => "-"
  | .multiply => "*"
  | .divide => "/"
  | .floorDivide => "//"
  | .modulo => "%"
  | .power => "**"
  | .bitAnd => "&"
  | .bitOr => "|"
  | .bitXor => "^"
  | .shiftLeft => "<<"
  | .shiftRight => ">>"
  | .and => "and"
  | .or => "or"
  | .equal => "=="
  | .notEqual => "!="
  | .less => "<"
  | .lessEqual => "<="
  | .greater => ">"
  | .greaterEqual => ">="
  | .is => "is"
  | .isNot => "is not"
  | .in => "in"
  | .notIn => "not in"

/-- The operator with a given spelling. -/
def ofSymbol? (symbol : String) : Option BinaryOperator :=
  all.find? fun operator => operator.symbol == symbol

/-- Comparison, identity and membership. -/
def isComparison : BinaryOperator → Bool
  | .equal | .notEqual | .less | .lessEqual | .greater | .greaterEqual | .is | .isNot | .in
  | .notIn => true
  | _ => false

/-- The operators that give one of their operands. -/
def isLogical : BinaryOperator → Bool
  | .and | .or => true
  | _ => false

/-- The operators on the bits of integers, shifts included. -/
def isBitwise : BinaryOperator → Bool
  | .bitAnd | .bitOr | .bitXor | .shiftLeft | .shiftRight => true
  | _ => false

/-- The shifts. -/
def isShift : BinaryOperator → Bool
  | .shiftLeft | .shiftRight => true
  | _ => false

/-- The method of the left operand that an arithmetic or bitwise operator calls. -/
def method? : BinaryOperator → Option String
  | .add => some "__add__"
  | .subtract => some "__sub__"
  | .multiply => some "__mul__"
  | .divide => some "__truediv__"
  | .floorDivide => some "__floordiv__"
  | .modulo => some "__mod__"
  | .power => some "__pow__"
  | .bitAnd => some "__and__"
  | .bitOr => some "__or__"
  | .bitXor => some "__xor__"
  | .shiftLeft => some "__lshift__"
  | .shiftRight => some "__rshift__"
  | _ => none

end BinaryOperator

/-- Operators before one operand. -/
inductive UnaryOperator where
  | negate
  | plus
  | invert
  | not
deriving DecidableEq, Inhabited

namespace UnaryOperator

/-- Every unary operator. -/
def all : List UnaryOperator :=
  [.negate, .plus, .invert, .not]

/-- The operator as it is written. -/
def symbol : UnaryOperator → String
  | .negate => "-"
  | .plus => "+"
  | .invert => "~"
  | .not => "not"

/-- The operator with a given spelling. -/
def ofSymbol? (symbol : String) : Option UnaryOperator :=
  all.find? fun operator => operator.symbol == symbol

/-- The method of the operand that the operator calls; `not` calls none. -/
def method? : UnaryOperator → Option String
  | .negate => some "__neg__"
  | .plus => some "__pos__"
  | .invert => some "__invert__"
  | .not => none

end UnaryOperator

end TypeInference
