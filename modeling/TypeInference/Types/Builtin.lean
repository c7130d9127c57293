/-!
# Builtin types

The types that rules refer to by their nature and not by their name. A class
derived from none of them has no builtin nature.
-/

namespace TypeInference

/-- The nature of a builtin type. -/
inductive Builtin where
  | object
  | type
  | noneType
  | bool
  | int
  | float
  | complex
  | str
  | bytes
  | list
  | tuple
  | set
  | dict
  | function
  | iterator
  | generator
  | ellipsis
deriving DecidableEq, Inhabited

namespace Builtin

/-- Every builtin type, in order of declaration. -/
def all : List Builtin :=
  [.object, .type, .noneType, .bool, .int, .float, .complex, .str, .bytes, .list, .tuple, .set,
   .dict, .function, .iterator, .generator, .ellipsis]

/-- The name of the class. -/
def name : Builtin → String
  | .object => "object"
  | .type => "type"
  | .noneType => "NoneType"
  | .bool => "bool"
  | .int => "int"
  | .float => "float"
  | .complex => "complex"
  | .str => "str"
  | .bytes => "bytes"
  | .list => "list"
  | .tuple => "tuple"
  | .set => "set"
  | .dict => "dict"
  | .function => "function"
  | .iterator => "iterator"
  | .generator => "generator"
  | .ellipsis => "ellipsis"

/-- The place in the order of declaration. -/
def ordinal : Builtin → Nat
  | .object => 0
  | .type => 1
  | .noneType => 2
  | .bool => 3
  | .int => 4
  | .float => 5
  | .complex => 6
  | .str => 7
  | .bytes => 8
  | .list => 9
  | .tuple => 10
  | .set => 11
  | .dict => 12
  | .function => 13
  | .iterator => 14
  | .generator => 15
  | .ellipsis => 16

/-- The builtin type with a given name. -/
def ofName? (name : String) : Option Builtin :=
  all.find? fun builtin => builtin.name == name

/-- The rank of a numeric type: a truth value is the narrowest number. -/
def numericRank : Builtin → Option Nat
  | .bool => some 0
  | .int => some 1
  | .float => some 2
  | .complex => some 3
  | _ => none

/-- Whether the type has a rank among the numbers. -/
def isNumeric (builtin : Builtin) : Bool :=
  builtin.numericRank.isSome

/-- The types whose items are found by position. -/
def isSequence : Builtin → Bool
  | .list | .tuple => true
  | _ => false

/-- The types whose displays are kept item by item. -/
def isCollection : Builtin → Bool
  | .list | .tuple | .set | .dict => true
  | _ => false

/-- The integers, truth values included. -/
def isInteger : Builtin → Bool
  | .int | .bool => true
  | _ => false

/-- Texts and byte strings. -/
def isTextual : Builtin → Bool
  | .str | .bytes => true
  | _ => false

/-- Each type stands in the list at its place. -/
theorem getElem?_all_ordinal (builtin : Builtin) : all[builtin.ordinal]? = some builtin := by
  cases builtin <;> rfl

end Builtin

end TypeInference
