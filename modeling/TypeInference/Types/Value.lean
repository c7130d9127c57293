import TypeInference.Syntax.Constant
import TypeInference.Types.Ty

/-!
# Values

The value of an expression is unknown, a type, an object of a type, or one of
several values. Objects of some types carry what is known of their content: the
constant, the items, the entries, or the element that an iterator yields. A
union holds neither the unknown value nor a union when it is made by
`Store.union`.
-/

namespace TypeInference

mutual

/-- What an expression evaluates to. -/
inductive Value where
  /-- Nothing could be inferred. -/
  | unknown
  /-- A type: a class, a function, a type parameter. -/
  | type (ty : Ty)
  /-- An object of a type. -/
  | object (ty : Ty) (content : Content)
  /-- One of several values. -/
  | union (alternatives : List Value)

/-- What is known of an object beyond its type. -/
inductive Content where
  | plain
  | constant (value : Constant)
  | sequence (sequence : SequenceContent)
  | mapping (mapping : MappingContent)
  /-- The element that an iterator yields again and again. -/
  | iterator (element : Value)

/-- The items of a sequence or a set. They are exact when they are all the items
and not only the first ones or a sample. -/
structure SequenceContent where
  items : List Value
  exact : Bool

/-- The entries of a mapping, exact when they are all the entries. -/
structure MappingContent where
  entries : List (Value × Value)
  exact : Bool

end

instance : Inhabited Value := ⟨.unknown⟩

namespace SequenceContent

/-- The first item. -/
def first? (content : SequenceContent) : Option Value :=
  content.items.head?

/-- The item at a place; negative places count from the end. -/
def at? (content : SequenceContent) (index : Int) : Option Value :=
  let place := if index < 0 then index + content.items.length else index
  if 0 ≤ place then content.items[place.toNat]? else none

end SequenceContent

namespace Value

/-- The plain object of a type. Of the unknown type there is only the unknown
value. -/
def ofTy : Ty → Value
  | .unknown => .unknown
  | ty => .object ty .plain

/-- An object with known content. -/
def withContent (ty : Ty) (content : Content) : Value :=
  match ty with
  | .unknown => .unknown
  | ty => .object ty content

/-- A type as a value. The unknown type is the unknown value. -/
def ofType : Ty → Value
  | .unknown => .unknown
  | ty => .type ty

/-- Whether nothing is known. -/
def isUnknown : Value → Bool
  | unknown => true
  | _ => false

/-- Whether the value is a type. -/
def isType : Value → Bool
  | type _ => true
  | _ => false

/-- Whether the value is an object. -/
def isObject : Value → Bool
  | object _ _ => true
  | _ => false

/-- The type, if the value is one. -/
def asType? : Value → Option Ty
  | type ty => some ty
  | _ => none

/-- The function, if the value is one. -/
def asFunction? (value : Value) : Option FunctionId :=
  value.asType?.bind Ty.asFunction?

/-- The alternatives of a union. -/
def asUnion? : Value → Option (List Value)
  | union alternatives => some alternatives
  | _ => none

/-- The constant, if the value is one. -/
def asConstant? : Value → Option Constant
  | object _ (.constant value) => some value
  | _ => none

/-- The items, if they are known. -/
def asSequence? : Value → Option SequenceContent
  | object _ (.sequence sequence) => some sequence
  | _ => none

/-- The entries, if they are known. -/
def asMapping? : Value → Option MappingContent
  | object _ (.mapping mapping) => some mapping
  | _ => none

end Value

namespace MappingContent

/-- The keys in order. -/
def keys (content : MappingContent) : List Value :=
  content.entries.map (·.1)

/-- The values in the order of their keys. -/
def values (content : MappingContent) : List Value :=
  content.entries.map (·.2)

/-- The first key. -/
def firstKey? (content : MappingContent) : Option Value :=
  content.keys.head?

/-- The value of the first key. -/
def firstValue? (content : MappingContent) : Option Value :=
  content.values.head?

/-- Whether a value is a given constant. -/
def isKey (key : Constant) (value : Value) : Bool :=
  match value.asConstant? with
  | some constant => constant == key
  | none => false

/-- The value of the first entry whose key is a given constant. -/
def find? (content : MappingContent) (key : Constant) : Option Value :=
  (content.entries.find? fun entry => isKey key entry.1).map (·.2)

end MappingContent

/-- The elements that iteration yields: first the known ones, then one element
without end or nothing. -/
structure Elements where
  known : List Value
  repeated : Option Value

namespace Elements

/-- The next element, unknown after the last one, and what is left. -/
def next (elements : Elements) : Value × Elements :=
  match elements.known with
  | value :: rest => (value, { elements with known := rest })
  | [] => (elements.repeated.getD .unknown, elements)

/-- The first elements in order. -/
def take (elements : Elements) : Nat → List Value
  | 0 => []
  | count + 1 => elements.next.1 :: elements.next.2.take count

end Elements

namespace Value

/-- Iteration over the known content: the items, the keys, or the element of an
iterator. Other values are not known to be iterable. -/
def iterate : Value → Option Elements
  | object _ (.sequence sequence) => some ⟨sequence.items, none⟩
  | object _ (.mapping mapping) => some ⟨mapping.keys, none⟩
  | object _ (.iterator element) => some ⟨[], some element⟩
  | _ => none

/-- The first element of an iteration, if the value is iterable. -/
def firstElement? (value : Value) : Option Value :=
  value.iterate.map fun elements => elements.next.1

/-- Takes the next element of an iteration; without one the element is unknown. -/
def nextOf : Option Elements → Value × Option Elements
  | some elements => (elements.next.1, some elements.next.2)
  | none => (.unknown, none)

end Value

end TypeInference
