import TypeInference.Store.Naming

/-!
# Unions of values

A union joins several values. The unknown value absorbs all others, alternatives
of unions are alternatives of the whole, values of one kind and one type count
once and the first of them stays, and a single value stands for itself.
-/

namespace TypeInference

/-- The kinds of values. -/
inductive ValueKind where
  | unknown
  | type
  | object
  | union
deriving DecidableEq

namespace Value

/-- The kind of a value. -/
def kind : Value → ValueKind
  | .unknown => .unknown
  | .type _ => .type
  | .object _ _ => .object
  | .union _ => .union

/-- The values that a value stands for. -/
def alternatives : Value → List Value
  | .union alternatives => alternatives
  | value => [value]

end Value

namespace Store

mutual

/-- The type of a value: the type itself, the type of the object, the one type
that all alternatives have. -/
def typeOf (store : Store) : Value → Ty
  | .unknown => .unknown
  | .type ty => ty
  | .object ty _ => ty
  | .union alternatives =>
    match store.typesOf alternatives with
    | [] => .unknown
    | first :: rest => if rest.all (store.sameType first) then first else .unknown

/-- The types of several values. -/
def typesOf (store : Store) : List Value → List Ty
  | [] => []
  | value :: rest => store.typeOf value :: store.typesOf rest

end

/-- What decides whether two values count once in a union. -/
def unionKey (store : Store) (value : Value) : ValueKind × TypeHash :=
  (value.kind, store.typeHash (store.typeOf value))

/-- Values with one more, unless one of its kind and type is among them. -/
def addAlternative (store : Store) (known : List Value) (value : Value) : List Value :=
  if known.any fun other => store.unionKey other = store.unionKey value then known
  else known ++ [value]

/-- Several distinct values as one. -/
def wrap : List Value → Value
  | [] => .unknown
  | [value] => value
  | values => .union values

/-- The union of some values. -/
def union (store : Store) (values : List Value) : Value :=
  if values.any Value.isUnknown then .unknown
  else wrap ((values.flatMap Value.alternatives).foldl store.addAlternative [])

mutual

/-- Whether a value is the none object, or a union of such. -/
def isNone (store : Store) : Value → Bool
  | .object ty _ => store.builtin? ty = some .noneType
  | .union alternatives => store.areNone alternatives
  | _ => false

/-- Whether all of some values are the none object. -/
def areNone (store : Store) : List Value → Bool
  | [] => true
  | value :: rest => store.isNone value && store.areNone rest

end

end Store

end TypeInference
