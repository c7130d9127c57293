import TypeInference.Source.Position
import TypeInference.Types.Function

/-!
# Arguments and their parameters

The arguments of a call are bound to the parameters of a signature: the receiver
to the first, values by place to the following ones, a parameter for the rest
takes what is left of them, keywords go to the parameter of their name, and a
parameter that nothing is bound to takes its default. What no parameter takes
is kept at the end, without a declared type.
-/

namespace TypeInference

/-- A value together with the parameter it is bound to. -/
structure Argument where
  name : String
  value : Value
  declaredType : Ty

/-- Arguments in order, and the place of the expression they come from. -/
structure Arguments where
  list : List Argument := []
  span : Span := .unknown

namespace Argument

/-- A value bound to no parameter. -/
def unbound (name : String) (value : Value) : Argument :=
  ⟨name, value, .unknown⟩

/-- A value bound to a parameter. -/
def bound (parameter : FormalParameter) (value : Value) : Argument :=
  ⟨parameter.name, value, parameter.declaredType⟩

end Argument

/-- The values of a call that are not bound yet. -/
structure Supply where
  positional : List Value
  keywords : List (String × Value)

namespace Supply

/-- The first keyword value of a name, and the keywords without it. -/
def keywordIn (name : String) : List (String × Value) → Option (Value × List (String × Value))
  | [] => none
  | entry :: rest =>
    if entry.1 = name then some (entry.2, rest)
    else (keywordIn name rest).map fun found => (found.1, entry :: found.2)

/-- Takes the value of a keyword. -/
def takeKeyword (supply : Supply) (name : String) : Option Value × Supply :=
  match keywordIn name supply.keywords with
  | some (value, rest) => (some value, { supply with keywords := rest })
  | none => (none, supply)

/-- Takes the next value by place, or else the value of a keyword. -/
def takeNormal (supply : Supply) (name : String) : Option Value × Supply :=
  match supply.positional with
  | value :: rest => (some value, { supply with positional := rest })
  | [] => supply.takeKeyword name

/-- A value, or else the default of a parameter, bound to the parameter. -/
def boundOrDefault (parameter : FormalParameter) (value : Option Value) : List Argument :=
  ((value.or parameter.default).map (Argument.bound parameter)).toList

/-- What a parameter takes, and what it leaves. -/
def bind (supply : Supply) (parameter : FormalParameter) : List Argument × Supply :=
  match parameter.kind with
  | .normal =>
    let (value, supply) := supply.takeNormal parameter.name
    (boundOrDefault parameter value, supply)
  | .keywordOnly =>
    let (value, supply) := supply.takeKeyword parameter.name
    (boundOrDefault parameter value, supply)
  | .varPositional =>
    (supply.positional.map (Argument.bound parameter), { supply with positional := [] })
  | .varKeyword => ([], supply)

/-- What several parameters take one after the other, and what they leave. -/
def bindAll (supply : Supply) : List FormalParameter → List Argument × Supply
  | [] => ([], supply)
  | parameter :: rest =>
    let (first, supply) := supply.bind parameter
    let (others, supply) := supply.bindAll rest
    (first ++ others, supply)

/-- What is left, bound to no parameter. -/
def surplus (supply : Supply) : List Argument :=
  supply.positional.map (Argument.unbound "")
    ++ supply.keywords.map fun entry => .unbound entry.1 entry.2

end Supply

namespace Arguments

/-- Binds the arguments of a call. The receiver, if there is one and a parameter
for it, takes the first parameter. -/
def forCall (parameters : List FormalParameter) (receiver : Option Value)
    (positional : List Value) (keywords : List (String × Value)) (span : Span) : Arguments :=
  let (received, parameters) : List Argument × List FormalParameter :=
    match receiver, parameters with
    | some value, first :: rest => ([.bound first value], rest)
    | _, _ => ([], parameters)
  let (taken, left) := Supply.bindAll ⟨positional, keywords⟩ parameters
  ⟨received ++ taken ++ left.surplus, span⟩

/-- Values without parameters. -/
def ofValues (values : List Value) (span : Span) : Arguments :=
  ⟨values.map (Argument.unbound ""), span⟩

/-- Types as arguments, without parameters. -/
def ofTypes (types : List Ty) (span : Span) : Arguments :=
  ofValues (types.map Value.ofType) span

/-- The first argument bound to a parameter of a given name. -/
def byName? (arguments : Arguments) (name : String) : Option Argument :=
  arguments.list.find? fun argument => argument.name = name

/-- How many arguments there are. -/
def size (arguments : Arguments) : Nat :=
  arguments.list.length

end Arguments

end TypeInference
