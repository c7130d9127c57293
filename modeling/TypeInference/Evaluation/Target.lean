import TypeInference.Analysis.Monad

/-!
# Targets of iterations

The names in a target are declared in the current scope. A tuple or list takes a
value apart: its targets get the successive elements, the unknown value when
there are none left. Over a mapping it gets a sample key and a sample value.
Whatever is neither a name, nor a tuple, nor a list declares nothing.
-/

namespace TypeInference.Analysis

/-- Declares a target that is a name. -/
def bindName (target : Expression) (value : Value) (span : Span) : Analysis Unit :=
  match target with
  | .name identifier => declare identifier.name value .local none span
  | _ => return

/-- Declares the names of targets with the successive elements of an iteration. -/
def unpack (span : Span) : List Expression → Option Elements → Analysis Unit
  | [], _ => return
  | .display .list items _ :: rest, elements => do
    let (element, others) := Value.nextOf elements
    unpack span items element.iterate
    unpack span rest others
  | .display .tuple items _ :: rest, elements => do
    let (element, others) := Value.nextOf elements
    unpack span items element.iterate
    unpack span rest others
  | target :: rest, elements => do
    let (element, others) := Value.nextOf elements
    bindName target element span
    unpack span rest others

/-- Declares the names of targets with given values, and with the unknown value
when there are none left. -/
def bindNames (span : Span) : List Expression → List Value → Analysis Unit
  | [], _ => return
  | target :: rest, values => do
    bindName target (values.head?.getD .unknown) span
    bindNames span rest values.tail

/-- The targets of a tuple or list. -/
def targetsOf? : Expression → Option (List Expression)
  | .display .list items _ => some items
  | .display .tuple items _ => some items
  | _ => none

/-- Declares the names of a target with one element of an iterable. -/
def bindIterationTarget (target : Expression) (iterable : Value) (span : Span) :
    Analysis Unit := do
  let element := iterable.firstElement?.getD .unknown
  match targetsOf? target with
  | some targets =>
    match iterable.asMapping? with
    | some mapping =>
      bindNames span targets
        [mapping.firstKey?.getD .unknown, mapping.firstValue?.getD .unknown]
    | none => unpack span targets element.iterate
  | none => bindName target element span

end TypeInference.Analysis
