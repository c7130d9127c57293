import TypeInference.Analysis.Arguments
import TypeInference.Store.Objects

/-!
# Samples of type parameters

An argument whose class has the structure of a generic base of a template shows
what the parameters of that base are: a list, for one, shows the element type of
a template derived from lists. Only the first element is looked at. The type of
the argument is kept as a base that was discovered in this way.
-/

namespace TypeInference

/-- What the arguments of a specialization have shown so far. -/
structure Evidence where
  bindings : Bindings
  /-- The types that were found to stand for a generic base. -/
  bases : List Ty := []
  /-- The arguments that have shown nothing, in order. -/
  unused : List Argument := []

namespace Evidence

/-- Keeps a base, unless its type is the template or is kept already. -/
def addBase (evidence : Evidence) (store : Store) (template : ClassId) (ty : Ty) : Evidence :=
  if store.sameType ty (.cls template) || evidence.bases.any (store.sameType ty) then evidence
  else { evidence with bases := evidence.bases ++ [ty] }

/-- Binds a parameter to the type of a sample, if the parameter is in question
and the sample is known. -/
def bindSample (evidence : Evidence) (store : Store) (parameter : TypeParameter)
    (sample : Option Value) : Evidence :=
  match sample with
  | some value =>
    if !value.isUnknown && evidence.bindings.contains parameter then
      { evidence with bindings := evidence.bindings.bind parameter (store.typeOf value) }
    else evidence
  | none => evidence

/-- Whether a base and the class of a value denote one structure: classes of
builtin nature by that nature, others by identity or template. -/
def sameStructure (store : Store) (base found : ClassId) : Bool :=
  match (store.classAt base).builtin, (store.classAt found).builtin with
  | some first, some second => first = second
  | _, _ =>
    let hash (id : ClassId) : TypeHash := (store.classAt id).hash
    hash base = hash found || hash (store.templateOf base) = hash (store.templateOf found)

/-- The samples that a value has for the parameters of a base of some nature, of
which there are so many. -/
def samples (nature : Option Builtin) (count : Nat) (value : Value) : List (Option Value) :=
  match nature, count with
  | some .dict, 2 =>
    match value.asMapping? with
    | some mapping => [mapping.firstKey?, mapping.firstValue?]
    | none => []
  | some .tuple, _ =>
    match value.asSequence? with
    | some sequence => sequence.items.map some
    | none => []
  | some _, 1 => [value.firstElement?]
  | _, _ => []

/-- What a value shows through the first base of the template with its structure;
nothing if there is no such base. -/
def sampleBases? (evidence : Evidence) (store : Store) (template : ClassId) (value : Value) :
    Option Evidence :=
  let ty := store.typeOf value
  match ty with
  | .cls found =>
    ((store.classAt template).baseClasses.find? fun base => sameStructure store base found).map
      fun base =>
        let evidence := evidence.addBase store template ty
        if store.isGeneric base then
          let parameters := (store.classAt base).openParameters
          (parameters.zip (samples (store.classAt base).builtin parameters.length value)).foldl
            (fun evidence sample => evidence.bindSample store sample.1 sample.2) evidence
        else evidence
  | _ => none

/-- Whether a value is an object whose type is no type parameter. -/
def isConcreteObject : Value → Bool
  | .object (.parameter _) _ => false
  | .object _ _ => true
  | _ => false

/-- What one argument shows: the type of the parameter it is declared with, or
what it shows through a base of the template. -/
def takeArgument (store : Store) (template : ClassId) (evidence : Evidence)
    (argument : Argument) : Evidence :=
  let declared := argument.declaredType.asParameter?.filter evidence.bindings.contains
  match declared with
  | some parameter =>
    let ty := store.typeOf argument.value
    if ty.isUnknown then evidence
    else { evidence with bindings := evidence.bindings.bind parameter ty }
  | none =>
    let sampled :=
      if isConcreteObject argument.value then evidence.sampleBases? store template argument.value
      else none
    match sampled with
    | some evidence => evidence
    | none =>
      if store.sameType argument.declaredType (.cls template) then evidence
      else { evidence with unused := evidence.unused ++ [argument] }

/-- Gives unused arguments in order to the parameters that are still open. -/
def bindRemaining (store : Store) :
    List TypeParameter → List Argument → Bindings → Bindings
  | [], _, bindings => bindings
  | parameter :: rest, arguments, bindings =>
    if bindings.isUnresolved parameter then
      match arguments with
      | [] => bindings
      | argument :: others =>
        let ty := store.typeOf argument.value
        bindRemaining store rest others
          (if ty.isUnknown then bindings else bindings.bind parameter ty)
    else bindRemaining store rest arguments bindings

end Evidence

namespace Bindings

/-- Follows a parameter that is bound to another resolved one a step further.
Tells also whether anything changed. -/
def followOne (state : Bindings × Bool) (parameter : TypeParameter) : Bindings × Bool :=
  match state.1.find? parameter with
  | some (.parameter target) =>
    if target.hash = parameter.hash || state.1.isUnresolved target then state
    else
      match state.1.find? target with
      | some ty => (state.1.bind parameter ty, true)
      | none => state
  | _ => state

/-- Rounds in which every parameter is followed a step, until nothing changes. -/
def followRounds (parameters : List TypeParameter) : Nat → Bindings → Bindings
  | 0, bindings => bindings
  | rounds + 1, bindings =>
    let (followed, changed) := parameters.foldl followOne (bindings, false)
    if changed then followRounds parameters rounds followed else followed

/-- Follows parameters that are bound to other parameters to the end, with as
many rounds as there are parameters. -/
def followChains (bindings : Bindings) (parameters : List TypeParameter) : Bindings :=
  followRounds parameters parameters.length bindings

end Bindings

namespace Evidence

/-- What some arguments show of the parameters of a template: first what each
shows by itself, then the rest in order, and at last chains of parameters are
followed. -/
def ofArguments (store : Store) (template : ClassId) (parameters : List TypeParameter)
    (arguments : Arguments) : Evidence :=
  let evidence := arguments.list.foldl (takeArgument store template)
    { bindings := .identity parameters }
  let bindings := bindRemaining store parameters evidence.unused evidence.bindings
  { evidence with bindings := bindings.followChains parameters }

end Evidence

end TypeInference
