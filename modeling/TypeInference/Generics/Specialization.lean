import TypeInference.Generics.Sampling
import TypeInference.Generics.Substitution

/-!
# Specialization

A template applied to arguments gives a class in which the parameters are bound
to what the arguments show. The same bindings always give the same class. A
specialization that is asked for while it is being made gives its unfinished
placeholder, which ties classes that mention themselves. Where the arguments
show nothing, the template itself is the result.
-/

namespace TypeInference.Engine

/-- The members that every class has by nature and that are not copied. -/
def structuralMembers : List String :=
  ["__class__", "__bases__", "__base__"]

/-- The class that a template becomes, before it has bases and members. -/
def placeholderRecord (store : Store) (template : ClassId) (bindings : Bindings) : ClassRecord :=
  let record := store.classAt template
  ClassRecord.withTemplate
    { name := record.name, qualifiedName := record.qualifiedName,
      hash := .ofSpecialization record.hash (store.signature bindings).hashes,
      builtin := record.builtin, flags := record.flags, node := record.node,
      parameters := bindings } template

/-- The bases of a specialization: markers are dropped, generic classes are
specialized, the rest is kept. -/
def substituteBases (engine : Engine) (bindings : Bindings) : List Ty → Analysis (List Ty)
  | [] => return []
  | .marker _ :: rest => engine.substituteBases bindings rest
  | .cls id :: rest => do
    let specialized ← engine.substituteClass bindings id
    let others ← engine.substituteBases bindings rest
    return .cls specialized :: others
  | ty :: rest => do
    let others ← engine.substituteBases bindings rest
    return ty :: others

/-- Whether a base stands for a discovered type: the same type, or one of the
same builtin nature. -/
def represents (store : Store) (discovered base : Ty) : Bool :=
  store.sameType base discovered
    || ((store.builtin? base).isSome && store.builtin? base = store.builtin? discovered)

/-- Bases with one discovered type more, unless one of them stands for it. -/
def addDiscovered (store : Store) (bases : List Ty) (discovered : Ty) : List Ty :=
  if bases.any (represents store discovered) then bases else bases ++ [discovered]

/-- Copies members onto a specialization, with their type parameters replaced. -/
def copyMembers (engine : Engine) (bindings : Bindings) (target : ClassId) :
    List (String × Value) → Analysis Unit
  | [] => return
  | (name, value) :: rest => do
    let replaced ← engine.substitute bindings value
    Analysis.modifyStore fun store => (store.addMember target name replaced true).2
    engine.copyMembers bindings target rest

/-- Gives a placeholder its bases and members. -/
def materialize (engine : Engine) (template placeholder : ClassId) (evidence : Evidence) :
    Analysis Unit := do
  let record := (← Analysis.store).classAt template
  let bases ← engine.substituteBases evidence.bindings record.bases
  Analysis.modifyStore fun store =>
    store.setBases placeholder (evidence.bases.foldl (addDiscovered store) bases)
  let members := (← Analysis.store).classAt template |>.members.entries
  engine.copyMembers evidence.bindings placeholder
    (members.filter fun member => !structuralMembers.contains member.1)

/-- Begins a specialization: its placeholder stands on the stack of its template. -/
def beginSpecialization (store : Store) (template : ClassId) (signature : ResolvedSignature)
    (placeholder : ClassId) : Bool × Store :=
  let record := store.classAt template
  let (begun, unfinished) := record.unfinished.push record.hash signature placeholder
  (begun, store.modifyClass template fun record => { record with unfinished })

/-- Ends the specialization of a template that was begun last. -/
def endSpecialization (store : Store) (template : ClassId) : Store :=
  store.modifyClass template fun record => { record with unfinished := record.unfinished.pop.2 }

/-- The placeholder of a specialization that is being made. -/
def unfinished? (store : Store) (template : ClassId) (signature : ResolvedSignature) :
    Option ClassId :=
  let record := store.classAt template
  record.unfinished.find? record.hash signature

/-- Stores a finished specialization, unless there is one for its signature; the
stored one is the result. -/
def storeSpecialization (store : Store) (template : ClassId) (signature : ResolvedSignature)
    (specialized : ClassId) : ClassId × Store :=
  let cache := (store.classAt template).specializations
  (cache.stored signature specialized,
    store.modifyClass template fun record =>
      { record with specializations := record.specializations.store signature specialized })

/-- Makes a specialization, which is unfinished until its bases and members are
there and ends also if they cannot be made. -/
def makeSpecialization (engine : Engine) (template : ClassId) (evidence : Evidence) :
    Analysis ClassId := do
  let signature := (← Analysis.store).signature evidence.bindings
  let placeholder ← Analysis.onStore fun store =>
    store.addClass (placeholderRecord store template evidence.bindings)
  Analysis.modifyStore fun store =>
    (beginSpecialization store template signature placeholder).2
  Analysis.withCleanup (engine.materialize template placeholder evidence) fun progress =>
    { progress with store := endSpecialization progress.store template }
  Analysis.onStore fun store => storeSpecialization store template signature placeholder

/-- Specializes a class. A specialization stands for its template. -/
def specializeClass (engine : Engine) (id : ClassId) (arguments : Arguments) :
    Analysis ClassId := do
  match ((← Analysis.store).classAt id).template with
  | some template => engine.specialize template arguments
  | none =>
    engine.ensureConstructed id
    let store ← Analysis.store
    let parameters := store.typeParameters id
    let evidence := Evidence.ofArguments store id parameters arguments
    if parameters.all evidence.bindings.isUnresolved then return id
    let signature := store.signature evidence.bindings
    match (store.classAt id).specializations.find? signature with
    | some finished => return finished
    | none =>
      match unfinished? store id signature with
      | some placeholder => return placeholder
      | none => engine.makeSpecialization id evidence

end TypeInference.Engine
