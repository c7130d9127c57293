import TypeInference.Definitions.Function
import TypeInference.Evaluation.Check

/-!
# Statements and classes

Bodies are walked in order. Statements declare what they bind, nested
definitions are declared and left for later, and returned values go to the
overload of the frame. All branches are walked, one after the other.

The body of a class runs once, when the class is declared: its methods,
nested classes and assignments become members. The class can be named before its
body runs. Bases that are neither classes nor markers are dropped, and a class
without a base class is derived from the class of all objects.
-/

namespace TypeInference.Engine

/-- Assigns a value to a target. A name is declared, unless it is the receiver; an
attribute of the receiver becomes a member; a tuple or list declares its names. -/
def assignTarget (frame : Frame) (span : Span) (value : Value) (target : Expression) :
    Analysis Unit :=
  match target with
  | .name identifier =>
    if frame.receiver = some identifier.name then return
    else Analysis.declare identifier.name value .local none identifier.span
  | .attribute object name _ =>
    match frame.owner, frame.receiver with
    | some owner, some receiver =>
      if object.asName? = some receiver then Analysis.setAttribute owner name.name value
      else return
    | _, _ => return
  | other =>
    match Analysis.targetsOf? other with
    | some targets => Analysis.unpack span targets value.iterate
    | none => return

/-- Assigns a value to several targets, from the first to the last. -/
def assignTargets (frame : Frame) (span : Span) (value : Value) :
    List Expression → Analysis Unit
  | [] => return
  | target :: rest => do
    assignTarget frame span value target
    assignTargets frame span value rest

mutual

/-- Assigns a value in the body of a class. A name becomes a member, which an
unknown value never replaces; a tuple or list takes the value apart. -/
def collectAttribute (owner : ClassId) (value : Value) : Expression → Analysis Unit
  | .name identifier => do
    Analysis.modifyStore fun store =>
      (store.addMember owner identifier.name value !value.isUnknown).2
    Analysis.declare identifier.name value .local none identifier.span
  | .display .list items _ => collectAttributes owner value.iterate items
  | .display .tuple items _ => collectAttributes owner value.iterate items
  | _ => return

/-- Assigns the successive elements of an iteration in the body of a class. -/
def collectAttributes (owner : ClassId) (elements : Option Elements) :
    List Expression → Analysis Unit
  | [] => return
  | target :: rest => do
    let (element, others) := Value.nextOf elements
    collectAttribute owner element target
    collectAttributes owner others rest

end

/-- Assigns a value to several targets in the body of a class. -/
def collectTargets (owner : ClassId) (value : Value) : List Expression → Analysis Unit
  | [] => return
  | target :: rest => do
    collectAttribute owner value target
    collectTargets owner value rest

/-- Records a returned value with the overload of a frame, if there is one. A
constructor that returns something is reported. -/
def returnValue (frame : Frame) (value : Value) (span : Span) : Analysis Unit := do
  match frame.overload with
  | some overload =>
    if frame.isConstructor && !(← Analysis.store).isNone value then
      Analysis.report .returnInInit span
    Analysis.addReturn overload value
  | none => return

/-- Redirects names of the current scope. -/
def redirectNames (redirect : Scopes → String → Except Fault Scopes) :
    List Identifier → Analysis Unit
  | [] => return
  | identifier :: rest => do
    Analysis.changeScopes fun scopes => redirect scopes identifier.name
    redirectNames redirect rest

/-- Declares a function and its name in the current scope. -/
def declareNamedFunction (engine : Engine) (definition : FunctionDefinition) :
    Analysis Unit := do
  let function ← engine.declareFunction definition none
  Analysis.declare definition.name.name (.type (.function function)) .local (some definition.id)
    definition.name.span

/-- Declares a method and its name in the scope of the class. A definition that
extends a property leaves the member as it is. -/
def collectMethod (engine : Engine) (owner : ClassId) (definition : FunctionDefinition) :
    Analysis Unit := do
  let function ← engine.declareFunction definition (some owner)
  let value : Value := .type (.function function)
  Analysis.modifyStore fun store =>
    (store.addMember owner definition.name.name value !(extendsProperty definition)).2
  Analysis.declare definition.name.name value .local (some definition.id) definition.name.span

/-- The bases among evaluated expressions: classes and markers. -/
def evaluateBases (engine : Engine) : List Expression → Analysis (List Ty)
  | [] => return []
  | base :: rest => do
    let value ← engine.evaluate .everything base
    let others ← engine.evaluateBases rest
    match value with
    | .type (.cls id) => return .cls id :: others
    | .type (.marker parameters) => return .marker parameters :: others
    | _ => return others

/-- Bases with the class of all objects, if there is no class among them. -/
def withObject (bases : List Ty) : List Ty :=
  if bases.any fun base => base.asClass?.isSome then bases
  else bases ++ [Store.builtinType .object]

/-- Creates the class of a definition and remembers it for its node. -/
def createClass (definition : ClassDefinition) : Analysis ClassId := do
  let name := definition.name.name
  let qualifiedName ← Analysis.qualifiedName name
  let id ← Analysis.onStore fun store =>
    store.addClass
      { ClassRecord.named name qualifiedName none with node := some definition.id }
  modify fun progress =>
    { progress with symbols := progress.symbols.insertClass definition.id id }
  return id

/-- Gives a class its bases, and with them its type parameters. -/
def giveBases (engine : Engine) (id : ClassId) (bases : List Expression) : Analysis Unit := do
  let types ← engine.evaluateBases bases
  Analysis.modifyStore fun store =>
    let store := store.setBases id (withObject types)
    store.modifyClass id fun record =>
      { record with parameters := .identity (store.typeParameters id) }

mutual

/-- Walks a statement. -/
def walkStatement (engine : Engine) (frame : Frame) : Statement → Analysis Unit
  | .expression expression _ => do
    let _ ← engine.checkedValue expression
  | .assign targets value span => do
    let assigned ← engine.checkedValue value
    assignTargets frame span assigned targets
  | .annotated target hint value span => do
    let assigned ← engine.annotatedValue hint value
    assignTarget frame span assigned target
  | .ret value span => do
    let returned ← engine.checkedOptional value
    returnValue frame (returned.getD Store.noneObject) span
  | .function definition => engine.declareNamedFunction definition
  | .classDefinition definition => do
    let _ ← engine.declareClass definition
  | .global names _ => redirectNames Scopes.declareGlobal names
  | .nonlocal names _ => redirectNames Scopes.declareNonlocal names
  | .branch test body otherwise _ => do
    let _ ← engine.checkedValue test
    engine.walkBlock frame body
    engine.walkBlock frame otherwise
  | .iteration target iterable body otherwise span => do
    let value ← engine.checkedValue iterable
    Analysis.bindIterationTarget target value span
    engine.walkBlock frame body
    engine.walkBlock frame otherwise
  | .loop test body otherwise _ => do
    let _ ← engine.checkedValue test
    engine.walkBlock frame body
    engine.walkBlock frame otherwise
  | .pass _ => return

/-- Walks statements in order. -/
def walkBlock (engine : Engine) (frame : Frame) : List Statement → Analysis Unit
  | [] => return
  | statement :: rest => do
    engine.walkStatement frame statement
    engine.walkBlock frame rest

/-- Walks the body of a class: definitions and assignments make members, other
statements are walked as usual. -/
def collectMembers (engine : Engine) (owner : ClassId) : List Statement → Analysis Unit
  | [] => return
  | statement :: rest => do
    match statement with
    | .function definition => engine.collectMethod owner definition
    | .classDefinition definition =>
      let nested ← engine.declareClass definition
      Analysis.modifyStore fun store =>
        (store.addMember owner definition.name.name (.type (.cls nested)) true).2
    | .assign targets value _ =>
      let assigned ← engine.checkedValue value
      collectTargets owner assigned targets
    | .annotated target hint value _ =>
      let assigned ← engine.annotatedValue hint value
      collectAttribute owner assigned target
    | other => engine.walkStatement (.ofClass owner) other
    engine.collectMembers owner rest

/-- The class that a definition in the current scope declares, once for its node. -/
def declareClass (engine : Engine) : ClassDefinition → Analysis ClassId
  | ⟨node, name, bases, body, decorators, span⟩ => do
    match (← get).symbols.class? node with
    | some declared => return declared
    | none =>
      let id ← createClass ⟨node, name, bases, body, decorators, span⟩
      engine.giveBases id bases
      let value : Value := .type (.cls id)
      Analysis.declare name.name value .local (some node) name.span
      Analysis.inScope node .classBody none fun _ => do
        Analysis.declare classCell value .local (some node) span
        engine.collectMembers id body
      return id

end

end TypeInference.Engine
