import TypeInference.Registry.Basic
import TypeInference.Store.Inheritance

/-!
# The standard registry

The builtin classes with their methods, the names of the typing module, and the
builtin functions whose return values are known. The builtin classes are created
first, in order of declaration. Bases are given in the same order, so a class
that is given its base before that base has one does not see further.
-/

namespace TypeInference.Registry

/-- The element parameter of collections. -/
def elementParameter : TypeParameter := .named "_T"

/-- The key parameter of mappings. -/
def keyParameter : TypeParameter := .named "_KT"

/-- The value parameter of mappings. -/
def valueParameter : TypeParameter := .named "_VT"

/-- The parameter of the class of types. -/
def typeParameter : TypeParameter := .named "_TT"

/-- The type parameters of a builtin class. -/
def parametersOf : Builtin → List TypeParameter
  | .list | .tuple | .set | .iterator | .generator => [elementParameter]
  | .dict => [keyParameter, valueParameter]
  | _ => []

/-- The record of a builtin class before it has a base. -/
def builtinRecord (builtin : Builtin) : ClassRecord :=
  let record := ClassRecord.ofBuiltin builtin
  { record with
    flags := { record.flags with metaclass := builtin = .type }
    parameters := .identity (parametersOf builtin) }

/-- The base of a builtin class. -/
def baseOf : Builtin → Option Builtin
  | .object => none
  | .bool => some .int
  | _ => some .object

/-- All builtin classes with their bases. -/
def builtinClasses : Store :=
  let created := Builtin.all.foldl (fun store builtin =>
    (store.addClass (builtinRecord builtin)).2) Store.empty
  Builtin.all.foldl (fun store builtin =>
    match baseOf builtin with
    | some base => store.setBases (Store.builtinClass builtin) [Store.builtinType base]
    | none => store) created

/-- Parameters of which only the names are known. -/
def formals (names : List String) : List FormalParameter :=
  names.map fun name => { name }

/-- A registered function with one known signature. -/
def knownFunction (name qualifiedName : String) (parameters : List String) (returns : Value) :
    FunctionRecord :=
  ((FunctionRecord.named name qualifiedName).insertFlags { builtin := true }).addOverload
    (({ name } : Overload).withSignature (formals parameters) returns)

/-- A method with a known signature. -/
structure KnownMethod where
  owner : Builtin
  name : String
  parameters : List String
  returns : Value

/-- An object of a type parameter. -/
def parameterObject (parameter : TypeParameter) : Value :=
  .ofTy (.parameter parameter)

/-- An object of a builtin class of which nothing is known. -/
def plainObject (builtin : Builtin) : Value :=
  .object (Store.builtinType builtin) .plain

/-- The methods of the builtin classes. -/
def methods : List KnownMethod :=
  [⟨.list, "__getitem__", ["self", "index"], parameterObject elementParameter⟩,
   ⟨.list, "pop", ["self"], parameterObject elementParameter⟩,
   ⟨.list, "append", ["self", "item"], Store.noneObject⟩,
   ⟨.tuple, "__getitem__", ["self", "index"], parameterObject elementParameter⟩,
   ⟨.dict, "__getitem__", ["self", "key"], parameterObject valueParameter⟩,
   ⟨.dict, "get", ["self", "key"], parameterObject valueParameter⟩,
   ⟨.iterator, "__next__", ["self"], parameterObject elementParameter⟩,
   ⟨.str, "__getitem__", ["self", "index"], plainObject .str⟩,
   ⟨.str, "upper", ["self"], plainObject .str⟩,
   ⟨.str, "lower", ["self"], plainObject .str⟩,
   ⟨.str, "strip", ["self"], plainObject .str⟩,
   ⟨.str, "join", ["self", "iterable"], plainObject .str⟩]

/-- Adds a method to its class. -/
def addMethod (store : Store) (method : KnownMethod) : Store :=
  let owner := Store.builtinClass method.owner
  let qualifiedName := (store.classAt owner).qualifiedName ++ "." ++ method.name
  let record := (knownFunction method.name qualifiedName method.parameters method.returns).inClass
    owner
  let (function, store) := store.addFunction record
  (store.addMember owner method.name (.type (.function function)) true).2

/-- The builtin classes that have a name, and the names given to them for typing. -/
def classNames : List (String × Builtin) :=
  [("object", .object), ("type", .type), ("bool", .bool), ("int", .int), ("float", .float),
   ("complex", .complex), ("str", .str), ("bytes", .bytes), ("list", .list), ("tuple", .tuple),
   ("set", .set), ("dict", .dict), ("List", .list), ("Tuple", .tuple), ("Set", .set),
   ("Dict", .dict), ("Iterator", .iterator), ("Iterable", .iterator), ("Generator", .generator)]

/-- A class that exists for typing alone. -/
structure TypingClass where
  name : String
  builtin : Option Builtin
  parameters : List TypeParameter
  typeOfType : Bool := false

/-- The classes that exist for typing alone. -/
def typingClasses : List TypingClass :=
  [{ name := "Mapping", builtin := some .dict, parameters := [keyParameter, valueParameter] },
   { name := "Sequence", builtin := some .list, parameters := [elementParameter] },
   { name := "Type", builtin := none, parameters := [typeParameter], typeOfType := true },
   { name := "Generic", builtin := none, parameters := [] }]

/-- A function with a known return value. -/
structure KnownFunction where
  name : String
  qualifiedName : String
  parameters : List String
  returns : Value

/-- The decorators, which are known by name alone. -/
def decorators : List String :=
  ["staticmethod", "classmethod", "property", "abstractmethod", "abstractstaticmethod",
   "abstractclassmethod", "abstractproperty", "overload"]

/-- The registered functions. -/
def functions : List KnownFunction :=
  [⟨"TypeVar", "typing.TypeVar", ["name"], .unknown⟩,
   ⟨"print", "builtins.print", ["value"], Store.noneObject⟩,
   ⟨"len", "builtins.len", ["obj"], plainObject .int⟩,
   ⟨"isinstance", "builtins.isinstance", ["obj", "class_or_tuple"], plainObject .bool⟩,
   ⟨"repr", "builtins.repr", ["obj"], plainObject .str⟩,
   ⟨"range", "builtins.range", ["stop"],
     .object (Store.builtinType .iterator) (.iterator (plainObject .int))⟩]
    ++ decorators.map fun name => ⟨name, "builtins." ++ name, ["function"], .unknown⟩

/-- A store together with the names registered for its objects. -/
structure World where
  store : Store
  registry : Registry

namespace World

/-- Gives a name a value. -/
def name (world : World) (name : String) (value : Value) : World :=
  { world with registry := ⟨world.registry.names.put name value⟩ }

/-- Creates and names a class for typing. -/
def addTypingClass (world : World) (typing : TypingClass) : World :=
  let record := ClassRecord.named typing.name ("typing." ++ typing.name) typing.builtin
  let (id, store) := world.store.addClass
    { record with
      flags := { builtin := true, typeOfType := typing.typeOfType }
      parameters := .identity typing.parameters }
  { world with store := store.setBases id [Store.builtinType .object] }.name typing.name
    (.type (.cls id))

/-- Creates and names a function. -/
def addFunction (world : World) (known : KnownFunction) : World :=
  let (id, store) := world.store.addFunction
    (knownFunction known.name known.qualifiedName known.parameters known.returns)
  { world with store }.name known.name (.type (.function id))

end World

/-- The store and the registry before anything is analyzed. -/
def standard : World :=
  let store := methods.foldl addMethod builtinClasses
  let named := classNames.foldl (fun world entry =>
    world.name entry.1 (.type (Store.builtinType entry.2))) ⟨store, {}⟩
  let typed := (typingClasses.foldl World.addTypingClass named).name "Any" .unknown
  functions.foldl World.addFunction typed

end TypeInference.Registry
