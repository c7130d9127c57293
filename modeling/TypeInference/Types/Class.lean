import TypeInference.Source.Node
import TypeInference.Types.Bindings
import TypeInference.Types.Specialization
import TypeInference.Types.Value

/-!
# Classes

The record of a class: its names and identity, its bases with the order in which
members are looked up along them, its members, and its type parameters. A
template keeps its specializations; a specialization names its template.
-/

namespace TypeInference

/-- The members of a class in order of insertion. -/
abbrev MemberTable := OrderedTable String Value

namespace MemberTable

/-- Adds a member. A member that is there is replaced only if that is asked for.
Tells whether the table changed. -/
def insert (table : MemberTable) (name : String) (value : Value) (overwrite : Bool) :
    Bool × MemberTable :=
  if table.contains name && !overwrite then (false, table) else (true, table.put name value)

end MemberTable

/-- What a class is besides its members. -/
structure ClassFlags where
  /-- Given by the registry and not declared in source. -/
  builtin : Bool := false
  /-- Its objects are classes. -/
  metaclass : Bool := false
  /-- Made from a template. -/
  specialized : Bool := false
  /-- Its objects are the type that its parameter is bound to. -/
  typeOfType : Bool := false
deriving DecidableEq, Inhabited

namespace ClassFlags

/-- The flags of either. -/
def union (first second : ClassFlags) : ClassFlags :=
  ⟨first.builtin || second.builtin, first.metaclass || second.metaclass,
    first.specialized || second.specialized, first.typeOfType || second.typeOfType⟩

end ClassFlags

/-- A class. -/
structure ClassRecord where
  name : String
  qualifiedName : String
  hash : TypeHash
  builtin : Option Builtin := none
  flags : ClassFlags := {}
  node : Option NodeId := none
  bases : List Ty := []
  /-- The classes along which members are looked up after the class itself. -/
  resolutionOrder : List ClassId := []
  members : MemberTable := {}
  parameters : Bindings := {}
  template : Option ClassId := none
  specializations : SpecializationCache := {}
  unfinished : UnfinishedStack := {}
deriving Inhabited

namespace ClassRecord

/-- A class whose identity is that of its qualified name. -/
def named (name qualifiedName : String) (builtin : Option Builtin) : ClassRecord :=
  { name, qualifiedName, hash := .ofClass qualifiedName, builtin }

/-- The class of a builtin type. -/
def ofBuiltin (builtin : Builtin) : ClassRecord :=
  { named builtin.name ("builtins." ++ builtin.name) (some builtin) with
    flags := { builtin := true } }

/-- The class as one made from a template. -/
def withTemplate (record : ClassRecord) (template : ClassId) : ClassRecord :=
  { record with
    template := some template, flags := record.flags.union { specialized := true } }

/-- The type parameters that are still open. -/
def openParameters (record : ClassRecord) : List TypeParameter :=
  record.parameters.openParameters

/-- The parameters that a marker among the bases lists. -/
def explicitParameters? (record : ClassRecord) : Option (List TypeParameter) :=
  record.bases.findSome? Ty.asMarker?

/-- The classes among the bases. -/
def baseClasses (record : ClassRecord) : List ClassId :=
  record.bases.filterMap Ty.asClass?

/-- Whether the class was made from a template with type parameters. -/
def hasArguments (record : ClassRecord) : Bool :=
  record.template.isSome && !record.parameters.isEmpty

end ClassRecord

end TypeInference
