import TypeInference.Identity.Digest
import TypeInference.Text.Hexadecimal

/-!
# Identities of types

A type is identified by a hash of its qualified name, so that the same source
gives the same identities again. Classes, functions and type parameters hash
under different seeds: a class and a type parameter of one name stay apart. A
specialized class hashes its template together with its ordered arguments.
-/

namespace TypeInference

/-- The identity of a type. Types with one identity count as equal. -/
structure TypeHash where
  value : UInt64
deriving Inhabited

instance : DecidableEq TypeHash := fun first second =>
  decidable_of_iff (first.value = second.value)
    ⟨fun same => by cases first; cases second; exact congrArg TypeHash.mk same,
      congrArg TypeHash.value⟩

namespace TypeHash

/-- The seeds that keep names of different kinds apart. -/
inductive Namespace where
  | classes
  | functions
  | parameters
  | specializations

/-- The seed of a namespace. -/
def Namespace.seed : Namespace → UInt64
  | .classes => 0x636c617373
  | .functions => 0x66756e63
  | .parameters => 0x74766172
  | .specializations => 0x73706563

/-- Identity of a name in a namespace. -/
def ofNameIn (space : Namespace) (name : String) : TypeHash :=
  ⟨Digest.digest space.seed name.toUTF8.data.toList⟩

/-- No identity yet. -/
def empty : TypeHash := ⟨0⟩

/-- The identity of the unknown type. -/
def unknown : TypeHash := ⟨0xFFFFFFFFFFFFFFFF⟩

/-- Identity of a class from its qualified name. -/
def ofClass (qualifiedName : String) : TypeHash :=
  ofNameIn .classes qualifiedName

/-- Identity of a function from its qualified name. -/
def ofFunction (qualifiedName : String) : TypeHash :=
  ofNameIn .functions qualifiedName

/-- Identity of a type parameter. Only the declared name counts, so two
declarations of one name denote one parameter. -/
def ofParameter (name : String) : TypeHash :=
  ofNameIn .parameters name

/-- Identity of a template applied to arguments; their order counts. -/
def ofSpecialization (template : TypeHash) (arguments : List TypeHash) : TypeHash :=
  ⟨Digest.digest Namespace.specializations.seed
    (Digest.bytesOf template.value ++ Digest.bytesOf (UInt64.ofNat arguments.length)
      ++ arguments.flatMap fun argument => Digest.bytesOf argument.value)⟩

/-- Whether this is the identity of nothing. -/
def isEmpty (hash : TypeHash) : Bool :=
  hash.value == 0

/-- Sixteen hexadecimal digits. -/
def text (hash : TypeHash) : String :=
  Hexadecimal.word hash.value

/-- The digits, marked as the identity of a type. -/
def debugText (hash : TypeHash) : String :=
  "TypeHash(" ++ hash.text ++ ")"

end TypeHash

end TypeInference
