import TypeInference.OrderedTable
import TypeInference.Types.Ty

/-!
# Finished and unfinished specializations

A template keeps its finished specializations by their resolved signature, at
most one for each. While one is being made, a placeholder for it stands on a
stack, so that a request for the same one gives the placeholder and does not
start again.
-/

namespace TypeInference

/-- The identities of the types bound to the parameters, in order. -/
structure ResolvedSignature where
  hashes : List TypeHash

instance : DecidableEq ResolvedSignature := fun first second =>
  decidable_of_iff (first.hashes = second.hashes)
    ⟨fun same => by cases first; cases second; exact congrArg ResolvedSignature.mk same,
      congrArg ResolvedSignature.hashes⟩

/-- The finished specializations of a template. -/
abbrev SpecializationCache := OrderedTable ResolvedSignature ClassId

namespace SpecializationCache

/-- Stores a finished specialization, unless there is one. -/
def store (cache : SpecializationCache) (signature : ResolvedSignature) (specialized : ClassId) :
    SpecializationCache :=
  cache.putNew signature specialized

/-- The specialization of a signature after storing one for it. -/
def stored (cache : SpecializationCache) (signature : ResolvedSignature) (specialized : ClassId) :
    ClassId :=
  (cache.find? signature).getD specialized

end SpecializationCache

/-- A specialization that is being made. -/
structure Unfinished where
  template : TypeHash
  signature : ResolvedSignature
  placeholder : ClassId

/-- The specializations that are being made, the last begun first. -/
structure UnfinishedStack where
  entries : List Unfinished := []

namespace UnfinishedStack

instance : Inhabited UnfinishedStack := ⟨⟨[]⟩⟩

/-- The placeholder for a signature of a template. -/
def find? (stack : UnfinishedStack) (template : TypeHash) (signature : ResolvedSignature) :
    Option ClassId :=
  (stack.entries.find? fun entry =>
    entry.template = template && entry.signature = signature).map (·.placeholder)

/-- Begins a specialization, unless it has begun. Tells whether it was begun. -/
def push (stack : UnfinishedStack) (template : TypeHash) (signature : ResolvedSignature)
    (placeholder : ClassId) : Bool × UnfinishedStack :=
  match stack.find? template signature with
  | some _ => (false, stack)
  | none => (true, ⟨⟨template, signature, placeholder⟩ :: stack.entries⟩)

/-- Ends the specialization begun last, whose placeholder it gives. -/
def pop (stack : UnfinishedStack) : Option ClassId × UnfinishedStack :=
  match stack.entries with
  | [] => (none, stack)
  | last :: rest => (some last.placeholder, ⟨rest⟩)

/-- How many specializations are being made. -/
def depth (stack : UnfinishedStack) : Nat :=
  stack.entries.length

end UnfinishedStack

end TypeInference
