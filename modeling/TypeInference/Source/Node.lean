/-!
# Nodes and documents

A node identity names a piece of syntax that opens a scope: a module, a class, a
function or a comprehension. It is what scopes, functions and classes are keyed
by. A document identity names what diagnostics are attached to.
-/

namespace TypeInference

/-- Identity of a node that opens a scope. -/
structure NodeId where
  number : Nat
deriving DecidableEq, Inhabited

namespace NodeId

/-- The identity kept for the module itself. -/
def module : NodeId := ⟨0⟩

/-- The number after a hash sign. -/
def text (node : NodeId) : String :=
  "#" ++ toString node.number

end NodeId

/-- Identity of a document, in general its location. -/
structure DocumentId where
  location : String
deriving DecidableEq, Inhabited

namespace DocumentId

/-- The document of a module that has no location. -/
def unnamed : DocumentId := ⟨"<module>"⟩

/-- The location, marked as the identity of a document. -/
def debugText (document : DocumentId) : String :=
  "DocumentId(" ++ document.location ++ ")"

end DocumentId

end TypeInference
