import TypeInference.Syntax.Tree

/-!
# Numbering of nodes

Trees that come without places are numbered while they are built: each node that
opens a scope takes the next identity, each statement the next line. A node of a
statement covers the first column of its line. The module keeps the identity
zero, so that counting starts with one.
-/

namespace TypeInference

/-- The next free identity and the next free line. -/
structure Numbering where
  nextNode : Nat := 1
  nextLine : Nat := 1

namespace Numbering

/-- A tree under construction. -/
abbrev Build := StateM Numbering

/-- The identity of a node that opens a scope. -/
def takeNode : Build NodeId := fun numbering =>
  (⟨numbering.nextNode⟩, { numbering with nextNode := numbering.nextNode + 1 })

/-- The line of a statement. -/
def takeLine : Build Nat := fun numbering =>
  (numbering.nextLine, { numbering with nextLine := numbering.nextLine + 1 })

/-- The span of the nodes in a line. -/
def span (line : Nat) : Span :=
  .onLine line 1 2

/-- The line of an expression that stands in no statement. -/
def outsideLine : Nat := 1

end Numbering

end TypeInference
