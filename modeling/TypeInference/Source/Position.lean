/-!
# Positions and spans

A position counts lines and columns from one and orders positions by reading
order. A span is the half-open stretch from its start to its end, as a parser
reports it. Nothing here forbids an end before its start: such a span is empty
and contains no position. The all-zero span stands for an unknown location.
-/

namespace TypeInference

/-- A line and a column, both counted from one. -/
structure Position where
  line : Nat := 0
  column : Nat := 0
deriving DecidableEq, Inhabited

namespace Position

/-- Reading order: by line, within a line by column. -/
instance : LE Position where
  le first second :=
    first.line < second.line ∨ (first.line = second.line ∧ first.column ≤ second.column)

/-- One position strictly before another in reading order. -/
instance : LT Position where
  lt first second :=
    first.line < second.line ∨ (first.line = second.line ∧ first.column < second.column)

instance (first second : Position) : Decidable (first ≤ second) :=
  inferInstanceAs (Decidable (_ ∨ _))

instance (first second : Position) : Decidable (first < second) :=
  inferInstanceAs (Decidable (_ ∨ _))

/-- The earlier of two positions. -/
def earlier (first second : Position) : Position :=
  if first ≤ second then first else second

/-- The later of two positions. -/
def later (first second : Position) : Position :=
  if first ≤ second then second else first

/-- How two positions are ordered. -/
def order (first second : Position) : Ordering :=
  if first < second then .lt else if first = second then .eq else .gt

/-- Line and column with a colon between them. -/
def text (position : Position) : String :=
  toString position.line ++ ":" ++ toString position.column

end Position

/-- The positions from a start up to, and without, an end. -/
structure Span where
  start : Position := {}
  stop : Position := {}
deriving DecidableEq, Inhabited

namespace Span

/-- The location of what has no place in a document. -/
def unknown : Span := {}

/-- The columns from the first up to, and without, the second, in one line. -/
def onLine (line first second : Nat) : Span :=
  ⟨⟨line, first⟩, ⟨line, second⟩⟩

/-- The empty span at a position. -/
def point (position : Position) : Span :=
  ⟨position, position⟩

/-- Whether the span holds no position. -/
def isEmpty (span : Span) : Bool :=
  decide (span.stop ≤ span.start)

/-- Whether the span ends in a later line than it starts. -/
def isMultiline (span : Span) : Bool :=
  decide (span.start.line < span.stop.line)

/-- Whether a position lies in the half-open span. -/
def contains (span : Span) (position : Position) : Bool :=
  decide (span.start ≤ position) && decide (position < span.stop)

/-- The smallest span around both. -/
def cover (first second : Span) : Span :=
  ⟨first.start.earlier second.start, first.stop.later second.stop⟩

/-- Only the start is shown, in the usual form of a location in a file. -/
def text (span : Span) : String :=
  span.start.text

/-- Both ends, with a dash between them. -/
def rangeText (span : Span) : String :=
  span.start.text ++ "-" ++ span.stop.text

end Span

end TypeInference
