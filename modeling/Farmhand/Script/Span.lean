/-!
# Source Spans

Where a piece of a script stands: from the position of its first character to the position after
its last one, lines and columns counted from 1. A span on line 0 stands nowhere; it is the span of
what was never read from a source.

## Main definitions

* `Place`: A line and a column.
* `Span`: Two places.
* `Span.through`: The span from the start of one to the end of another.
-/

namespace Farmhand

namespace Script

/-- A line and a column, both counted from 1. -/
structure Place where
  line : Nat
  column : Nat
deriving DecidableEq, Inhabited

/-- A stretch of source text: its first place, and the place after its last character. -/
structure Span where
  start : Place
  stop : Place
deriving DecidableEq, Inhabited

namespace Span

/-- The span that stands nowhere. -/
def nowhere : Span :=
  ⟨⟨0, 0⟩, ⟨0, 0⟩⟩

/-- A span within one line. -/
def inLine (line first last : Nat) : Span :=
  ⟨⟨line, first⟩, ⟨line, last⟩⟩

/-- The line on which a span starts. -/
def line (s : Span) : Nat :=
  s.start.line

/-- The span from the start of the first to the end of the second. A span that stands nowhere adds
    nothing. -/
def through (first second : Span) : Span :=
  if first.line = 0 then second
  else if second.line = 0 then first
  else ⟨first.start, second.stop⟩

/-- A span as diagnostics show it. -/
def render (s : Span) : String :=
  s!"[{s.start.line}:{s.start.column} - {s.stop.line}:{s.stop.column}]"

end Span

end Script

end Farmhand
