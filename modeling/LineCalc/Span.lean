/-
Spans: the columns of a piece of a line, counted in characters from zero. The end is not part of
the piece.
-/

namespace LineCalc

structure Span where
  start : Nat
  stop : Nat
deriving DecidableEq

namespace Span

/-- The span of a report that has no place in a line. -/
def none : Span := ⟨0, 0⟩

/-- The empty span at a column. -/
def caret (column : Nat) : Span := ⟨column, column⟩

end Span

end LineCalc
