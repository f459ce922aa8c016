/-
# Spans

A span locates a piece of a program: the line and column where it starts and those where it
ends.  The span of all zeros stands for no location.
-/

namespace Pseudocode

/-- A location in the program text, lines and columns counted from one. -/
structure Span where
  startLine : Int := 0
  startCol : Int := 0
  endLine : Int := 0
  endCol : Int := 0
deriving DecidableEq, Repr, Inhabited

namespace Span

/-- The span of no location. -/
def none : Span := {}

/-- The span of a single position. -/
def point (line col : Int) : Span := ⟨line, col, line, col⟩

def isNone (s : Span) : Bool := s == none

/-- The start, and the end where there is one that differs. -/
def toText (s : Span) : String :=
  let start := toString s.startLine ++ ":" ++ toString s.startCol
  if s.endLine = 0 ∨ (s.endLine = s.startLine ∧ s.endCol = s.startCol) then start
  else start ++ "-" ++ toString s.endLine ++ ":" ++ toString s.endCol

end Span

end Pseudocode
