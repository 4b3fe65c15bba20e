/-!
# Source positions

A span is the stretch of source text that a node of a program was read from.
-/

namespace LateBinding

/-- A stretch of source text: its two offsets, and the line and column where it begins. -/
structure Span where
  start : Nat
  stop : Nat
  line : Nat
  column : Nat
deriving DecidableEq, Repr

namespace Span

/-- The span of a node that no source text was read for. -/
def synthetic : Span := ⟨0, 0, 0, 0⟩

/-- How far a span reaches; one whose end lies before its start reaches nowhere. -/
def length (s : Span) : Nat :=
  s.stop - s.start

/-- Whether a span reaches nowhere. -/
def isEmpty (s : Span) : Bool :=
  s.length = 0

/-- Where a span begins, as `line:column`. -/
def text (s : Span) : String :=
  toString s.line ++ ":" ++ toString s.column

theorem isEmpty_iff (s : Span) : s.isEmpty = true ↔ s.stop ≤ s.start := by
  simp [isEmpty, length, Nat.sub_eq_zero_iff_le]

end Span

end LateBinding
