/-!
Places in a source text. A span is a range of UTF-8 bytes together with the line on which it
starts, because problems are reported by line.
-/
namespace PirFrontend

/-- The greatest byte offset a span can hold; offsets beyond it are cut down to it. -/
def maxOffset : Nat := Nat.pow 2 32 - 1

/-- A range of bytes of one source, the end excluded. Lines count from one. -/
structure Span where
  source : Nat
  start : Nat
  stop : Nat
  line : Nat
  deriving DecidableEq, Repr

namespace Span

/-- The span between two offsets, whichever of them comes first. -/
def between (source a b line : Nat) : Span :=
  let a := min a maxOffset
  let b := min b maxOffset
  ⟨source, min a b, max a b, line⟩

/-- Length in bytes. -/
def size (s : Span) : Nat := s.stop - s.start

def isEmpty (s : Span) : Bool := s.start == s.stop

end Span
end PirFrontend
