/-!
# Spans

Places in a text are counted in UTF-8 bytes. A span is a stretch of a text: where it starts, and
how long it is.
-/

namespace Calculator

/-- A stretch of a text, in bytes. -/
structure Span where
  offset : Nat
  length : Nat
deriving DecidableEq

end Calculator
