/-! Spans of time in words: the largest unit of which there is at least one, with an exact decimal
fraction. -/

namespace LocalFleet

structure Span where
  nanoseconds : Nat
  deriving DecidableEq, Repr

namespace Span

def ofMilliseconds (n : Nat) : Span := ⟨1000000 * n⟩

/-- The digits after the point of `value / 10 ^ places`, without trailing zeros. -/
def fraction (places value : Nat) : List Char :=
  let digits := Nat.toDigits 10 value
  let padded := List.replicate (places - digits.length) '0' ++ digits
  (padded.reverse.dropWhile (· = '0')).reverse

def decimal (value places : Nat) (unit : String) : String :=
  let after := fraction places (value % Nat.pow 10 places)
  toString (value / Nat.pow 10 places) ++ (if after = [] then "" else "." ++ String.ofList after) ++ unit

def text (span : Span) : String :=
  let v := span.nanoseconds
  if v ≥ 1000000000 then decimal v 9 "s"
  else if v ≥ 1000000 then decimal v 6 "ms"
  else if v ≥ 1000 then decimal v 3 "µs"
  else decimal v 0 "ns"

end Span

end LocalFleet
