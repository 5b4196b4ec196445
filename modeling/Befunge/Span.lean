import Befunge.Value

/-! The known part of one axis: the values from a least to a greatest one. Its size
is a value too, so an axis that is wider than the greatest value counts as having
no size. -/

namespace Befunge

structure Span where
  low : Value
  high : Value
  deriving DecidableEq

namespace Span

/-- The span of an axis on which nothing is known yet. -/
def empty : Span :=
  ⟨0, -1⟩

/-- How many values the span has; zero when no value says how many. -/
def size (span : Span) : Nat :=
  (span.high - span.low + 1).toInt.toNat

def contains (span : Span) (value : Value) : Bool :=
  decide (span.low ≤ value) && decide (value ≤ span.high)

/-- Brings a value back into a span that has a size. -/
def wrap (span : Span) (value : Value) : Value :=
  if span.size = 0 then value
  else Int64.ofInt ((value - span.low).toInt % span.size) + span.low

/-- Carries a value of the span on by so many strides, round the span as often as
it takes, computed exactly. -/
def carry (span : Span) (value stride : Value) (count : Nat) : Value :=
  let moved := value.toInt - span.low.toInt + (count : Int) % span.size * stride.toInt
  Int64.ofInt (moved % span.size + span.low.toInt)

/-- The least span that has a further value too. -/
def cover (span : Span) (value : Value) : Span :=
  ⟨if value < span.low then value else span.low, if span.high < value then value else span.high⟩

/-- How many whole strides backward and ahead stay inside the span. -/
def strides (span : Span) (value stride : Value) : Nat × Nat :=
  let below := (value.toInt - span.low.toInt).toNat / stride.magnitude
  let above := (span.high.toInt - value.toInt).toNat / stride.magnitude
  if stride < 0 then (above, below) else (below, above)

end Span

end Befunge
