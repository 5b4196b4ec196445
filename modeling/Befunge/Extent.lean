import Befunge.Span
import Befunge.Vec

/-! The known extent of program space: a box with a span for each axis. Motion wraps
around it, and in a growing space it covers every cell that was ever written. -/

namespace Befunge

structure Extent where
  spans : List Span
  deriving DecidableEq

namespace Extent

def empty (dimension : Nat) : Extent :=
  ⟨List.replicate dimension Span.empty⟩

def dimension (extent : Extent) : Nat :=
  extent.spans.length

def least (extent : Extent) : Vec :=
  ⟨extent.spans.map Span.low⟩

def greatest (extent : Extent) : Vec :=
  ⟨extent.spans.map Span.high⟩

def size (extent : Extent) (axis : Nat) : Nat :=
  (extent.spans[axis]?.map Span.size).getD 0

def isEmpty (extent : Extent) : Bool :=
  extent.spans.any fun span => span.size == 0

/-- Whether a place lies inside. A vector of another dimension is no place here. -/
def contains (extent : Extent) (place : Vec) : Bool :=
  place.dimension == extent.dimension &&
    (extent.spans.zip place.components).all fun (span, c) => span.contains c

/-- Brings a place back inside, each axis on its own. A component to which no axis
belongs stays, so that a vector of another dimension does not become a place. -/
def wrap (extent : Extent) (place : Vec) : Vec :=
  ⟨List.zipWith Span.wrap extent.spans place.components ++
    place.components.drop extent.dimension⟩

/-- Carries a place on by so many strides, each axis round on its own. A component to
which no axis belongs stays. -/
def carry (extent : Extent) (place stride : Vec) (count : Nat) : Vec :=
  let moves := place.components.zip (stride.onAxes place.dimension)
  ⟨List.zipWith (fun span (c, d) => span.carry c d count) extent.spans moves ++
    place.components.drop extent.dimension⟩

/-- The least extent that has a further place too. -/
def cover (extent : Extent) (place : Vec) : Extent :=
  ⟨List.zipWith Span.cover extent.spans place.components⟩

def setHigh (extent : Extent) (axis : Nat) (high : Value) : Extent :=
  ⟨extent.spans.modify axis fun span => { span with high }⟩

/-- The greatest count of anything here; sums and products stop at it. -/
def countLimit : Nat := 0xffffffffffffffff

/-- How many whole strides backward and ahead keep every component inside its span.
An axis along which the stride is zero sets no limit. -/
def stridesAlong : List Span → List Value → List Value → Nat × Nat
  | span :: spans, c :: cs, d :: ds =>
    let rest := stridesAlong spans cs ds
    if d = 0 then rest
    else
      let here := span.strides c d
      (min here.1 rest.1, min here.2 rest.2)
  | _, _, _ => (countLimit, countLimit)

/-- How many whole strides backward and ahead of a place stay inside. There is no
answer for a stride that goes nowhere or a place that lies outside. -/
def strides? (extent : Extent) (place stride : Vec) : Option (Nat × Nat) :=
  if stride.isZero || !extent.contains place then none
  else some (stridesAlong extent.spans place.components stride.components)

def area (extent : Extent) : Nat :=
  extent.spans.foldl (fun area span => min (area * span.size) countLimit) 1

end Extent

end Befunge
