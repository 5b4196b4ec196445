import Befunge.Numeral

/-! Vectors name places of program space, moves between them, and the storage
offset. They have a component for each axis, x first, and their arithmetic wraps
like that of any other value. An axis that a vector lacks reads as zero. -/

namespace Befunge

structure Vec where
  components : List Value
  deriving DecidableEq, Inhabited

namespace Vec

def zero (dimension : Nat) : Vec :=
  ⟨List.replicate dimension 0⟩

/-- One step along an axis; no step at all where the space lacks the axis. -/
def unit (dimension axis : Nat) (negative : Bool) : Vec :=
  ⟨(List.replicate dimension 0).set axis (if negative then -1 else 1)⟩

def dimension (v : Vec) : Nat :=
  v.components.length

def get (v : Vec) (axis : Nat) : Value :=
  v.components.getD axis 0

/-- The components on so many axes, with zeros for the axes that the vector lacks. -/
def onAxes (v : Vec) (axes : Nat) : List Value :=
  v.components.take axes ++ List.replicate (axes - v.dimension) 0

def set (v : Vec) (axis : Nat) (value : Value) : Vec :=
  ⟨v.components.set axis value⟩

def x (v : Vec) : Value :=
  v.get 0

def y (v : Vec) : Value :=
  v.get 1

def isZero (v : Vec) : Bool :=
  v.components.all (· == 0)

/-- The sum is as long as the shorter of the two. -/
instance : Add Vec :=
  ⟨fun v w => ⟨List.zipWith (· + ·) v.components w.components⟩⟩

instance : Sub Vec :=
  ⟨fun v w => ⟨List.zipWith (· - ·) v.components w.components⟩⟩

instance : Neg Vec :=
  ⟨fun v => ⟨v.components.map (- ·)⟩⟩

/-- A quarter turn counter-clockwise as seen on a screen, where y grows downward.
Only the plane has quarter turns. -/
def turnLeft : Vec → Vec
  | ⟨[x, y]⟩ => ⟨[y, -x]⟩
  | v => v

def turnRight : Vec → Vec
  | ⟨[x, y]⟩ => ⟨[-y, x]⟩
  | v => v

/-- The place that lies a number of strides ahead of a start, computed exactly and
cut to values at the end. It has the axes of the start. -/
def along (start stride : Vec) (count : Int) : Vec :=
  ⟨List.zipWith (fun c d => Int64.ofInt (c.toInt + count * d.toInt)) start.components
    (stride.onAxes start.dimension)⟩

def text (v : Vec) : String :=
  "(" ++ String.intercalate ", " (v.components.map Value.text) ++ ")"

/-- Vectors are ordered by their first component in which they differ. -/
instance : Ord Vec :=
  ⟨compareOn Vec.components⟩

instance : Std.TransOrd Vec :=
  inferInstanceAs (Std.TransCmp (compareOn Vec.components))

instance : Std.LawfulEqOrd Vec where
  compare_self := Std.ReflCmp.compare_self
  eq_of_compare {v w} same := by
    cases v
    cases w
    exact congrArg Vec.mk (Std.LawfulEqCmp.eq_of_compare same)

end Vec

end Befunge
