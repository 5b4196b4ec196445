import Befunge.Space.Basic

/-! Motion through program space. On a torus each axis wraps on its own. In a growing
space a move that leaves the extent goes back along the line as far as it can, to
the last cell behind from which the same moves lead here. -/

namespace Befunge.Space

def step (space : Space) (place stride : Vec) : Vec :=
  let next := place + stride
  if space.contains next || space.isEmpty then next
  else if space.dialect.isTorus then space.extent.wrap next
  else
    match space.extent.strides? place stride with
    | some (back, _) => place.along stride (-back)
    | none => space.extent.wrap next

/-- Where so many moves from a place lead. From a place outside the extent a single
move leads inside, and the others are counted along the line from there. -/
def walk (space : Space) (stride : Vec) : Nat → Vec → Vec
  | 0, place => place
  | count + 1, place =>
    if stride.isZero then place
    else if space.isEmpty then place.along stride (count + 1)
    else if space.dialect.isTorus then space.extent.carry place stride (count + 1)
    else
      match space.extent.strides? place stride with
      | some (back, ahead) =>
        place.along stride (((back + count + 1) % (back + ahead + 1) : Nat) - (back : Int))
      | none => space.walk stride count (space.step place stride)

/-- No walk from a place meets more distinct cells than this. -/
def walkBound (space : Space) (place stride : Vec) : Nat :=
  match space.dialect.isTorus, space.extent.strides? place stride with
  | false, some (back, ahead) => min (back + ahead + 1) Extent.countLimit
  | _, _ => space.extent.area

end Befunge.Space
