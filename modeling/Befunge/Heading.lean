import Befunge.Vec

/-! The headings that cardinal instructions give to the cursor. North is up the
screen, toward smaller y. -/

namespace Befunge

inductive Heading where
  | east
  | west
  | north
  | south
  deriving DecidableEq

namespace Heading

/-- East and west come first, so that the headings of a line are the first two. -/
def all : List Heading :=
  [east, west, north, south]

/-- The move of one cell toward a heading, which is no move where the space lacks
the axis. -/
def delta (dimension : Nat) : Heading → Vec
  | east => Vec.unit dimension 0 false
  | west => Vec.unit dimension 0 true
  | north => Vec.unit dimension 1 true
  | south => Vec.unit dimension 1 false

def name : Heading → String
  | east => "East"
  | west => "West"
  | north => "North"
  | south => "South"

def ofName? (text : String) : Option Heading :=
  all.find? (·.name == text)

end Heading

end Befunge
