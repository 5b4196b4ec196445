import Std.Data.ExtTreeMap
import Befunge.Dialect
import Befunge.Extent

/-! Program space: a byte in every cell of the line or the plane. A cell to which
nothing was written reads as a space, and spaces are not stored. A torus keeps its
extent. A growing space extends it to every cell that is written. -/

namespace Befunge

structure Space where
  dialect : Dialect
  cells : Std.ExtTreeMap Vec UInt8
  extent : Extent
  /-- Whether no more rows are to come. -/
  complete : Bool

namespace Space

def blank : UInt8 := 0x20

def interactive (dialect : Dialect) : Space :=
  { dialect, cells := ∅, extent := Extent.empty dialect.dimension, complete := false }

def dimension (space : Space) : Nat :=
  space.extent.dimension

def width (space : Space) : Nat :=
  space.extent.size 0

/-- How many rows the extent has. A line has a single one, if it has any cell. -/
def height (space : Space) : Nat :=
  if space.dimension < 2 then min (space.extent.size 0) 1 else space.extent.size 1

def isEmpty (space : Space) : Bool :=
  space.extent.isEmpty

def contains (space : Space) (place : Vec) : Bool :=
  space.extent.contains place

/-- The byte at a place, wherever it lies. -/
def peek (space : Space) (place : Vec) : UInt8 :=
  space.cells.getD place blank

/-- The byte at a place. A place outside the extent is brought back inside first. -/
def get (space : Space) (place : Vec) : UInt8 :=
  if space.contains place then space.peek place else space.peek (space.extent.wrap place)

def setCell (space : Space) (place : Vec) (byte : UInt8) : Space :=
  let cells := if byte = blank then space.cells.erase place else space.cells.insert place byte
  { space with cells }

/-- Writes the low byte of a value. Outside its extent a torus is not written: the
digit zero goes to its least corner instead. A growing space is extended. -/
def put (space : Space) (place : Vec) (value : Value) : Space :=
  if space.contains place then space.setCell place value.lowByte
  else if space.dialect.isTorus then space.setCell space.extent.least 0x30
  else if place.dimension = space.dimension then
    { space with extent := space.extent.cover place }.setCell place value.lowByte
  else space

end Space

end Befunge
