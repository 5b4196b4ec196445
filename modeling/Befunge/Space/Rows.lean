import Befunge.Fault
import Befunge.Source
import Befunge.Space.Basic
import Befunge.Text.Bytes

/-! Rows of program text in program space. On a plane each row of text is a row of
cells. On a line the rows follow one another. A space is loaded from accepted text
at once, or takes rows one at a time until it is complete. -/

namespace Befunge.Space

/-- Writes bytes to neighbouring cells, where a place is given for each index. -/
def setCells (space : Space) (place : Nat → Vec) (bytes : List UInt8) : Space :=
  bytes.zipIdx.foldl (fun space (byte, index) => space.setCell (place index) byte) space

def addToLine (space : Space) (bytes : List UInt8) : Space :=
  let start := space.extent.greatest.x + 1
  let space := space.setCells (fun index => ⟨[start + Int64.ofNat index]⟩) bytes
  { space with extent := space.extent.setHigh 0 (start + Int64.ofNat bytes.length - 1) }

/-- Puts a row on row `y` of a plane, from the first column on. -/
def addToPlane (space : Space) (y : Value) (bytes : List UInt8) : Space :=
  let space := space.setCells (fun index => ⟨[Int64.ofNat index, y]⟩) bytes
  let corner := space.extent.greatest
  let last := Int64.ofNat bytes.length - 1
  let x := if corner.x < last then last else corner.x
  let y := if corner.y < y then y else corner.y
  { space with extent := (space.extent.setHigh 0 x).setHigh 1 y }

def writeRow (space : Space) (y : Value) (row : String) : Space :=
  if space.dimension = 1 then space.addToLine (Text.bytes row)
  else space.addToPlane y (Text.bytes row)

/-- The complete space of accepted program text. -/
def load (source : Source) : Space :=
  let space := interactive source.dialect
  let filled :=
    if space.dimension = 1 then space.writeRow 0 (String.join source.rows)
    else source.rows.zipIdx.foldl
      (fun space (row, y) => space.writeRow (Int64.ofNat y) row) space
  { filled with complete := true }

def finish (space : Space) : Except Fault Space :=
  if space.complete then .error { kind := .gridComplete }
  else if space.isEmpty then .error { kind := .gridNotDefined }
  else .ok { space with complete := true }

/-- What a torus finds wrong with a further row, if anything. -/
def rowFault? (space : Space) (row : String) : Option Fault :=
  let width := Source.rowWidth row
  if !space.isEmpty && width != space.width then
    some {
      kind := .notRectangular
      message := Source.rowNumber space.height ++ " is " ++ toString width ++ " wide, expected " ++
        toString space.width }
  else if Dialect.torusHeight < space.height + 1 ∨ Dialect.torusWidth < width then
    some { kind := .outOfBounds }
  else none

/-- Adds a row below all others. An empty row ends the adding. -/
def addRow (space : Space) (row : String) : Except Fault Space :=
  if space.complete then .error { kind := .gridComplete }
  else if row.isEmpty then space.finish
  else
    match if space.dialect.isTorus then space.rowFault? row else none with
    | some fault => .error fault
    | none => .ok (space.writeRow (if space.isEmpty then 0 else space.extent.greatest.y + 1) row)

/-- The text of row `y` across the whole extent. -/
def row (space : Space) (y : Value) : String :=
  let first := space.extent.least.x
  let count := (space.extent.greatest.x.toInt - first.toInt + 1).toNat
  Text.ofBytes <| (List.range count).map fun index =>
    let x := first + Int64.ofNat index
    space.peek (if space.dimension = 1 then ⟨[x]⟩ else ⟨[x, y]⟩)

def rows (space : Space) : List String :=
  if space.dimension = 1 then [space.row 0]
  else
    let first := space.extent.least.y
    let count := (space.extent.greatest.y.toInt - first.toInt + 1).toNat
    (List.range count).map fun index => space.row (first + Int64.ofNat index)

end Befunge.Space
