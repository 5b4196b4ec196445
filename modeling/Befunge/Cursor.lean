import Befunge.Heading
import Befunge.Space.Motion

/-! The cursor that walks over program space and reads instructions: where it stands,
how it moves on, whether it reads text, and where the storage of the current block
begins. -/

namespace Befunge

structure Cursor where
  position : Vec
  delta : Vec
  stringMode : Bool
  storageOffset : Vec
  deriving DecidableEq

namespace Cursor

def initial (dimension : Nat) : Cursor where
  position := Vec.zero dimension
  delta := Heading.east.delta dimension
  stringMode := false
  storageOffset := Vec.zero dimension

def head (cursor : Cursor) (heading : Heading) : Cursor :=
  { cursor with delta := heading.delta cursor.position.dimension }

def toggleStringMode (cursor : Cursor) : Cursor :=
  { cursor with stringMode := !cursor.stringMode }

def reflect (cursor : Cursor) : Cursor :=
  { cursor with delta := -cursor.delta }

def turnLeft (cursor : Cursor) : Cursor :=
  { cursor with delta := cursor.delta.turnLeft }

def turnRight (cursor : Cursor) : Cursor :=
  { cursor with delta := cursor.delta.turnRight }

def next (cursor : Cursor) (space : Space) : Vec :=
  space.step cursor.position cursor.delta

def advance (cursor : Cursor) (space : Space) : Cursor :=
  { cursor with position := cursor.next space }

/-- Makes so many moves at once. A negative count makes them backward. -/
def jump (cursor : Cursor) (count : Value) (space : Space) : Cursor :=
  let stride := if count < 0 then -cursor.delta else cursor.delta
  { cursor with position := space.walk stride count.magnitude cursor.position }

/-- Walks on until a byte comes up, for so many moves at most. -/
def seek (cursor : Cursor) (byte : UInt8) (space : Space) : Nat → Cursor
  | 0 => cursor
  | moves + 1 =>
    let cursor := cursor.advance space
    if space.get cursor.position = byte then cursor else cursor.seek byte space moves

end Cursor

end Befunge
