import Befunge.Instruction
import Befunge.Machine.Basic

/-! How a machine carries out a single instruction. What is to happen to the course of
the program is said by an outcome, which the cycle then applies. -/

namespace Befunge

/-- What an instruction asks of the machine that has carried it out. -/
inductive Outcome where
  /-- So many moves before the next instruction. -/
  | advance (moves : Nat)
  /-- A turn back, and one move. -/
  | reflect
  | emit (output : Output)
  | await (request : Request)
  | halt
  | fail (fault : Fault)
  deriving DecidableEq

namespace Machine

/-- Pops two operands, the left one first. -/
def arithmetic (machine : Machine) (operation : Arithmetic) : Machine :=
  let (left, machine) := machine.pop
  let (right, machine) := machine.pop
  machine.push (operation.apply left right)

/-- Pops two operands, the right one first. -/
def greater (machine : Machine) : Machine :=
  let (right, machine) := machine.pop
  let (left, machine) := machine.pop
  machine.push (left.greater right)

def steer (machine : Machine) (turn : Cursor → Cursor) : Machine :=
  { machine with cursor := turn machine.cursor }

def branch (machine : Machine) (onZero otherwise : Heading) : Machine :=
  let (value, machine) := machine.pop
  machine.steer (·.head (if value = 0 then onZero else otherwise))

/-- Pops two values, turns left when the lower one is less, and right when it is
greater. -/
def compare (machine : Machine) : Machine :=
  let (right, machine) := machine.pop
  let (left, machine) := machine.pop
  if left < right then machine.steer Cursor.turnLeft
  else if right < left then machine.steer Cursor.turnRight
  else machine

def randomHeading (machine : Machine) : Machine :=
  let (choice, dice) := machine.dice.throw (2 * machine.pile.dimension)
  { machine with dice }.steer (·.head (Heading.all.getD choice .east))

def fetch (machine : Machine) : Machine :=
  machine.push (Value.ofByte (machine.space.get (machine.cursor.next machine.space)))

def store (machine : Machine) : Machine :=
  let place := machine.cursor.next machine.space
  let (value, machine) := machine.pop
  { machine with space := machine.space.put place value }

/-- The torus counts cells from one, and takes a row, a column and a value from the
stack. A growing space counts from zero at the storage offset, and takes a vector
and a value. -/
def put (machine : Machine) : Machine :=
  if machine.dialect.isTorus then
    let (y, machine) := machine.pop
    let (x, machine) := machine.pop
    let (value, machine) := machine.pop
    { machine with space := machine.space.put ⟨[x - 1, y - 1]⟩ value }
  else
    let (v, machine) := machine.popVec
    let place := v + machine.cursor.storageOffset
    let (value, machine) := machine.pop
    { machine with space := machine.space.put place value }

/-- Reading counts cells from zero in every dialect. Outside a torus there is a zero. -/
def get (machine : Machine) : Machine :=
  if machine.dialect.isTorus then
    let (y, machine) := machine.pop
    let (x, machine) := machine.pop
    let place : Vec := ⟨[x, y]⟩
    machine.push
      (if machine.space.contains place then Value.ofByte (machine.space.peek place) else 0)
  else
    let (v, machine) := machine.popVec
    machine.push (Value.ofByte (machine.space.peek (v + machine.cursor.storageOffset)))

def refused (fault : Fault) : Outcome :=
  if fault.kind.reflects then .reflect else .fail fault

/-- The storage of a new block begins at the next cell. -/
def beginBlock (machine : Machine) : Outcome × Machine :=
  match machine.pile.beginBlock machine.cursor.storageOffset with
  | (.ok _, pile) =>
    let offset := machine.cursor.position + machine.cursor.delta
    (.advance 1, { machine with
      pile, cursor := { machine.cursor with storageOffset := offset } })
  | (.error fault, pile) => (refused fault, { machine with pile })

def endBlock (machine : Machine) : Outcome × Machine :=
  match machine.pile.endBlock with
  | (.ok offset, pile) =>
    (.advance 1, { machine with
      pile, cursor := { machine.cursor with storageOffset := offset } })
  | (.error fault, pile) => (refused fault, { machine with pile })

def underStack (machine : Machine) : Outcome × Machine :=
  match machine.pile.underStack with
  | (.ok _, pile) => (.advance 1, { machine with pile })
  | (.error fault, pile) => (refused fault, { machine with pile })

def jumpForward (machine : Machine) : Machine :=
  let (count, machine) := machine.pop
  { machine with cursor := machine.cursor.jump count machine.space }

/-- The byte whose next cell ends a walk over ignored cells. -/
def fence : UInt8 := 0x3b

def jumpOver (machine : Machine) : Machine :=
  let space := machine.space
  let moves := space.walkBound machine.cursor.position machine.cursor.delta
  { machine with cursor := machine.cursor.seek fence space moves }

def carryOut (machine : Machine) : Instruction → Outcome × Machine
  | .digit number => (.advance 1, machine.push (Int64.ofNat number))
  | .quote => (.advance 1, machine.steer Cursor.toggleStringMode)
  | .fetch => (.advance 2, machine.fetch)
  | .store => (.advance 2, machine.store)
  | .arithmetic operation => (.advance 1, machine.arithmetic operation)
  | .not =>
    let (value, machine) := machine.pop
    (.advance 1, machine.push value.logicalNot)
  | .greater => (.advance 1, machine.greater)
  | .duplicate => (.advance 1, { machine with pile := machine.pile.duplicate })
  | .swap => (.advance 1, { machine with pile := machine.pile.swap })
  | .discard => (.advance 1, { machine with pile := machine.pile.discard })
  | .clear => (.advance 1, { machine with pile := machine.pile.clear })
  | .beginBlock => machine.beginBlock
  | .endBlock => machine.endBlock
  | .underStack => machine.underStack
  | .go heading => (.advance 1, machine.steer (·.head heading))
  | .random => (.advance 1, machine.randomHeading)
  | .ifHorizontal => (.advance 1, machine.branch .east .west)
  | .ifVertical => (.advance 1, machine.branch .south .north)
  | .trampoline => (.advance 2, machine)
  | .reflect => (.reflect, machine)
  | .turnLeft => (.advance 1, machine.steer Cursor.turnLeft)
  | .turnRight => (.advance 1, machine.steer Cursor.turnRight)
  | .compare => (.advance 1, machine.compare)
  | .setDelta =>
    let (delta, machine) := machine.popVec
    (.advance 1, machine.steer fun cursor => { cursor with delta })
  | .jumpForward => (.advance 1, machine.jumpForward)
  | .jumpOver => (.advance 1, machine.jumpOver)
  | .nop => (.advance 1, machine)
  | .put => (.advance 1, machine.put)
  | .get => (.advance 1, machine.get)
  | .printNumber =>
    let (value, machine) := machine.pop
    (.emit (.number value), machine)
  | .printChar =>
    let (value, machine) := machine.pop
    (.emit (.char (Output.charOf value)), machine)
  | .readNumber => (.await .number, machine)
  | .readChar => (.await .char, machine)
  | .halt => (.halt, machine)
  | .quit =>
    let (exitCode, machine) := machine.pop
    (.halt, { machine with exitCode })
  | .unknown =>
    match machine.policy with
    | .halt => (.fail { kind := .invalidInstruction }, machine)
    | .ignore => (.advance 1, machine)

end Machine

end Befunge
