import Befunge.Cursor
import Befunge.Dice
import Befunge.Machine.Event
import Befunge.Space.Rows
import Befunge.StackStack.Block

/-! The machine: program space, the stack of stacks and the cursor, together with what
it has yet to do. An instruction leaves moves of the cursor pending, and each move
is a cycle of its own. -/

namespace Befunge

inductive Status where
  | running
  | awaiting (request : Request)
  | halted
  deriving DecidableEq

/-- Whether each instruction is shown before it is carried out, and if so, whether
the next one was shown already. -/
inductive Tracing where
  | off
  | due
  | shown
  deriving DecidableEq

def Tracing.ofBool (wanted : Bool) : Tracing :=
  if wanted then due else off

structure Machine where
  policy : UnknownPolicy
  space : Space
  pile : StackStack
  cursor : Cursor
  status : Status
  /-- How many moves the cursor makes before the next instruction. -/
  moves : Nat := 0
  /-- Whether a row was typed in for the move that is about to be made. -/
  rowReady : Bool := false
  tracing : Tracing := .off
  dice : Dice
  exitCode : Value := 0
  faults : List Fault := []

namespace Machine

def start (space : Space) (status : Status) (dice : Dice) (memory : Memory) : Machine where
  policy := space.dialect.policy
  space
  pile := StackStack.initial space.dialect.dimension memory
  cursor := Cursor.initial space.dialect.dimension
  status
  dice

def ofSource (source : Source) (dice : Dice) (memory : Memory := .ample) : Machine :=
  start (Space.load source) .running dice memory

/-- A machine whose grid is typed in a row at a time. It asks for the first row at
once. -/
def interactive (dialect : Dialect) (dice : Dice) (memory : Memory := .ample) : Machine :=
  start (Space.interactive dialect) (.awaiting .row) dice memory

def dialect (machine : Machine) : Dialect :=
  machine.space.dialect

def push (machine : Machine) (value : Value) : Machine :=
  { machine with pile := machine.pile.push value }

def pop (machine : Machine) : Value × Machine :=
  let (value, pile) := machine.pile.pop
  (value, { machine with pile })

def popVec (machine : Machine) : Vec × Machine :=
  let (v, pile) := machine.pile.popVec
  (v, { machine with pile })

def byte (machine : Machine) : UInt8 :=
  machine.space.get machine.cursor.position

def trace (machine : Machine) : Trace where
  command := Char.ofUInt8 machine.byte
  position := machine.cursor.position
  stringMode := machine.cursor.stringMode
  stack := machine.pile.toss.toList

end Machine

end Befunge
