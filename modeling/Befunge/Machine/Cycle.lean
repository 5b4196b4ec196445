import Befunge.Machine.Instruct

/-! Cycles. A cycle makes one pending move of the cursor, or carries out one
instruction. A machine runs for as many cycles as it is given, unless something
happens that its surroundings have to know. -/

namespace Befunge.Machine

/-- Makes a pending move. While a grid is still being typed in, the cursor moves down
only after a further row was entered for that move, and does not move up at all. -/
def advance (machine : Machine) : Machine :=
  let down := machine.cursor.delta.y
  if !machine.space.complete && (decide (down < 0) || (decide (0 < down) && !machine.rowReady)) then
    { machine with status := .awaiting .row }
  else
    { machine with
      rowReady := false
      cursor := machine.cursor.advance machine.space
      moves := machine.moves - 1 }

/-- Applies the outcome of the instruction that stands for a byte at a position. -/
def settle (machine : Machine) (position : Vec) (byte : UInt8) : Outcome → Option Event × Machine
  | .advance moves => (none, { machine with moves })
  | .reflect => (none, { machine.steer Cursor.reflect with moves := 1 })
  | .emit output => (some (.print output), { machine with moves := 1 })
  | .await request => (none, { machine with status := .awaiting request })
  | .halt => (none, { machine with status := .halted })
  | .fail fault =>
    (some (.faults [fault.locate position (Char.ofUInt8 byte)]),
      { machine with status := .halted })

def quoteMark : UInt8 := 0x22

/-- In string mode each byte is pushed as it stands, up to the one that ends it. -/
def readText (machine : Machine) : Machine :=
  let byte := machine.byte
  let machine :=
    if byte = quoteMark then machine.steer Cursor.toggleStringMode
    else machine.push (Value.ofByte byte)
  { machine with moves := 1 }

def step (machine : Machine) : Option Event × Machine :=
  if machine.cursor.stringMode then (none, machine.readText)
  else
    let byte := machine.byte
    let (outcome, after) := machine.carryOut (Instruction.decode machine.dialect byte)
    after.settle machine.cursor.position byte outcome

/-- A single cycle, and what it has to tell. A trace is told before its instruction,
and the cycle ends there. -/
def cycle (machine : Machine) : Option Event × Machine :=
  match machine.status with
  | .halted => (some .stopped, machine)
  | .awaiting request => (some (.input request), machine)
  | .running =>
    if 0 < machine.moves then (none, machine.advance)
    else
      match machine.tracing with
      | .due => (some (.trace machine.trace), { machine with tracing := .shown })
      | .shown => { machine with tracing := .due }.step
      | .off => machine.step

/-- Runs for so many cycles, or until there is something to tell. -/
def cycles (machine : Machine) : Nat → Event × Machine
  | 0 => (.running, machine)
  | budget + 1 =>
    match machine.cycle with
    | (some event, machine) => (event, machine)
    | (none, machine) => machine.cycles budget

/-- Runs for so many cycles. Faults that were not told yet come first, all at once,
and then no cycle is run. -/
def execute (machine : Machine) (budget : Nat) : Event × Machine :=
  if machine.faults.isEmpty then machine.cycles budget
  else (.faults machine.faults, { machine with faults := [] })

end Befunge.Machine
