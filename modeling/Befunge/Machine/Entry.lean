import Befunge.Machine.Cycle
import Befunge.Text.Blank

/-! What is entered into a machine from outside: the answers to its requests, and the
wish that it stop. An entry that the machine did not ask for changes nothing. -/

namespace Befunge.Machine

/-- Pushes what was asked for. One move leads on from the instruction that asked. -/
def resume (machine : Machine) (value : Value) : Machine :=
  { machine.push value with status := .running, moves := 1 }

def enterNumber (machine : Machine) (number : Value) : Machine :=
  if machine.status = .awaiting .number then machine.resume number else machine

def enterChar (machine : Machine) (c : Char) : Machine :=
  if machine.status = .awaiting .char then machine.resume (Int64.ofNat c.toNat) else machine

/-- Adds a row to the grid. A row that does not fit stops the machine. -/
def enterRow (machine : Machine) (row : String) : Machine :=
  match machine.space.addRow row with
  | .ok space => { machine with space, rowReady := !row.isEmpty, status := .running }
  | .error fault => { machine with status := .halted, faults := machine.faults ++ [fault] }

/-- Reads a line typed for a number. White space around the numeral is ignored. -/
def readNumber (line : String) : Except Fault Value :=
  let text := Text.trim line
  match Value.ofText? text with
  | some number => .ok number
  | none => .error { kind := .invalidNumber, message := text }

/-- Answers a request with a line. What is no number, and an empty line where a
character is asked for, leave the request as it is. -/
def enter (machine : Machine) (line : String) : Machine :=
  match machine.status with
  | .awaiting .number =>
    match readNumber line with
    | .ok number => machine.enterNumber number
    | .error fault => { machine with faults := machine.faults ++ [fault] }
  | .awaiting .char =>
    match line.toList with
    | [] => machine
    | c :: _ => machine.enterChar c
  | .awaiting .row => machine.enterRow line
  | .running | .halted => machine

/-- Stops the machine with a fault that says where it stood. -/
def interrupt (machine : Machine) : Machine :=
  if machine.status = .halted then machine
  else
    { machine with
      status := .halted
      faults := machine.faults ++
        [{ kind := .interrupted, location := some machine.cursor.position }] }

/-- Everything that can be asked of a machine from outside. -/
inductive Call where
  | execute (budget : Nat)
  | enter (line : String)
  | enterNumber (number : Value)
  | enterChar (c : Char)
  | interrupt
  deriving DecidableEq

/-- Only running has an event to give back. -/
def call (machine : Machine) : Call → Option Event × Machine
  | .execute budget =>
    let (event, machine) := machine.execute budget
    (some event, machine)
  | .enter line => (none, machine.enter line)
  | .enterNumber number => (none, machine.enterNumber number)
  | .enterChar c => (none, machine.enterChar c)
  | .interrupt => (none, machine.interrupt)

/-- Runs with the same budget again and again, so many times at most, until the
machine has stopped or asks for something. -/
def drive (machine : Machine) (budget : Nat) : Nat → List Event × Machine
  | 0 => ([], machine)
  | times + 1 =>
    match machine.execute budget with
    | (.stopped, machine) => ([.stopped], machine)
    | (.input request, machine) => ([.input request], machine)
    | (event, machine) =>
      let (events, machine) := machine.drive budget times
      (event :: events, machine)

end Befunge.Machine
