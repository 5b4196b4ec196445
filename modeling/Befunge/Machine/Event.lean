import Befunge.Fault
import Befunge.Trace

/-! What a machine tells its surroundings: what it prints, what it asks for, and why
it has stopped working for now. -/

namespace Befunge

/-- What a machine can ask for. -/
inductive Request where
  | number
  /-- A line of which the first character counts. -/
  | char
  /-- The next row of a grid that is typed in. An empty row completes the grid. -/
  | row
  deriving DecidableEq

inductive Output where
  | number (value : Value)
  | char (c : Char)
  deriving DecidableEq

/-- A number is followed by a space, a character by nothing. -/
def Output.text : Output → String
  | number value => value.text ++ " "
  | char c => String.singleton c

/-- The character of a number. Numbers of no character give the replacement
character. -/
def Output.charOf (value : Value) : Char :=
  if 0 ≤ value ∧ value.toInt.toNat.isValidChar then Char.ofNat value.toInt.toNat else '\ufffd'

inductive Event where
  | faults (faults : List Fault)
  | input (request : Request)
  | print (output : Output)
  | trace (trace : Trace)
  /-- The budget of cycles is used up. -/
  | running
  | stopped
  deriving DecidableEq

end Befunge
