import Befunge.Vec

/-! Faults: why program text is refused, why a request to the machine is refused,
and why a program stops early. A fault may say at which place and under which
instruction it arose, and may carry a message of its own. -/

namespace Befunge

inductive FaultKind where
  | fileNotFound
  | outOfBounds
  | notRectangular
  | emptySource
  | wrongLoadMode
  | gridNotDefined
  | gridComplete
  | dimensionMismatch
  | noSecondStack
  | invalidInstruction
  | invalidNumber
  | inputPastEnd
  | interrupted
  | outOfMemory
  | internal
  deriving DecidableEq

namespace FaultKind

def number : FaultKind → Nat
  | fileNotFound => 1
  | outOfBounds => 2
  | notRectangular => 3
  | emptySource => 4
  | wrongLoadMode => 5
  | gridNotDefined => 6
  | gridComplete => 7
  | dimensionMismatch => 10
  | noSecondStack => 11
  | invalidInstruction => 12
  | invalidNumber => 13
  | inputPastEnd => 14
  | interrupted => 15
  | outOfMemory => 16
  | internal => 51

def text : FaultKind → String
  | fileNotFound => "The code file is not found"
  | outOfBounds => "The code width or height is out of 25×80 bounds"
  | notRectangular => "The code is not rectangular"
  | emptySource => "The code source contains an empty row"
  | wrongLoadMode => "The load mode is wrong, should be 'f' for files or 's' for string list"
  | gridNotDefined => "The interactive grid is empty"
  | gridComplete => "The complete interactive grid cannot be altered"
  | dimensionMismatch =>
    "The storage offset given to 'begin block' does not match the space dimension"
  | noSecondStack => "There is no second stack on the stack stack"
  | invalidInstruction => "Invalid instruction"
  | invalidNumber => "Invalid number"
  | inputPastEnd => "Input past end"
  | interrupted => "Interrupted"
  | outOfMemory => "Out of memory"
  | internal => "Internal error"

def isLoading (kind : FaultKind) : Bool :=
  decide (kind.number < 10)

/-- Whether the fault turns the cursor around instead of stopping the program. -/
def reflects : FaultKind → Bool
  | noSecondStack | outOfMemory => true
  | _ => false

end FaultKind

structure Fault where
  kind : FaultKind
  location : Option Vec := none
  command : Option Char := none
  message : String := ""
  deriving DecidableEq

namespace Fault

/-- Names the instruction and its place, unless the fault names a place already. -/
def locate (fault : Fault) (location : Vec) (command : Char) : Fault :=
  match fault.location with
  | some _ => fault
  | none => { fault with location := some location, command := some command }

/-- Places are told to people by row and column, both counted from one. -/
def place (location : Vec) : String :=
  let column := (location.x + 1).text ++ " column"
  if location.dimension = 1 then " at " ++ column
  else " at " ++ (location.y + 1).text ++ " row, " ++ column

def text (fault : Fault) : String :=
  fault.kind.text ++
    (match fault.command with
      | some command => " [ " ++ String.singleton command ++ " ]"
      | none => "") ++
    (match fault.location with
      | some location => place location
      | none => "") ++
    (if fault.message.isEmpty then "" else "; " ++ fault.message)

def debugText (fault : Fault) : String :=
  "Error \x7b " ++ fault.text ++ " \x7d"

end Fault

end Befunge
