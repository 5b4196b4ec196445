import Befunge.Memory
import Befunge.Numeral

/-! Stacks of values that never run dry: below what a stack holds lie zeros without
end. Values are kept with the top first. They are told to others in the order in
which they were pushed, the bottom first. -/

namespace Befunge

structure Stack where
  values : List Value
  deriving DecidableEq, Inhabited

namespace Stack

def empty : Stack :=
  ⟨[]⟩

/-- The stack onto which the given values were pushed in turn. -/
def ofList (pushed : List Value) : Stack :=
  ⟨pushed.reverse⟩

/-- The values in the order in which they were pushed. -/
def toList (stack : Stack) : List Value :=
  stack.values.reverse

def size (stack : Stack) : Nat :=
  stack.values.length

def isEmpty (stack : Stack) : Bool :=
  stack.values.isEmpty

def last? (stack : Stack) : Option Value :=
  stack.values.head?

def get? (stack : Stack) (index : Nat) : Option Value :=
  stack.toList[index]?

def push (stack : Stack) (value : Value) : Stack :=
  ⟨value :: stack.values⟩

/-- Pushes values in turn, so that the last of them ends on top. -/
def extend (stack : Stack) (pushed : List Value) : Stack :=
  ⟨pushed.reverse ++ stack.values⟩

/-- The top and the stack below it. An empty stack gives a zero. -/
def pop : Stack → Value × Stack
  | ⟨[]⟩ => (0, ⟨[]⟩)
  | ⟨value :: rest⟩ => (value, ⟨rest⟩)

/-- The top two values in the order in which they were pushed. -/
def popTwo (stack : Stack) : (Value × Value) × Stack :=
  let (two, stack) := stack.pop
  let (one, stack) := stack.pop
  ((one, two), stack)

/-- The top values in the order in which they were pushed, with zeros in front when
the stack holds fewer. -/
def popMany (stack : Stack) (count : Nat) : List Value × Stack :=
  (List.replicate (count - stack.size) 0 ++ (stack.values.take count).reverse,
    ⟨stack.values.drop count⟩)

def drop (stack : Stack) (count : Nat) : Stack :=
  ⟨stack.values.drop count⟩

/-- Pushes zeros, if there is memory for them. -/
def pushZeros? (stack : Stack) (count : Nat) (memory : Memory := .ample) : Option Stack :=
  if memory.grants stack.size count then some ⟨List.replicate count 0 ++ stack.values⟩ else none

/-- Moves the top values of one stack onto another and keeps their order, if there is
memory for them there. Gives both stacks as they are afterwards. -/
def moveOnto? (source target : Stack) (count : Nat) (memory : Memory := .ample) : Option (Stack × Stack) :=
  if memory.grants target.size count then
    let (moved, source) := source.popMany count
    some (source, target.extend moved)
  else none

def debugText (stack : Stack) : String :=
  "[" ++ String.intercalate ", " (stack.toList.map Value.text) ++ "]"

end Stack

end Befunge
