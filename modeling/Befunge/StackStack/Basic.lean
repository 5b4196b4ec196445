import Befunge.Fault
import Befunge.Stack

/-! The stack of stacks. Stacks lie in slots, and a cursor marks the slot of the
active stack, the TOSS. The slot below the cursor holds the second stack, the SOSS.
Opening a block moves the cursor up to a slot that is empty, and leaving a block
empties its slot again, so that slots are used anew. -/

namespace Befunge

structure StackStack where
  dimension : Nat
  slots : Array Stack
  cursor : Nat
  memory : Memory

namespace StackStack

/-- A single empty stack, for a space of the given dimension. -/
def initial (dimension : Nat) (memory : Memory := .ample) : StackStack :=
  { dimension, slots := #[Stack.empty], cursor := 0, memory }

def slot (pile : StackStack) (index : Nat) : Stack :=
  pile.slots.getD index Stack.empty

def setSlot (pile : StackStack) (index : Nat) (stack : Stack) : StackStack :=
  { pile with slots := pile.slots.setIfInBounds index stack }

def depth (pile : StackStack) : Nat :=
  pile.cursor + 1

/-- The active stack. -/
def toss (pile : StackStack) : Stack :=
  pile.slot pile.cursor

def soss? (pile : StackStack) : Option Stack :=
  if pile.cursor = 0 then none else some (pile.slot (pile.cursor - 1))

def setToss (pile : StackStack) (stack : Stack) : StackStack :=
  pile.setSlot pile.cursor stack

def setSoss (pile : StackStack) (stack : Stack) : StackStack :=
  pile.setSlot (pile.cursor - 1) stack

def push (pile : StackStack) (value : Value) : StackStack :=
  pile.setToss (pile.toss.push value)

def extend (pile : StackStack) (pushed : List Value) : StackStack :=
  pile.setToss (pile.toss.extend pushed)

def pop (pile : StackStack) : Value × StackStack :=
  let (value, rest) := pile.toss.pop
  (value, pile.setToss rest)

def popMany (pile : StackStack) (count : Nat) : List Value × StackStack :=
  let (popped, rest) := pile.toss.popMany count
  (popped, pile.setToss rest)

def duplicate (pile : StackStack) : StackStack :=
  let (value, pile) := pile.pop
  pile.extend [value, value]

def discard (pile : StackStack) : StackStack :=
  pile.pop.2

/-- Exchanges the top two values. A stack of one value gains a zero above it, and
an empty stack gains a single zero. -/
def swap (pile : StackStack) : StackStack :=
  if pile.toss.isEmpty then pile.push 0
  else
    let ((one, two), rest) := pile.toss.popTwo
    pile.setToss (rest.extend [two, one])

def clear (pile : StackStack) : StackStack :=
  pile.setToss Stack.empty

/-- A vector is pushed x first, so that its last component comes off first. -/
def popVec (pile : StackStack) : Vec × StackStack :=
  let (components, pile) := pile.popMany pile.dimension
  (⟨components⟩, pile)

def pushVec (pile : StackStack) (v : Vec) : StackStack :=
  pile.extend v.components

end StackStack

end Befunge
