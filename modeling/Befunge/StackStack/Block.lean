import Befunge.StackStack.Basic

/-! Blocks: opening a new active stack, leaving it, and moving values between the
two topmost stacks. Each takes a count from the active stack first, and puts it back
when there is no memory for a stack to grow so far. -/

namespace Befunge.StackStack

/-- Moves the cursor up by one slot, and adds the slot when it is a new one. -/
def openSlot (pile : StackStack) : StackStack :=
  let cursor := pile.cursor + 1
  let slots := if pile.slots.size = cursor then pile.slots.push Stack.empty else pile.slots
  { pile with slots, cursor }

def closeSlot (pile : StackStack) : StackStack :=
  { pile.clear with cursor := pile.cursor - 1 }

/-- The count of an operation, which may have to ask for memory. -/
def popCount (pile : StackStack) : Value × StackStack :=
  let (count, pile) := pile.pop
  (count, { pile with memory := pile.memory.pass })

/-- Puts back a count that could not be honoured. -/
def refuse (pile : StackStack) (count : Value) : Except Fault α × StackStack :=
  (.error { kind := .outOfMemory, message := count.text }, pile.push count)

/-- Moves values from the active stack to the one below it. -/
def lower? (pile : StackStack) (count : Nat) : Option StackStack :=
  (pile.toss.moveOnto? (pile.slot (pile.cursor - 1)) count pile.memory).map fun (toss, soss) =>
    (pile.setToss toss).setSoss soss

/-- Moves values to the active stack from the one below it. -/
def raise? (pile : StackStack) (count : Nat) : Option StackStack :=
  ((pile.slot (pile.cursor - 1)).moveOnto? pile.toss count pile.memory).map fun (soss, toss) =>
    (pile.setToss toss).setSoss soss

def pushVecBelow (pile : StackStack) (v : Vec) : StackStack :=
  pile.setSoss ((pile.slot (pile.cursor - 1)).extend v.components)

def popVecBelow (pile : StackStack) : Vec × StackStack :=
  let (components, soss) := (pile.slot (pile.cursor - 1)).popMany pile.dimension
  (⟨components⟩, pile.setSoss soss)

/-- Opens a block. A positive count carries that many values along, a negative one
leaves as many zeros behind. The storage offset is kept on the stack that was
active. -/
def beginBlock (pile : StackStack) (offset : Vec) : Except Fault Unit × StackStack :=
  if offset.dimension ≠ pile.dimension then
    (.error {
      kind := .dimensionMismatch
      message := toString offset.dimension ++ " given, " ++ toString pile.dimension ++
        " expected" }, pile)
  else
    let (count, pile) := pile.popCount
    if count < 0 then
      match pile.toss.pushZeros? count.magnitude pile.memory with
      | none => pile.refuse count
      | some toss => (.ok (), ((pile.setToss toss).openSlot).pushVecBelow offset)
    else
      let opened := pile.openSlot
      if count = 0 then (.ok (), opened.pushVecBelow offset)
      else
        match opened.raise? count.magnitude with
        | none => opened.closeSlot.refuse count
        | some carried => (.ok (), carried.pushVecBelow offset)

/-- Leaves a block and gives the storage offset that it was opened with. A positive
count carries that many values back, a negative one drops as many below. -/
def endBlock (pile : StackStack) : Except Fault Vec × StackStack :=
  if pile.cursor = 0 then (.error { kind := .noSecondStack }, pile)
  else
    let (count, pile) := pile.popCount
    let (offset, pile) := pile.popVecBelow
    if 0 < count then
      match pile.lower? count.magnitude with
      | none => (pile.pushVecBelow offset).refuse count
      | some carried => (.ok offset, carried.closeSlot)
    else
      let soss := (pile.slot (pile.cursor - 1)).drop count.magnitude
      (.ok offset, (pile.setSoss soss).closeSlot)

/-- Moves values between the two topmost stacks: up for a positive count, down for a
negative one. -/
def underStack (pile : StackStack) : Except Fault Unit × StackStack :=
  if pile.cursor = 0 then (.error { kind := .noSecondStack }, pile)
  else
    let (count, pile) := pile.popCount
    let moved := if 0 < count then pile.raise? count.magnitude else pile.lower? count.magnitude
    match moved with
    | none => pile.refuse count
    | some moved => (.ok (), moved)

end Befunge.StackStack
