/-! Memory. Whether a stack may grow is settled outside the program. As with the dice, each
time has its answers from the start, and the stacks only count the times that they may have
to ask. -/

namespace Befunge

structure Memory where
  /-- Whether there is room, at some time, for a stack of some size to grow by so many values. -/
  room : Nat → Nat → Nat → Bool
  time : Nat
  /-- To grow by nothing takes no room. -/
  nothing : ∀ time size, room time size 0 = true

namespace Memory

def grants (memory : Memory) (size count : Nat) : Bool :=
  memory.room memory.time size count

@[simp] theorem grants_nothing (memory : Memory) (size : Nat) : memory.grants size 0 = true :=
  memory.nothing memory.time size

theorem pos_of_refused {memory : Memory} {size count : Nat} (refused : ¬ memory.grants size count = true) : 0 < count := by
  apply Nat.pos_of_ne_zero
  intro zero
  exact refused (zero ▸ memory.grants_nothing size)

def pass (memory : Memory) : Memory :=
  { memory with time := memory.time + 1 }

/-- Room for so many values more, at any time and whatever a stack holds. -/
def upTo (limit : Nat) : Memory where
  room _ _ count := decide (count ≤ limit)
  time := 0
  nothing _ _ := rfl

/-- What a program runs with unless it is given other memory. -/
def ample : Memory :=
  upTo 0x1000000

end Memory

end Befunge
