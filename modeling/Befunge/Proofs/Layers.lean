import Befunge.StackStack.Op

/-! The slots of a stack of stacks seen as a list of the open stacks, the active one
first. Slots above the cursor are empty, so opening a block never finds old values. -/

namespace Befunge

namespace Stack

theorem push_pop {stack : Stack} (nonzero : stack.pop.1 ≠ 0) : stack.pop.2.push stack.pop.1 = stack := by
  obtain ⟨values⟩ := stack
  cases values with
  | nil => exact absurd rfl nonzero
  | cons value rest => rfl

theorem pop_toList (stack : Stack) :
    stack.pop.1 = stack.toList.getLastD 0 ∧ stack.pop.2.toList = stack.toList.dropLast := by
  obtain ⟨values⟩ := stack
  cases values with
  | nil => exact ⟨rfl, rfl⟩
  | cons value rest => simp [pop, toList]

/-- A stack with as many zeros below as bring it to a size. -/
def padded (stack : Stack) (size : Nat) : Stack :=
  ⟨stack.values ++ List.replicate (size - stack.size) 0⟩

theorem popMany_extend (stack : Stack) (count : Nat) :
    (stack.popMany count).2.extend (stack.popMany count).1 = stack.padded count := by
  rcases Nat.le_total count stack.values.length with enough | short
  · simp [popMany, extend, padded, size, Nat.sub_eq_zero_of_le enough]
  · simp [popMany, extend, padded, size, List.take_of_length_le short, List.drop_of_length_le short]

theorem padded_eq_self {stack : Stack} {size : Nat} : stack.padded size = stack ↔ size ≤ stack.size := by
  obtain ⟨values⟩ := stack
  simp only [padded, Stack.size, mk.injEq, List.append_right_eq_self, List.replicate_eq_nil_iff]
  omega

@[simp] theorem length_popMany (stack : Stack) (count : Nat) : (stack.popMany count).1.length = count := by
  simp only [popMany, size, List.length_append, List.length_replicate, List.length_reverse, List.length_take]
  omega

theorem moveOnto?_none {source target : Stack} {count : Nat} {memory : Memory}
    (refused : source.moveOnto? target count memory = none) : 0 < count := by
  simp only [moveOnto?] at refused
  split at refused
  · cases refused
  next none => exact Memory.pos_of_refused none

theorem pushZeros?_none {stack : Stack} {count : Nat} {memory : Memory}
    (refused : stack.pushZeros? count memory = none) : 0 < count := by
  simp only [pushZeros?] at refused
  split at refused
  · cases refused
  next none => exact Memory.pos_of_refused none

end Stack

namespace StackStack

/-- The slots hold these open stacks, the active one first, and above them nothing. -/
structure Shows (axes : Nat) (pile : StackStack) (layers : List Stack) : Prop where
  dimension : pile.dimension = axes
  depth : layers.length = pile.cursor + 1
  stored : pile.cursor < pile.slots.size
  slots : ∀ index, pile.slot index = layers.reverse.getD index Stack.empty

/-- The open stacks, the active one first. -/
def layers (pile : StackStack) : List Stack :=
  ((List.range pile.depth).map pile.slot).reverse

theorem Shows.layers {axes : Nat} {pile : StackStack} {layers : List Stack} (shows : pile.Shows axes layers) :
    pile.layers = layers := by
  have same : (List.range pile.depth).map pile.slot = layers.reverse := by
    apply List.ext_getElem
    · simp [StackStack.depth, shows.depth]
    · intro index first second
      rw [List.getElem_map, shows.slots, List.getElem_range, List.getD_eq_getElem?_getD,
        List.getElem?_eq_getElem second, Option.getD_some]
  rw [StackStack.layers, same, List.reverse_reverse]

private theorem getD_reverse_cons (top : Stack) (rest : List Stack) (index : Nat) :
    (top :: rest).reverse.getD index Stack.empty =
      if index = rest.length then top else rest.reverse.getD index Stack.empty := by
  simp only [List.reverse_cons, List.getD_eq_getElem?_getD, List.getElem?_append, List.length_reverse]
  split
  · rw [if_neg (by omega)]
  · split
    · simp [*]
    · rw [List.getElem?_eq_none (by simp; omega), List.getElem?_eq_none (by simp; omega)]

theorem slot_setSlot (pile : StackStack) (index other : Nat) (stack : Stack) :
    (pile.setSlot index stack).slot other =
      if other = index ∧ index < pile.slots.size then stack else pile.slot other := by
  simp only [slot, setSlot, Array.getD_eq_getD_getElem?, Array.getElem?_setIfInBounds]
  grind

variable {axes : Nat} {pile : StackStack} {toss soss : Stack} {rest : List Stack}

namespace Shows

theorem cursor (shows : pile.Shows axes (toss :: rest)) : pile.cursor = rest.length := by
  have depth := shows.depth
  simp only [List.length_cons] at depth
  omega

theorem active (shows : pile.Shows axes (toss :: rest)) : pile.toss = toss := by
  rw [StackStack.toss, shows.slots, getD_reverse_cons, if_pos shows.cursor]

theorem below (shows : pile.Shows axes (toss :: soss :: rest)) : pile.slot (pile.cursor - 1) = soss := by
  have cursor := shows.cursor
  simp only [List.length_cons] at cursor
  rw [shows.slots, getD_reverse_cons, getD_reverse_cons, if_neg (by simp; omega), if_pos (by omega)]

theorem setToss (shows : pile.Shows axes (toss :: rest)) (stack : Stack) : (pile.setToss stack).Shows axes (stack :: rest) where
  dimension := shows.dimension
  depth := shows.depth
  stored := by simpa [StackStack.setToss, setSlot] using shows.stored
  slots index := by
    have cursor := shows.cursor
    have stored := shows.stored
    rw [StackStack.setToss, slot_setSlot, shows.slots, getD_reverse_cons, getD_reverse_cons]
    grind

theorem setSoss (shows : pile.Shows axes (toss :: soss :: rest)) (stack : Stack) :
    (pile.setSoss stack).Shows axes (toss :: stack :: rest) where
  dimension := shows.dimension
  depth := shows.depth
  stored := by simpa [StackStack.setSoss, setSlot] using shows.stored
  slots index := by
    have cursor := shows.cursor
    have stored := shows.stored
    simp only [List.length_cons] at cursor
    rw [StackStack.setSoss, slot_setSlot, shows.slots]
    simp only [getD_reverse_cons, List.length_cons]
    grind

theorem openSlot (shows : pile.Shows axes (toss :: rest)) : pile.openSlot.Shows axes (Stack.empty :: toss :: rest) where
  dimension := shows.dimension
  depth := by simp [StackStack.openSlot, shows.cursor]
  stored := by
    have stored := shows.stored
    simp only [StackStack.openSlot]
    split <;> grind
  slots index := by
    have cursor := shows.cursor
    have same : pile.openSlot.slot index = pile.slot index := by
      simp only [slot, StackStack.openSlot, Array.getD_eq_getD_getElem?]
      split <;> grind
    rw [same, shows.slots, getD_reverse_cons Stack.empty]
    split
    · subst index
      simp [List.getD_eq_getElem?_getD]
    · rfl

theorem closeSlot (shows : pile.Shows axes (toss :: soss :: rest)) : pile.closeSlot.Shows axes (soss :: rest) where
  dimension := shows.dimension
  depth := by simp [StackStack.closeSlot, StackStack.clear, StackStack.setToss, setSlot, shows.cursor]
  stored := by
    have stored := (shows.setToss Stack.empty).stored
    simp only [StackStack.closeSlot, StackStack.clear, StackStack.setToss, setSlot] at *
    omega
  slots index := by
    have emptied := (shows.setToss Stack.empty).slots index
    rw [getD_reverse_cons] at emptied
    apply emptied.trans
    split
    · subst index
      simp [List.getD_eq_getElem?_getD]
    · rfl

theorem push (shows : pile.Shows axes (toss :: rest)) (value : Value) : (pile.push value).Shows axes (toss.push value :: rest) := by
  rw [StackStack.push, shows.active]
  exact shows.setToss _

theorem pop (shows : pile.Shows axes (toss :: rest)) :
    pile.pop.1 = toss.pop.1 ∧ pile.pop.2.Shows axes (toss.pop.2 :: rest) := by
  rw [StackStack.pop, shows.active]
  exact ⟨rfl, shows.setToss _⟩

theorem popCount (shows : pile.Shows axes (toss :: rest)) :
    pile.popCount.1 = toss.pop.1 ∧ pile.popCount.2.Shows axes (toss.pop.2 :: rest) := by
  obtain ⟨count, popped⟩ := shows.pop
  exact ⟨count, popped.dimension, popped.depth, popped.stored, popped.slots⟩

theorem pushVecBelow (shows : pile.Shows axes (toss :: soss :: rest)) (v : Vec) :
    (pile.pushVecBelow v).Shows axes (toss :: soss.extend v.components :: rest) := by
  rw [StackStack.pushVecBelow, shows.below]
  exact shows.setSoss _

theorem popVecBelow (shows : pile.Shows axes (toss :: soss :: rest)) :
    pile.popVecBelow.1 = ⟨(soss.popMany axes).1⟩ ∧
      pile.popVecBelow.2.Shows axes (toss :: (soss.popMany axes).2 :: rest) := by
  rw [StackStack.popVecBelow, shows.below, shows.dimension]
  exact ⟨rfl, shows.setSoss _⟩

theorem second (shows : pile.Shows axes (toss :: soss :: rest)) : pile.soss? = some soss := by
  rw [soss?, shows.below, if_neg (by simp [shows.cursor])]

theorem single (shows : pile.Shows axes [toss]) : pile.soss? = none := by
  simp [soss?, shows.cursor]

end Shows

def Open (axes : Nat) (pile : StackStack) : Prop :=
  ∃ toss rest, pile.Shows axes (toss :: rest)

theorem Open.setToss (opened : pile.Open axes) (stack : Stack) : (pile.setToss stack).Open axes := by
  obtain ⟨toss, rest, shows⟩ := opened
  exact ⟨stack, rest, shows.setToss stack⟩

theorem Open.dimension (opened : pile.Open axes) : pile.dimension = axes := by
  obtain ⟨toss, rest, shows⟩ := opened
  exact shows.dimension

/-- The active stack has gained a value on top, and nothing else has changed. -/
structure Gains (pile : StackStack) (value : Value) (after : StackStack) : Prop where
  active : after.toss.toList = pile.toss.toList ++ [value]
  lower : after.layers.tail = pile.layers.tail
  depth : after.depth = pile.depth

theorem Open.push_gains (opened : pile.Open axes) (value : Value) : pile.Gains value (pile.push value) := by
  obtain ⟨toss, rest, shows⟩ := opened
  have pushed := shows.push value
  constructor
  · rw [pushed.active, shows.active]
    exact List.reverse_cons
  · rw [pushed.layers, shows.layers]
    rfl
  · rfl

/-- The active stack has lost its top value, if it had one, and nothing else has changed. -/
structure Loses (pile after : StackStack) : Prop where
  active : after.toss.toList = pile.toss.toList.dropLast
  lower : after.layers.tail = pile.layers.tail
  depth : after.depth = pile.depth

theorem pop_value (pile : StackStack) : pile.pop.1 = pile.toss.toList.getLastD 0 :=
  pile.toss.pop_toList.1

theorem Open.pop_loses (opened : pile.Open axes) : pile.Loses pile.pop.2 := by
  obtain ⟨toss, rest, shows⟩ := opened
  have popped := shows.pop.2
  constructor
  · rw [popped.active, shows.active]
    exact toss.pop_toList.2
  · rw [popped.layers, shows.layers]
    rfl
  · rfl

theorem initial_shows (dimension : Nat) (memory : Memory) : (initial dimension memory).Shows dimension [Stack.empty] where
  dimension := rfl
  depth := rfl
  stored := by simp [initial]
  slots index := by cases index <;> rfl

end StackStack
end Befunge
