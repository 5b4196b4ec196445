import Befunge.Proofs.FencedWalks
import Befunge.Proofs.WrittenCells

/-! Texts between quotes. From a quote the cursor walks on to the next one, which is the same
again where its line has no other, and pushes every byte on its way, whatever instruction the
byte may stand for. -/

namespace Befunge

namespace Space

variable {space : Space} {place : Vec} {width height : Nat}

theorem Grid.steady (grid : space.Grid width height) (inside : space.contains place = true) (heading : Heading) :
    space.Steady place (heading.delta 2) where
  sized := grid.isEmpty
  inside := inside
  axes := by
    rw [Extent.dimension_of_contains inside, grid.extent]
    cases heading <;> rfl

theorem Grid.iterate_heading (grid : space.Grid width height) (inside : space.contains place = true) (heading : Heading)
    (count : Nat) :
    ((space.under .befunge98).step · (heading.delta 2))^[count] place = (space.step · (heading.delta 2))^[count] place := by
  induction count generalizing place with
  | zero => rfl
  | succ count ih =>
    rw [Function.iterate_succ_apply, Function.iterate_succ_apply, grid.step_heading inside]
    exact ih (grid.steady inside heading).step

theorem Grid.returns (grid : space.Grid width height) (inside : space.contains place = true) (heading : Heading) :
    ∃ period, 0 < period ∧ (space.step · (heading.delta 2))^[period] place = place := by
  obtain ⟨sized, inside, axes⟩ := grid.steady inside heading
  have steady : (space.under .befunge98).Steady place (heading.delta 2) := ⟨sized, inside, axes⟩
  obtain ⟨positive, returns⟩ := walkBound_returns rfl steady
  rw [grid.iterate_heading inside] at returns
  exact ⟨_, positive, returns⟩

end Space

namespace StackStack

variable {pile : StackStack} {axes : Nat}

theorem extend_nil (pile : StackStack) : pile.extend [] = pile := by
  have slots : pile.slots.setIfInBounds pile.cursor (pile.slots.getD pile.cursor Stack.empty) = pile.slots := by
    by_cases stored : pile.cursor < pile.slots.size
    · simp [Array.getD, Array.setIfInBounds, stored]
    · exact Array.setIfInBounds_eq_of_size_le (Nat.le_of_not_lt stored)
  exact congrArg (fun slots => { pile with slots }) slots

theorem Open.push_extend (opened : pile.Open axes) (values : List Value) (value : Value) :
    (pile.extend values).push value = pile.extend (values ++ [value]) := by
  simp [extend, opened.push_setToss, Stack.push, Stack.extend]

theorem Open.toList_extend (opened : pile.Open axes) (values : List Value) :
    (pile.extend values).toss.toList = pile.toss.toList ++ values := by
  obtain ⟨toss, rest, shows⟩ := opened
  simp [extend, (shows.setToss _).active, shows.active, Stack.toList, Stack.extend]

end StackStack

namespace Machine

variable {machine later after : Machine}

/-- On a torus the cursor heads along an axis. A row that was typed in waits for its move only
while there can be further ones. -/
structure Orderly (machine : Machine) : Prop where
  cardinal : machine.dialect = .befunge93 → machine.cursor.Cardinal
  ready : machine.space.complete = true → machine.rowReady = false

theorem orderly_start (space : Space) (status : Status) (dice : Dice) (memory : Memory) :
    (start space status dice memory).Orderly where
  ready _ := rfl
  cardinal torus := by
    have plane : space.dialect = .befunge93 := torus
    rw [start, plane]
    exact Cursor.cardinal_initial

private theorem settle_rowReady (position : Vec) (byte : UInt8) (outcome : Outcome) :
    (machine.settle position byte outcome).2.rowReady = machine.rowReady := by
  cases outcome <;> rfl

theorem step_rowReady (machine : Machine) : machine.step.2.rowReady = machine.rowReady := by
  simp only [step]
  split
  · simp only [readText]
    split <;> rfl
  · exact (settle_rowReady _ _ _).trans (carryOut_course _).rowReady

namespace Orderly

theorem cycle (orderly : machine.Orderly) : machine.cycle.2.Orderly where
  cardinal torus := by
    have before : machine.dialect = .befunge93 := machine.cycle_grows.dialect.symm.trans torus
    exact cycle_cardinal before (orderly.cardinal before)
  ready complete := by
    have before : machine.space.complete = true := by
      rcases machine.cycle_writes with same | ⟨place, value, same⟩
      · rwa [same] at complete
      · rwa [same, Space.put_complete] at complete
    have ready := orderly.ready before
    have cycled := machine.cycle_cycled
    generalize machine.cycle.1 = event, machine.cycle.2 = after at cycled
    cases cycled with
    | stopped | waited | asked | traced => exact ready
    | moved => rfl
    | stepped _ _ tracing => exact (step_rowReady _).trans ready

theorem entered {call : Call} (orderly : machine.Orderly) (entered : machine.Entered call after) : after.Orderly := by
  cases entered with
  | ignored | refused | stopped | answered => exact ⟨orderly.cardinal, orderly.ready⟩
  | row line asked space accepted =>
    refine ⟨fun torus => orderly.cardinal ((Space.addRow_dialect accepted).symm.trans torus), fun complete => ?_⟩
    -- Only the empty row completes the grid.
    cases more : line.isEmpty with
    | true => rfl
    | false =>
      obtain ⟨incomplete, _, same⟩ := Space.addRow_more more accepted
      have also : space.complete = true := complete
      rw [same, Space.writeRow_complete, incomplete] at also
      cases also

end Orderly

theorem Reached.orderly (reached : machine.Reached) : machine.Orderly := by
  induction reached with
  | loaded => exact orderly_start _ _ _ _
  | typed => exact orderly_start _ _ _ _
  | used _ uses ih =>
    refine uses.preserves Orderly (fun _ _ _ _ orderly => ⟨orderly.cardinal, orderly.ready⟩) ?_ ih
    intro machine call _ orderly
    exact call_preserves (fun _ orderly => orderly.cycle) (fun _ orderly => ⟨orderly.cardinal, orderly.ready⟩)
      (fun _ _ entered orderly => orderly.entered entered) orderly

def walked (machine : Machine) (count : Nat) : Vec :=
  (machine.space.step · machine.cursor.delta)^[count] machine.cursor.position

/-- What stands on the cells to which the first moves lead, one after the other. -/
def passed (machine : Machine) (count : Nat) : List Value :=
  (List.range count).map fun index => Value.ofByte (machine.space.peek (machine.walked (index + 1)))

theorem walked_succ (machine : Machine) (count : Nat) :
    machine.walked (count + 1) = machine.space.step (machine.walked count) machine.cursor.delta :=
  Function.iterate_succ_apply' _ _ _

theorem passed_succ (machine : Machine) (count : Nat) :
    machine.passed (count + 1) = machine.passed count ++ [Value.ofByte (machine.space.peek (machine.walked (count + 1)))] := by
  simp [passed, List.range_succ]

theorem Reached.returns (reached : machine.Reached) (running : machine.status = .running)
    (sized : machine.space.isEmpty = false) : ∃ period, 0 < period ∧ machine.walked period = machine.cursor.position := by
  have valid := reached.valid running
  have steady := valid.steady ((Extent.isEmpty_iff_fits valid.proper).mp sized)
  cases bounded : machine.dialect.isTorus with
  | false => exact ⟨_, Space.walkBound_returns bounded steady⟩
  | true =>
    have rows : machine.space.extent ≠ Extent.empty machine.dialect.dimension := by
      intro blank
      rw [Space.isEmpty, blank] at sized
      cases (Space.interactive_isEmpty machine.dialect).symm.trans sized
    obtain ⟨width, height, grid⟩ := reached.grid rows bounded
    obtain ⟨heading, along⟩ := (reached.orderly.cardinal (Dialect.eq_befunge93 bounded)).heading
    simp only [walked, along]
    exact grid.returns steady.inside heading

/-- The walk meets a quote, at the latest when it has come round to where it began. -/
theorem Reached.closes (reached : machine.Reached) (running : machine.status = .running)
    (sized : machine.space.isEmpty = false) (here : machine.space.peek machine.cursor.position = quoteMark) :
    ∃ period count, machine.walked period = machine.cursor.position ∧ 0 < count ∧ count ≤ period ∧
      machine.space.peek (machine.walked count) = quoteMark ∧
      ∀ fewer < count, 0 < fewer → machine.space.peek (machine.walked fewer) ≠ quoteMark := by
  obtain ⟨period, positive, returns⟩ := reached.returns running sized
  have again : machine.space.peek (machine.walked period) = quoteMark := returns.symm ▸ here
  have closing : ∃ count, 0 < count ∧ machine.space.peek (machine.walked count) = quoteMark := ⟨period, positive, again⟩
  exact ⟨period, Nat.find closing, returns, (Nat.find_spec closing).1, Nat.find_min' closing ⟨positive, again⟩,
    (Nat.find_spec closing).2, fun fewer less some found => Nat.find_min closing less ⟨some, found⟩⟩

/-- A machine that nothing keeps from reading the cells on its way. -/
structure Unhindered (machine : Machine) : Prop where
  running : machine.status = .running
  untraced : machine.tracing = .off
  complete : machine.space.complete = true
  unready : machine.rowReady = false
  opened : machine.pile.Open machine.dialect.dimension
  inside : ∀ count, machine.space.contains (machine.walked count) = true
  outside : machine.cursor.stringMode = false

/-- The machine in the midst of a text of which it has read so many bytes. The move to the next one
is pending. -/
def reading (machine : Machine) (count : Nat) : Machine :=
  { machine with
    pile := machine.pile.extend (machine.passed count)
    cursor := { machine.cursor with position := machine.walked count, stringMode := true }
    moves := 1 }

def nearing (machine : Machine) (count : Nat) : Machine :=
  { machine.reading count with
    cursor := { machine.cursor with position := machine.walked (count + 1), stringMode := true }
    moves := 0 }

/-- The machine at the end of a text of so many bytes. -/
def closed (machine : Machine) (count : Nat) : Machine :=
  { machine with
    pile := machine.pile.extend (machine.passed count)
    cursor := { machine.cursor with position := machine.walked (count + 1) }
    moves := 1 }

private theorem cycle_acts (running : machine.status = .running) (arrived : machine.moves = 0)
    (untraced : machine.tracing = .off) : machine.cycle = machine.step := by
  rw [cycle_steps running arrived, untraced]

namespace Unhindered

theorem byte_eq (free : machine.Unhindered) (count : Nat) :
    machine.space.get (machine.walked count) = machine.space.peek (machine.walked count) := by
  rw [Space.get, if_pos (free.inside count)]

private theorem moves_on (free : machine.Unhindered) (count : Nat) :
    (machine.reading count).cycle = (none, machine.nearing count) := by
  have moves : (machine.reading count).Moves := by
    refine ⟨free.running, Nat.one_pos, fun needs => ?_⟩
    cases needs.1.symm.trans free.complete
  rw [moves.cycle]
  simp only [reading, nearing, Cursor.advance, Cursor.next, walked_succ, free.unready]

private theorem reads_on (free : machine.Unhindered) (count : Nat) :
    (machine.reading count).cycles 2 = (.running, (machine.nearing count).readText) := by
  have read : (machine.nearing count).cycle = (none, (machine.nearing count).readText) :=
    cycle_acts free.running rfl free.untraced
  simp only [cycles, free.moves_on, read]

theorem read_byte (free : machine.Unhindered) {count : Nat}
    (other : machine.space.peek (machine.walked (count + 1)) ≠ quoteMark) :
    (machine.reading count).cycles 2 = (.running, machine.reading (count + 1)) := by
  have byte : (machine.nearing count).byte = machine.space.peek (machine.walked (count + 1)) := free.byte_eq _
  have pushed : (machine.pile.extend (machine.passed count)).push (Value.ofByte (machine.nearing count).byte) =
      machine.pile.extend (machine.passed (count + 1)) := by
    rw [free.opened.push_extend, byte, ← passed_succ]
  rw [free.reads_on, readText, if_neg (byte ▸ other)]
  exact congrArg (fun pile => (Event.running, { machine.reading (count + 1) with pile })) pushed

theorem read_quote (free : machine.Unhindered) {count : Nat}
    (quoted : machine.space.peek (machine.walked (count + 1)) = quoteMark) :
    (machine.reading count).cycles 2 = (.running, machine.closed count) := by
  have byte : (machine.nearing count).byte = machine.space.peek (machine.walked (count + 1)) := free.byte_eq _
  rw [free.reads_on, readText, if_pos (byte.trans quoted)]
  simp only [steer, Cursor.toggleStringMode, nearing, reading, closed, free.outside, Bool.not_true]

theorem read_bytes (free : machine.Unhindered) {count : Nat}
    (others : ∀ index < count, machine.space.peek (machine.walked (index + 1)) ≠ quoteMark) :
    (machine.reading 0).cycles (2 * count) = (.running, machine.reading count) := by
  induction count with
  | zero => rfl
  | succ count ih =>
    -- Two further cycles make the next move and read the byte there.
    have sofar := ih fun index less => others index (Nat.lt_succ_of_lt less)
    rw [Nat.mul_succ, cycles_add, sofar]
    exact free.read_byte (others count (Nat.lt_succ_self _))

theorem read_text (free : machine.Unhindered) {count : Nat}
    (others : ∀ index < count, machine.space.peek (machine.walked (index + 1)) ≠ quoteMark)
    (quoted : machine.space.peek (machine.walked (count + 1)) = quoteMark) :
    (machine.reading 0).cycles (2 * (count + 1)) = (.running, machine.closed count) := by
  rw [Nat.mul_succ, cycles_add, free.read_bytes others]
  exact free.read_quote quoted

theorem begin_text (free : machine.Unhindered) (arrived : machine.moves = 0) (here : machine.byte = quoteMark) :
    machine.cycle = (none, machine.reading 0) := by
  have decoded : Instruction.decode machine.dialect machine.byte = .quote := by
    rw [here]
    cases machine.dialect <;> rfl
  have unread : machine.pile.extend (machine.passed 0) = machine.pile := machine.pile.extend_nil
  rw [cycle_acts free.running arrived free.untraced]
  simp only [step, free.outside, decoded, carryOut, steer, settle, Cursor.toggleStringMode, reading, unread,
    Bool.false_eq_true, ↓reduceIte, Bool.not_false]
  rfl

end Unhindered

/-- From a quote the machine reads on to the next one that its walk meets, and the walk comes
round to the same one at the latest. Every byte in between is pushed as it stands, and
nothing else happens. One move is left to make. -/
theorem text_pushed (reached : machine.Reached) (running : machine.status = .running) (untraced : machine.tracing = .off)
    (complete : machine.space.complete = true) (sized : machine.space.isEmpty = false) (told : machine.faults = [])
    (arrived : machine.moves = 0) (outside : machine.cursor.stringMode = false) (here : machine.byte = quoteMark) :
    ∃ period count, machine.walked period = machine.cursor.position ∧ 0 < count ∧ count ≤ period ∧
      machine.space.peek (machine.walked count) = quoteMark ∧
      (∀ fewer < count, 0 < fewer → machine.space.peek (machine.walked fewer) ≠ quoteMark) ∧
      (machine.pile.extend (machine.passed (count - 1))).toss.toList =
        machine.pile.toss.toList ++ machine.passed (count - 1) ∧
      machine.execute (2 * count + 1) =
        (.running, { machine with
          pile := machine.pile.extend (machine.passed (count - 1))
          cursor := { machine.cursor with position := machine.walked count }
          moves := 1 }) := by
  have valid := reached.valid running
  have steady := valid.steady ((Extent.isEmpty_iff_fits valid.proper).mp sized)
  have free : machine.Unhindered :=
    ⟨running, untraced, complete, reached.orderly.ready complete, valid.pile,
      fun count => (steady.iterate count).inside, outside⟩
  obtain ⟨period, count, returns, positive, within, quoted, first⟩ := reached.closes running sized (free.byte_eq 0 ▸ here)
  obtain ⟨bytes, rfl⟩ := Nat.exists_eq_succ_of_ne_zero (Nat.ne_of_gt positive)
  have others : ∀ index < bytes, machine.space.peek (machine.walked (index + 1)) ≠ quoteMark :=
    fun index less => first (index + 1) (Nat.succ_lt_succ less) (Nat.succ_pos _)
  refine ⟨period, bytes + 1, returns, positive, within, quoted, first, valid.pile.toList_extend _, ?_⟩
  rw [execute, if_pos (List.isEmpty_iff.mpr told), cycles, free.begin_text arrived here]
  exact free.read_text others quoted

/-- On a torus the only quote of a row ends the text that it begins. The machine walks west, round
the row, and pushes what would otherwise turn it or ask for a character. -/
theorem lone_quote_ends_text :
    let machine := (ofSource ⟨.befunge93, ["<a ~\""]⟩ (Dice.ofSeed 0)).after [.execute 2]
    let after := (machine.execute 11).2
    machine.byte = quoteMark ∧ (machine.execute 11).1 = .running ∧ after.cursor = machine.cursor ∧ after.moves = 1 ∧
      after.pile.toss.toList = [0x7e, 0x20, 0x61, 0x3c] := by
  intro machine after
  have loaded : (ofSource ⟨.befunge93, ["<a ~\""]⟩ (Dice.ofSeed 0)).Reached :=
    .loaded (show Source.ofLines .befunge93 ["<a ~\""] = _ by rfl) ⟨by decide, by decide +kernel⟩ _ _
  have reached : machine.Reached := loaded.used (.called (.execute 2) trivial)
  have here : machine.byte = quoteMark := by decide +kernel
  have ends : ∀ fewer < 5, 0 < fewer → machine.space.peek (machine.walked fewer) ≠ quoteMark := by decide +kernel
  have lone : machine.walked 5 = machine.cursor.position ∧ machine.space.peek (machine.walked 5) = quoteMark := by
    decide +kernel
  obtain ⟨_, count, _, positive, _, quoted, first, pushed, executed⟩ :=
    text_pushed reached (by decide +kernel) (by decide +kernel) (by decide +kernel) (by decide +kernel) (by decide +kernel)
      (by decide +kernel) (by decide +kernel) here
  obtain rfl : count = 5 := by
    rcases Nat.lt_trichotomy count 5 with less | same | more
    · exact absurd quoted (ends count less positive)
    · exact same
    · exact absurd lone.2 (first 5 more (by decide))
  have bytes : machine.pile.toss.toList ++ machine.passed 4 = [0x7e, 0x20, 0x61, 0x3c] := by decide +kernel
  have ran : machine.execute 11 = _ := executed
  refine ⟨here, congrArg Prod.fst ran, ?_, ?_, ?_⟩
  · simp only [after, ran, lone.1]
  · simp only [after, ran]
  · simp only [after, ran]
    exact pushed.trans bytes

end Machine
end Befunge
