import Befunge.Proofs.LaheyOrbits
import Befunge.Proofs.PendingMoves
import Befunge.Proofs.WellFormed

/-! The cells that fetching and storing skip. Both instructions look for the next cell at
once, while the moves that skip it are made later. Where a row is typed in for the first of
them, it may lead to another cell. -/

namespace Befunge

namespace Space

variable {space later : Space} {place stride : Vec}

/-- Every point that the later space has on the line was there before. -/
def KeepsLine (space later : Space) (place stride : Vec) : Prop :=
  ∀ count : Int, later.extent.Holds (place.point stride count) → space.extent.Holds (place.point stride count)

private theorem step_wide (proper : space.extent.Proper) (wide : ¬ space.extent.Fits) :
    space.step place stride = place + stride := by
  have unsized : space.isEmpty = true := by
    rwa [← Extent.isEmpty_iff_fits proper, Bool.not_eq_false] at wide
  simp only [step, unsized, Bool.or_true, ↓reduceIte]

private theorem Lahey.grown (lahey : space.Lahey place stride) (grows : space.Grows later) (fits : later.extent.Fits) :
    later.Lahey place stride where
  sized := (Extent.isEmpty_iff_fits (grows.extent.proper (Extent.proper_of_contains lahey.inside))).mpr fits
  inside := grows.extent.contains lahey.inside
  axes := lahey.axes
  growing := by rw [grows.dialect, lahey.growing]
  moving := lahey.moving

private theorem Lahey.step_grown_iff (lahey : space.Lahey place stride) (grows : space.Grows later)
    (wraps : space.contains (place + stride) = false) :
    later.step place stride = space.step place stride ↔ later.extent.Fits ∧ space.KeepsLine later place stride := by
  obtain ⟨back, ahead, counted⟩ := lahey.counted
  have line := lahey.counted_iff.mp counted
  have next := Extent.add_contains_iff lahey.fits lahey.inside lahey.axes
  obtain rfl : ahead = 0 := by
    rw [show space.extent.contains (place + stride) = false from wraps, line] at next
    simp only [Bool.false_eq_true, false_iff] at next
    omega
  have first := (line (-back)).mpr (by omega)
  have back_eq : space.step place stride = place.along stride (-back) := lahey.step_eq counted
  by_cases fits : later.extent.Fits
  · have also := lahey.grown grows fits
    obtain ⟨behind, before, recounted⟩ := also.counted
    have longer := also.counted_iff.mp recounted
    have still := grows.extent.holds lahey.axes first
    -- Both moves lead to points of the line in the later space, so their counts can be compared.
    have lands : later.extent.Holds (place.point stride (if 0 < before then 1 else -(behind : Int))) :=
      (longer _).mpr (by split <;> omega)
    rw [also.step_eq recounted, back_eq, ← Vec.exact_inj, Extent.exact_along lahey.axes lands,
      Extent.exact_along lahey.axes still, Vec.point_inj lahey.axes lahey.moving, and_iff_right fits]
    constructor
    · intro same count holds
      have within := (longer count).mp holds
      rw [line]
      split at same <;> omega
    · intro kept
      have within := (line _).mp (kept _ lands)
      have reached := (longer _).mp still
      split at within <;> split <;> omega
  · refine iff_of_false ?_ fun kept => fits kept.1
    intro same
    rw [step_wide (grows.extent.proper (Extent.proper_of_contains lahey.inside)) fits] at same
    rw [same, lahey.toSteady.step] at wraps
    cases wraps

/-- A move leads to the same cell as it did before the space grew, unless it goes back along
a line that has become longer, or that nothing brings it back to. -/
theorem step_grown_iff (growing : space.dialect.isTorus = false) (proper : space.extent.Proper)
    (inside : space.extent.Fits → space.contains place = true) (axes : stride.dimension = place.dimension)
    (grows : space.Grows later) :
    later.step place stride = space.step place stride ↔
      space.contains (place + stride) = true ∨ ¬ space.extent.Fits ∨
        later.extent.Fits ∧ space.KeepsLine later place stride := by
  cases next : space.contains (place + stride) with
  | true =>
    have also : later.contains (place + stride) = true := grows.extent.contains next
    refine iff_of_true ?_ (.inl rfl)
    simp only [step, next, also, Bool.true_or, ↓reduceIte]
  | false =>
    by_cases fits : space.extent.Fits
    · have moving : stride.isZero = false := by
        by_contra still
        rw [Vec.add_still axes (by simpa using still), inside fits] at next
        cases next
      have lahey : space.Lahey place stride :=
        ⟨⟨(Extent.isEmpty_iff_fits proper).mpr fits, inside fits, axes⟩, growing, moving⟩
      rw [lahey.step_grown_iff grows next]
      simp [fits]
    · refine iff_of_true ?_ (.inr (.inl fits))
      rw [step_wide proper fits, step_wide (grows.extent.proper proper) fun more => fits (grows.extent.fits more)]

end Space

namespace Machine

variable {machine start first : Machine} {instruction : Instruction}

structure CarriesOut (machine : Machine) (instruction : Instruction) : Prop where
  executes : machine.Executes
  reads : machine.cursor.stringMode = false
  decoded : Instruction.decode machine.dialect machine.byte = instruction

theorem CarriesOut.cycle (carries : machine.CarriesOut instruction) :
    ∃ tracing, machine.cycle =
      ((machine.retraced tracing).carryOut instruction).2.settle machine.cursor.position machine.byte
        ((machine.retraced tracing).carryOut instruction).1 := by
  obtain ⟨_, tracing, same⟩ | ⟨idle, _⟩ := machine.cycle_executes
  · have reads : (machine.retraced tracing).cursor.stringMode = false := carries.reads
    have decoded : Instruction.decode (machine.retraced tracing).dialect (machine.retraced tracing).byte = instruction :=
      carries.decoded
    refine ⟨tracing, ?_⟩
    simp only [same, step, reads, decoded, Bool.false_eq_true, ↓reduceIte]
    rfl
  · exact absurd carries.executes idle

theorem CarriesOut.fetch (carries : machine.CarriesOut .fetch) :
    ∃ tracing, machine.cycle.2 =
      { machine with
        pile := machine.pile.push (Value.ofByte (machine.space.get (machine.cursor.next machine.space)))
        moves := 2
        tracing } := by
  obtain ⟨tracing, same⟩ := carries.cycle
  exact ⟨tracing, congrArg Prod.snd same⟩

theorem CarriesOut.store (carries : machine.CarriesOut .store) :
    ∃ tracing, machine.cycle.2 =
      { machine with
        pile := machine.pile.pop.2
        space := machine.space.put (machine.cursor.next machine.space) machine.pile.pop.1
        moves := 2
        tracing } := by
  obtain ⟨tracing, same⟩ := carries.cycle
  exact ⟨tracing, congrArg Prod.snd same⟩

private theorem Valid.idles (valid : start.Valid) (idles : Relation.ReflTransGen Idle start first) :
    first.Valid ∧ start.space.Grows first.space := by
  induction idles with
  | refl => exact ⟨valid, .refl _⟩
  | @tail between after _ idle ih =>
    obtain ⟨sound, grows⟩ := ih
    cases idle with
    | cycled => exact ⟨cycle_preserves _ sound, grows.trans (cycle_grows _)⟩
    | told => exact ⟨sound.withCourse _ _ _ _ sound.asks, grows⟩
    | entered call entry =>
      have entered : between.Entered call (between.call call).2 := entry_entered entry
      refine ⟨entered_preserves _ _ _ entered sound, ?_⟩
      generalize (between.call call).2 = after at entered
      cases entered with
      | ignored | refused | stopped | answered => exact grows
      | row line asked space accepted =>
        have plane := (Dialect.dimension_cases _).resolve_left (sound.asks asked)
        exact grows.trans (Space.addRow_grows (sound.extent.trans plane) accepted)

theorem Valid.next (valid : machine.Valid) (fits : machine.space.extent.Fits) :
    machine.space.contains (machine.cursor.next machine.space) = true :=
  (valid.steady fits).step

/-- A machine that is about to skip the cell ahead, where it stands. -/
private structure Skips (machine after : Machine) : Prop where
  running : after.status = .running
  cursor : after.cursor = machine.cursor
  moves : after.moves = 2
  complete : after.space.complete = machine.space.complete
  extent : machine.space.extent.Fits → after.space.extent = machine.space.extent

private theorem CarriesOut.skips (valid : machine.Valid) (carries : machine.CarriesOut instruction)
    (takes : instruction = .fetch ∨ instruction = .store) : machine.Skips machine.cycle.2 := by
  have running := carries.executes.1
  rcases takes with rfl | rfl
  · obtain ⟨tracing, same⟩ := carries.fetch
    rw [same]
    exact ⟨running, rfl, rfl, rfl, fun _ => rfl⟩
  · obtain ⟨tracing, same⟩ := carries.store
    rw [same]
    exact ⟨running, rfl, rfl, Space.put_complete _ _, fun fits => Space.put_extent (valid.next fits) _⟩

private theorem Skips.extent_unasked {moving : Machine} (skips : machine.Skips machine.cycle.2)
    (pends : machine.cycle.2.Pends moving) (unasked : machine.space.complete = true ∨ machine.cursor.delta.y = 0)
    (fits : machine.space.extent.Fits) : moving.space.extent = machine.space.extent := by
  have free : ¬ machine.cycle.2.NeedsRow := by
    rw [NeedsRow, skips.complete, skips.cursor]
    rcases unasked with complete | level
    · simp [complete]
    · simp [level]
  rw [(pends.unasked free).1, skips.extent fits]

private theorem Skips.lands {calls : List Call} {moving : Machine} {rest : List Machine} (valid : machine.Valid)
    (growing : machine.space.dialect.isTorus = false) (skips : machine.Skips machine.cycle.2)
    (acts : machine.cycle.2.activity calls = moving :: rest) :
    moving.Moves ∧ moving.moves = 2 ∧
      (machine.space.complete = true ∨ machine.cursor.delta.y = 0 →
        moving.cycle.2.cursor.position = machine.cursor.next machine.space) ∧
      (moving.cycle.2.cursor.position = machine.cursor.next machine.space ↔
        machine.space.contains (machine.cursor.position + machine.cursor.delta) = true ∨
          ¬ machine.space.extent.Fits ∨
            moving.space.extent.Fits ∧
              machine.space.KeepsLine moving.space machine.cursor.position machine.cursor.delta) := by
  obtain ⟨pends, moves, idles, _⟩ := activity_moves skips.running (skips.moves ▸ Nat.two_pos) acts
  obtain ⟨_, grows⟩ := (cycle_preserves machine valid).idles idles
  have landed : moving.cycle.2.cursor.position = moving.space.step machine.cursor.position machine.cursor.delta := by
    rw [moves.cycle, ← skips.cursor, ← pends.cursor]
    rfl
  have lands := Space.step_grown_iff growing valid.proper valid.inside (valid.delta.trans valid.position.symm)
    (machine.cycle_grows.trans grows)
  rw [landed]
  refine ⟨moves, pends.moves.trans skips.moves, ?_, lands⟩
  intro unasked
  apply lands.mpr
  by_cases fits : machine.space.extent.Fits
  · have same := skips.extent_unasked pends unasked fits
    refine .inr (.inr ⟨same ▸ fits, ?_⟩)
    intro count holds
    rwa [same] at holds
  · exact .inr (.inl fits)

/-- Fetching takes the next cell and storing writes to it, and two moves are to follow. The
first of them leads to that cell where the grid is complete or no row is needed for it. Where
rows are typed in for it, it does so exactly when that leaves the line behind as it was. -/
theorem skipped_cell_iff (reached : machine.Reached) (growing : machine.dialect.isFunge98 = true)
    (takes : instruction = .fetch ∨ instruction = .store) (carries : machine.CarriesOut instruction) :
    let ahead := machine.cursor.next machine.space
    (instruction = .fetch →
      machine.cycle.2.space = machine.space ∧
        machine.cycle.2.pile = machine.pile.push (Value.ofByte (machine.space.get ahead))) ∧
    (instruction = .store →
      machine.cycle.2.pile = machine.pile.pop.2 ∧
        ∀ place, machine.cycle.2.space.peek place =
          if place = ahead then machine.pile.pop.1.lowByte else machine.space.peek place) ∧
    (machine.space.extent.Fits → machine.space.get ahead = machine.space.peek ahead) ∧
    ∀ calls moving rest, machine.cycle.2.activity calls = moving :: rest →
      moving.Moves ∧ moving.moves = 2 ∧
        (machine.space.complete = true ∨ machine.cursor.delta.y = 0 → moving.cycle.2.cursor.position = ahead) ∧
        (moving.cycle.2.cursor.position = ahead ↔
          machine.space.contains (machine.cursor.position + machine.cursor.delta) = true ∨
            ¬ machine.space.extent.Fits ∨
              moving.space.extent.Fits ∧
                machine.space.KeepsLine moving.space machine.cursor.position machine.cursor.delta) := by
  intro ahead
  have valid : machine.Valid := by
    rcases reached.state with furnished | vacant
    · exact furnished.toValid
    · exact absurd carries.executes.1 vacant.rests
  have unbounded : machine.space.dialect.isTorus = false := by
    rw [Dialect.isTorus, show machine.space.dialect.isFunge98 = true from growing]
    rfl
  have same : (machine.cursor.next machine.space).dimension = machine.space.dimension :=
    (Space.step_dimension (valid.delta.trans valid.position.symm)).trans (valid.position.trans valid.extent.symm)
  refine ⟨?_, ?_, ?_, ?_⟩
  · rintro rfl
    obtain ⟨tracing, after⟩ := carries.fetch
    rw [after]
    exact ⟨rfl, rfl⟩
  · rintro rfl
    obtain ⟨tracing, after⟩ := carries.store
    rw [after]
    exact ⟨rfl, fun _ => Space.peek_put unbounded same _⟩
  · intro fits
    rw [Space.get, if_pos (valid.next fits)]
  · intro calls moving rest acts
    exact (carries.skips valid takes).lands valid unbounded acts

/-- A row of one space is typed in for the move that is to skip the fetched cell, and the move
leads to it. Before there was that row the line led back to the instruction at the top, and
this is what was fetched. -/
theorem skips_row_not_fetched :
    let machine := (interactive .befunge98 (Dice.ofSeed 0)).after [.enter "v", .execute 100, .enter "'", .execute 1]
    machine.CarriesOut .fetch ∧ machine.cycle.2.pile.toss.toList = [Value.ofByte 0x76] ∧
      (machine.cycle.2.activity [.execute 1, .enter " ", .execute 1]).map (·.cycle.2.cursor.position) = [⟨[0, 2]⟩] ∧
      machine.cycle.2.space.peek ⟨[0, 2]⟩ = Space.blank ∧
      (machine.cycle.2.after [.execute 1, .enter " "]).space.peek ⟨[0, 2]⟩ = Space.blank := by
  refine ⟨⟨?_, ?_, ?_⟩, ?_⟩ <;> decide +kernel

/-- In text that is loaded the cell that is fetched is the one that is skipped. -/
theorem loaded_cell_skipped :
    let machine := ofSource ⟨.befunge98, ["'a@"]⟩ (Dice.ofSeed 0)
    machine.cycle.2.pile = machine.pile.push (Value.ofByte 0x61) ∧
      ∃ moving, machine.cycle.2.activity [.execute 1] = [moving] ∧ moving.cycle.2.cursor.position = ⟨[1, 0]⟩ := by
  intro machine
  have reached : machine.Reached := .loaded (show Source.ofLines .befunge98 ["'a@"] = _ by rfl) ⟨by decide, by decide +kernel⟩ _ _
  have carries : machine.CarriesOut .fetch := ⟨by decide +kernel, by decide +kernel, by decide +kernel⟩
  obtain ⟨fetched, _, _, lands⟩ := skipped_cell_iff reached rfl (.inl rfl) carries
  have byte : machine.space.get (machine.cursor.next machine.space) = 0x61 := by decide +kernel
  have ahead : machine.cursor.next machine.space = ⟨[1, 0]⟩ := by decide +kernel
  have one : (machine.cycle.2.activity [.execute 1]).length = 1 := by decide +kernel
  obtain ⟨moving, acts⟩ := List.length_eq_one_iff.mp one
  obtain ⟨_, _, unasked, _⟩ := lands _ _ _ acts
  refine ⟨byte ▸ (fetched rfl).2, moving, acts, (unasked (.inl (by decide +kernel))).trans ahead⟩

end Machine
end Befunge
