import Befunge.Proofs.SkippedCells

/-! Jumping over ignored cells. A search along a line may make as many moves as the line has
places, so that it finds the next fence, and its own one again where there is no other. -/

namespace Befunge

namespace Extent

variable {extent : Extent}

theorem area_pos (sized : extent.isEmpty = false) : 0 < extent.area := by
  rw [isEmpty_iff] at sized
  refine List.foldlRecOn (motive := fun area => 0 < area) _ _ Nat.one_pos ?_
  intro area positive span member
  have wide := Nat.mul_pos positive (Nat.pos_of_ne_zero (sized span member))
  simp only [countLimit]
  omega

end Extent

namespace Space

variable {space : Space} {place stride : Vec}

theorem walkBound_returns (growing : space.dialect.isTorus = false) (steady : space.Steady place stride) :
    0 < space.walkBound place stride ∧ (space.step · stride)^[space.walkBound place stride] place = place := by
  cases moving : stride.isZero with
  | true =>
    have uncounted : space.extent.strides? place stride = none := by simp [Extent.strides?, moving]
    refine ⟨?_, Function.iterate_fixed (steady.step_still moving) _⟩
    simp only [walkBound, growing, uncounted]
    exact Extent.area_pos steady.sized
  | false =>
    have lahey : space.Lahey place stride := ⟨steady, growing, moving⟩
    obtain ⟨back, ahead, counted⟩ := lahey.counted
    rw [lahey.walkBound_eq counted]
    exact ⟨Nat.succ_pos _, (lahey.isPeriodicPt_iff counted _).mpr (dvd_refl _)⟩

theorem Steady.iterate (steady : space.Steady place stride) (count : Nat) :
    space.Steady ((space.step · stride)^[count] place) stride := by
  induction count generalizing place with
  | zero => exact steady
  | succ count ih => exact ih steady.stepped

end Space

namespace Cursor

variable {space : Space}

theorem seek_first (cursor : Cursor) (byte : UInt8) (moves : Nat) :
    ∃ count ≤ moves,
      cursor.seek byte space moves = { cursor with position := (space.step · cursor.delta)^[count] cursor.position } ∧
      (∀ fewer < count, 0 < fewer → space.get ((space.step · cursor.delta)^[fewer] cursor.position) ≠ byte) ∧
      (count < moves → 0 < count ∧ space.get ((space.step · cursor.delta)^[count] cursor.position) = byte) := by
  induction moves generalizing cursor with
  | zero => exact ⟨0, Nat.le_refl 0, rfl, nofun, nofun⟩
  | succ moves ih =>
    simp only [seek]
    split
    next found => exact ⟨1, by omega, rfl, by omega, fun _ => ⟨Nat.one_pos, found⟩⟩
    next other =>
      obtain ⟨count, within, arrives, first, found⟩ := ih (cursor.advance space)
      refine ⟨count + 1, by omega, arrives, ?_, ?_⟩
      · intro fewer less positive
        cases fewer with
        | zero => cases positive
        | succ fewer =>
          cases fewer with
          | zero => exact other
          | succ fewer => exact first (fewer + 1) (by omega) (Nat.succ_pos _)
      · intro less
        exact ⟨Nat.succ_pos _, (found (by omega)).2⟩

theorem seek_finds {cursor : Cursor} {byte : UInt8} (growing : space.dialect.isTorus = false) (steady : cursor.Steady space)
    (here : space.get cursor.position = byte) :
    ∃ count, 0 < count ∧ count ≤ space.walkBound cursor.position cursor.delta ∧
      cursor.seek byte space (space.walkBound cursor.position cursor.delta) =
        { cursor with position := (space.step · cursor.delta)^[count] cursor.position } ∧
      space.get ((space.step · cursor.delta)^[count] cursor.position) = byte ∧
      ∀ fewer < count, 0 < fewer → space.get ((space.step · cursor.delta)^[fewer] cursor.position) ≠ byte := by
  obtain ⟨positive, returns⟩ := Space.walkBound_returns growing steady
  obtain ⟨count, within, arrives, first, found⟩ := @seek_first space cursor byte
    (space.walkBound cursor.position cursor.delta)
  rcases Nat.lt_or_eq_of_le within with less | last
  · exact ⟨count, (found less).1, within, arrives, (found less).2, first⟩
  · -- Not to have found it any earlier means to be back at the start.
    subst last
    exact ⟨_, positive, Nat.le_refl _, arrives, returns.symm ▸ here, first⟩

end Cursor

namespace Machine

variable {machine : Machine}

/-- Jumping over ignored cells ends on the first fence that a walk of one or more moves meets,
which is the one it began with at the latest, when the walk has come back to it. Nothing
but the place of the cursor changes, and one move is left to make. -/
theorem next_fence_found (reached : machine.Reached) (growing : machine.dialect.isFunge98 = true)
    (sized : machine.space.isEmpty = false) (executes : machine.Executes) (reads : machine.cursor.stringMode = false)
    (fenced : machine.byte = fence) :
    let walk (count : Nat) := (machine.space.step · machine.cursor.delta)^[count] machine.cursor.position
    let bound := machine.space.walkBound machine.cursor.position machine.cursor.delta
    walk bound = machine.cursor.position ∧
      ∃ count, 0 < count ∧ count ≤ bound ∧ machine.space.peek (walk count) = fence ∧
        (∀ fewer < count, 0 < fewer → machine.space.peek (walk fewer) ≠ fence) ∧
        ∃ tracing, machine.cycle =
          (none, { machine with cursor := { machine.cursor with position := walk count }, moves := 1, tracing }) := by
  intro walk bound
  have valid : machine.Valid := by
    rcases reached.state with furnished | vacant
    · exact furnished.toValid
    · exact absurd executes.1 vacant.rests
  have unbounded : machine.space.dialect.isTorus = false := Dialect.isTorus_of_isFunge98 growing
  have decoded : Instruction.decode machine.dialect machine.byte = .jumpOver := by
    rw [fenced]
    cases dialect : machine.dialect with
    | befunge93 =>
      rw [dialect] at growing
      cases growing
    | unefunge98 | befunge98 => rfl
  have steady := valid.steady ((Extent.isEmpty_iff_fits valid.proper).mp sized)
  have inside (count : Nat) : machine.space.get (walk count) = machine.space.peek (walk count) := by
    rw [Space.get, if_pos (Space.Steady.iterate steady count).inside]
  obtain ⟨count, positive, within, arrives, found, first⟩ := Cursor.seek_finds unbounded steady fenced
  obtain ⟨tracing, same⟩ := CarriesOut.cycle ⟨executes, reads, decoded⟩
  refine ⟨(Space.walkBound_returns unbounded steady).2, count, positive, within, inside count ▸ found, ?_, tracing, ?_⟩
  · intro fewer less some
    rw [← inside]
    exact first fewer less some
  · have jumped : ((machine.retraced tracing).carryOut .jumpOver) =
        (.advance 1, { machine with cursor := { machine.cursor with position := walk count }, tracing }) := by
      simp only [carryOut, jumpOver]
      exact congrArg (fun cursor => (Outcome.advance 1, { machine with cursor, tracing })) arrives
    rw [same, jumped]
    rfl

/-- On a knight's line of two cells the other one holds no fence, so that the jump comes back to
the fence it began with after as many moves as it may make. -/
theorem lone_fence_found_again :
    let machine := (ofSource ⟨.befunge98, ["12x", " ", "   ;"]⟩ (Dice.ofSeed 0)).after [.execute 6]
    machine.cursor.position = ⟨[3, 2]⟩ ∧ machine.space.walkBound machine.cursor.position machine.cursor.delta = 2 ∧
      machine.cycle.2.cursor.position = (machine.space.step · ⟨[1, 2]⟩)^[2] ⟨[3, 2]⟩ ∧
      machine.cycle.2.cursor.position = ⟨[3, 2]⟩ := by
  intro machine
  have loaded : (ofSource ⟨.befunge98, ["12x", " ", "   ;"]⟩ (Dice.ofSeed 0)).Reached :=
    .loaded (show Source.ofLines .befunge98 ["12x", " ", "   ;"] = _ by rfl) ⟨by decide, by decide +kernel⟩ _ _
  have position : machine.cursor.position = ⟨[3, 2]⟩ := by decide +kernel
  have delta : machine.cursor.delta = ⟨[1, 2]⟩ := by decide +kernel
  have bound : machine.space.walkBound ⟨[3, 2]⟩ ⟨[1, 2]⟩ = 2 := by decide +kernel
  have other : machine.space.peek (machine.space.step ⟨[3, 2]⟩ ⟨[1, 2]⟩) ≠ fence := by decide +kernel
  have reached : machine.Reached := loaded.used (.called (.execute 6) trivial)
  obtain ⟨returns, count, positive, within, found, _, tracing, jumped⟩ :=
    next_fence_found reached (by decide +kernel) (by decide +kernel) (by decide +kernel) (by decide +kernel)
      (by decide +kernel)
  simp only [position, delta, bound] at returns within found jumped ⊢
  obtain rfl : count = 2 := by
    have past : count ≠ 1 := by
      rintro rfl
      exact other found
    omega
  rw [jumped]
  exact ⟨trivial, trivial, rfl, returns⟩

end Machine
end Befunge
