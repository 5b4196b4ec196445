import Befunge.Proofs.InstructionEffects
import Befunge.Proofs.MachineRuns

/-! Where the cursor can be. From the first row of text on it lies inside the known
extent, for as long as every axis of that has a size. -/

namespace Befunge.Machine

variable {machine : Machine}

/-- What no cycle and no entry takes away from a machine that has program text. -/
structure Valid (machine : Machine) : Prop extends Shaped machine where
  proper : machine.space.extent.Proper
  inside : machine.space.extent.Fits → machine.space.contains machine.cursor.position = true
  asks : machine.status = .awaiting .row → machine.dialect.dimension ≠ 1

theorem Valid.steady (valid : machine.Valid) (fits : machine.space.extent.Fits) :
    machine.cursor.Steady machine.space where
  sized := (Extent.isEmpty_iff_fits valid.proper).mpr fits
  inside := valid.inside fits
  axes := valid.delta.trans valid.position.symm

private theorem put_inside (valid : machine.Valid) (place : Vec) (value : Value)
    (fits : (machine.space.put place value).extent.Fits) :
    (machine.space.put place value).contains machine.cursor.position = true := by
  have grows := machine.space.put_grows place value
  exact grows.extent.contains (valid.inside (grows.extent.fits fits))

theorem carryOut_preserves (valid : machine.Valid) (instruction : Instruction) :
    (machine.carryOut instruction).2.Valid := by
  have shaped := carryOut_shaped valid.toShaped instruction
  have course : SameCourse machine _ := carryOut_course instruction
  have effect : Effect machine _ _ := carryOut_effect instruction
  generalize (machine.carryOut instruction).2 = after at *
  have dialect : after.space.dialect = machine.space.dialect := by
    cases effect with
    | write _ place value space => rw [space, (machine.space.put_grows place value).dialect]
    | steer _ space | jump _ space | seek _ space => rw [space]
  refine ⟨shaped, ?_, ?_, ?_⟩
  · cases effect with
    | write _ place value space =>
      rw [space]
      exact (machine.space.put_grows place value).extent.proper valid.proper
    | steer _ space | jump _ space | seek _ space =>
      rw [space]
      exact valid.proper
  · intro fits
    cases effect with
    | write _ place value space cursor =>
      rw [space] at fits ⊢
      rw [cursor]
      exact put_inside valid place value fits
    | steer _ space position =>
      rw [space] at fits ⊢
      rw [position]
      exact valid.inside fits
    | jump count space cursor =>
      rw [space] at fits ⊢
      rw [cursor]
      exact Cursor.Steady.jump count (valid.steady fits)
    | seek moves space cursor =>
      rw [space] at fits ⊢
      rw [cursor]
      exact (Cursor.Steady.seek fence moves (valid.steady fits)).inside
  · intro asking
    rw [course.status] at asking
    rw [Machine.dialect, dialect]
    exact valid.asks asking

theorem Valid.withCourse (valid : machine.Valid) {status : Status} (moves : Nat) (rowReady : Bool)
    (tracing : Tracing) (faults : List Fault)
    (asks : status = .awaiting .row → machine.dialect.dimension ≠ 1) :
    Valid { machine with status, moves, rowReady, tracing, faults } where
  extent := valid.extent
  pile := valid.pile
  position := valid.position
  delta := valid.delta
  offset := valid.offset
  proper := valid.proper
  inside := valid.inside
  asks := asks

private theorem Valid.turn (valid : machine.Valid) {cursor : Cursor} (position : cursor.position = machine.cursor.position)
    (delta : cursor.delta.dimension = machine.cursor.delta.dimension)
    (offset : cursor.storageOffset = machine.cursor.storageOffset) : Valid { machine with cursor } where
  toShaped := valid.toShaped.turn (congrArg _ position) delta (congrArg _ offset)
  proper := valid.proper
  inside fits := by
    have inside := valid.inside fits
    rw [← position] at inside
    exact inside
  asks := valid.asks

private theorem Valid.push (valid : machine.Valid) (value : Value) : (machine.push value).Valid where
  toShaped := valid.toShaped.push value
  proper := valid.proper
  inside := valid.inside
  asks := valid.asks

private theorem settle_preserves (valid : machine.Valid) (position : Vec) (byte : UInt8) {outcome : Outcome}
    (other : outcome ≠ .await .row) : (machine.settle position byte outcome).2.Valid := by
  cases outcome with
  | advance moves => exact valid.withCourse moves _ _ _ valid.asks
  | reflect =>
    have turned : (machine.steer Cursor.reflect).Valid := valid.turn rfl (Vec.dimension_neg _) rfl
    exact turned.withCourse 1 _ _ _ turned.asks
  | emit output => exact valid.withCourse 1 _ _ _ valid.asks
  | await request =>
    apply valid.withCourse
    intro asking
    cases asking
    exact absurd rfl other
  | halt | fail fault => exact valid.withCourse _ _ _ _ nofun

private theorem step_preserves (valid : machine.Valid) : machine.step.2.Valid := by
  simp only [step]
  split
  · simp only [readText]
    split
    · have turned : (machine.steer Cursor.toggleStringMode).Valid := valid.turn rfl rfl rfl
      exact turned.withCourse 1 _ _ _ turned.asks
    · have pushed := valid.push (Value.ofByte machine.byte)
      exact pushed.withCourse 1 _ _ _ pushed.asks
  · exact settle_preserves (carryOut_preserves valid _) _ _ (carryOut_request _)

theorem cycle_preserves (machine : Machine) (valid : machine.Valid) : machine.cycle.2.Valid := by
  have cycled := machine.cycle_cycled
  generalize machine.cycle.1 = event, machine.cycle.2 = after at cycled
  cases cycled with
  | stopped | waited => exact valid
  | asked running pending needs =>
    apply valid.withCourse
    intro _ line
    -- A delta on a line has no vertical part that could ask.
    obtain ⟨components, long⟩ : ∃ c, machine.cursor.delta.components = [c] :=
      List.length_eq_one_iff.mp (valid.delta.trans line)
    obtain ⟨_, vertical⟩ := needs
    simp [Vec.y, Vec.get, long] at vertical
  | moved running pending free =>
    have axes : machine.cursor.delta.dimension = machine.cursor.position.dimension :=
      valid.delta.trans valid.position.symm
    refine ⟨?_, valid.proper, ?_, valid.asks⟩
    · exact ⟨valid.extent, valid.pile, (Space.step_dimension axes).trans valid.position, valid.delta, valid.offset⟩
    · intro fits
      exact (valid.steady fits).step
  | traced => exact valid.withCourse _ _ _ _ valid.asks
  | stepped running due tracing => exact step_preserves (valid.withCourse _ _ tracing _ valid.asks)

theorem entered_preserves (machine : Machine) (call : Call) (after : Machine) (entered : machine.Entered call after)
    (valid : machine.Valid) : after.Valid := by
  cases entered with
  | ignored => exact valid
  | refused line asked fault => exact valid.withCourse _ _ _ _ valid.asks
  | stopped _ faults => exact valid.withCourse _ _ _ _ nofun
  | answered _ request asked other value => exact (valid.push value).withCourse 1 _ _ _ nofun
  | row line asked space accepted =>
    have plane := (Dialect.dimension_cases _).resolve_left (valid.asks asked)
    have grows := Space.addRow_grows (valid.extent.trans plane) accepted
    refine ⟨⟨?_, ?_, ?_, ?_, ?_⟩, grows.extent.proper valid.proper, ?_, nofun⟩
    all_goals simp only [Machine.dialect, grows.dialect]
    · exact grows.extent.dimension.trans valid.extent
    · exact valid.pile
    · exact valid.position
    · exact valid.delta
    · exact valid.offset
    · intro fits
      exact grows.extent.contains (valid.inside (grows.extent.fits fits))

theorem valid_of_origin (memory : Memory)
    (origin : machine.space.contains (Vec.zero machine.dialect.dimension) = true)
    (cursor : machine.cursor = Cursor.initial machine.dialect.dimension)
    (pile : machine.pile = StackStack.initial machine.dialect.dimension memory)
    (other : machine.status ≠ .awaiting .row) : machine.Valid where
  extent := (Extent.dimension_of_contains origin).symm.trans (Vec.dimension_zero _)
  pile := pile ▸ ⟨_, _, StackStack.initial_shows _ _⟩
  position := cursor ▸ Vec.dimension_zero _
  delta := cursor ▸ Vec.dimension_unit _ _ _
  offset := cursor ▸ Vec.dimension_zero _
  proper := Extent.proper_of_contains origin
  inside _ := cursor ▸ origin
  asks asking := absurd asking other

/-- A machine that was given program text, all of it or the first row that is typed
in, of a size that memory can hold. -/
inductive Begun : Machine → Prop
  | loaded {dialect : Dialect} {rows : List String} {source : Source}
      (accepted : Source.ofLines dialect rows = .ok source) (held : (String.join rows).utf8ByteSize < 0x8000000000000000)
      (dice : Dice) (memory : Memory) (policy : UnknownPolicy) (debug : Bool) :
      Begun { ofSource source dice memory with policy, tracing := .ofBool debug }
  | typed {dialect : Dialect} {row : String} {space : Space}
      (accepted : (Space.interactive dialect).addRow row = .ok space) (held : row.utf8ByteSize < 0x8000000000000000)
      (dice : Dice) (memory : Memory) (policy : UnknownPolicy) (debug : Bool) :
      Begun ({ interactive dialect dice memory with policy, tracing := .ofBool debug }.enter row)

theorem Begun.valid (begun : machine.Begun) : machine.Valid := by
  cases begun with
  | @loaded dialect rows source accepted held dice memory policy debug =>
    have same : (Space.load source).dialect = dialect := by
      rw [Space.load_dialect, (Space.ofLines_ok accepted).1]
    have origin := Space.load_contains accepted held
    rw [← same] at origin
    exact valid_of_origin memory origin rfl rfl Status.noConfusion
  | @typed dialect row space accepted held dice memory policy debug =>
    have same : space.dialect = dialect := Space.addRow_dialect accepted
    have origin := Space.addRow_first accepted held
    have entered : ({ interactive dialect dice memory with policy, tracing := .ofBool debug }.enter row) =
        { interactive dialect dice memory with
          policy, tracing := .ofBool debug, space, rowReady := !row.isEmpty, status := .running } := by
      simp [enter, interactive, start, enterRow, accepted]
    rw [entered]
    subst same
    exact valid_of_origin memory origin rfl rfl Status.noConfusion

theorem Begun.after (begun : machine.Begun) (calls : List Call) : (machine.after calls).Valid :=
  after_preserves cycle_preserves (fun _ valid => valid.withCourse _ _ _ _ valid.asks) entered_preserves calls
    begun.valid

/-- In every state that is reached the cursor lies inside an extent of which no axis is
wider than the greatest value. Beyond that width a move is not brought back inside. -/
theorem reached_inside (begun : machine.Begun) (calls : List Call) :
    let reached := machine.after calls
    (reached.space.extent.Fits → reached.space.contains reached.cursor.position = true) ∧
      (reached.space.contains reached.cursor.position = true →
        (reached.space.contains (reached.cursor.next reached.space) = true ↔
          reached.space.extent.Fits ∨
            reached.space.contains (reached.cursor.position + reached.cursor.delta) = true)) := by
  intro reached
  have valid : reached.Valid := begun.after calls
  refine ⟨valid.inside, ?_⟩
  intro inside
  exact Space.step_inside_iff inside (valid.delta.trans valid.position.symm)

/-- A write to the greatest row makes the extent too wide, and a move north leads out
of it. -/
theorem widest_write_leads_outside :
    let machine := ofSource ⟨.befunge98, ["&p^"]⟩ (Dice.ofSeed 0)
    let reached := machine.after [.execute 100, .enterNumber Int64.maxValue, .execute 5]
    Source.ofLines .befunge98 ["&p^"] = .ok ⟨.befunge98, ["&p^"]⟩ ∧
      reached.space.extent = ⟨[⟨0, 2⟩, ⟨0, Int64.maxValue⟩]⟩ ∧ reached.cursor.position = ⟨[2, -1]⟩ ∧
      reached.space.contains reached.cursor.position = false := by
  decide +kernel

/-- A write one row above leaves the extent a size, and the same move leads to that row. -/
theorem second_widest_write_wraps :
    let machine := ofSource ⟨.befunge98, ["&p^"]⟩ (Dice.ofSeed 0)
    let calls := [.execute 100, .enterNumber (Int64.maxValue - 1), .execute 5]
    (machine.after calls).cursor.position = ⟨[2, Int64.maxValue - 1]⟩ ∧
      (machine.after calls).space.contains (machine.after calls).cursor.position = true := by
  intro machine calls
  have begun : machine.Begun :=
    .loaded (show Source.ofLines .befunge98 ["&p^"] = _ by rfl) (by decide +kernel) _ _ .ignore false
  obtain ⟨stays, _⟩ : _ ∧ _ := reached_inside begun calls
  exact ⟨by decide +kernel, stays (by decide +kernel)⟩

end Befunge.Machine
