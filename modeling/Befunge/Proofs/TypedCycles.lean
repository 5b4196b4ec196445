import Befunge.Proofs.CursorInside
import Befunge.Proofs.TypedGrid

/-! Cycles on a torus that is typed in. A row that was entered is used up by the next
move, and a move down that has none stops the machine until one is entered. -/

namespace Befunge.Machine

variable {machine : Machine}

/-- A torus with some rows, to which more can be added. -/
structure Typed (machine : Machine) : Prop extends Valid machine where
  grid : ∃ width height, machine.space.Grid width height
  unfinished : machine.space.complete = false

structure Opening (machine : Machine) : Prop where
  single : machine.space.height = 1
  origin : machine.cursor.position = Vec.zero 2

/-- No row is asked for, and only before the first move is one at hand. -/
structure Free (machine : Machine) : Prop extends Typed machine where
  other : machine.status ≠ .awaiting .row
  spent : machine.rowReady = true → machine.Opening

structure Stays (machine after : Machine) : Prop where
  space : after.space = machine.space ∨ ∃ place value, after.space = machine.space.put place value
  position : after.cursor.position = machine.cursor.position
  rowReady : after.rowReady = machine.rowReady
  asked : after.status = .awaiting .row → machine.status = .awaiting .row

private theorem decodeBasic_stays (c : Char) :
    Instruction.decodeBasic c ≠ .jumpForward ∧ Instruction.decodeBasic c ≠ .jumpOver := by
  unfold Instruction.decodeBasic
  split
  all_goals first
    | exact ⟨Instruction.noConfusion, Instruction.noConfusion⟩
    | split <;> exact ⟨Instruction.noConfusion, Instruction.noConfusion⟩

private theorem carryOut_stays (c : Char) : Stays machine (machine.carryOut (.decodeBasic c)).2 := by
  have course : SameCourse machine _ := carryOut_course (.decodeBasic c)
  have effect : Effect machine _ _ := carryOut_effect (.decodeBasic c)
  obtain ⟨noJump, noSeek⟩ := decodeBasic_stays c
  have asked : (machine.carryOut (.decodeBasic c)).2.status = .awaiting .row → machine.status = .awaiting .row :=
    fun asking => course.status ▸ asking
  generalize Instruction.decodeBasic c = instruction at *
  cases effect with
  | steer _ space position => exact ⟨.inl space, position, course.rowReady, asked⟩
  | write _ place value space cursor =>
    exact ⟨.inr ⟨place, value, space⟩, congrArg _ cursor, course.rowReady, asked⟩
  | jump => exact absurd rfl noJump
  | seek => exact absurd rfl noSeek

private theorem settle_stays (position : Vec) (byte : UInt8) {outcome : Outcome} (other : outcome ≠ .await .row)
    {before : Machine} (stays : Stays before machine) : Stays before (machine.settle position byte outcome).2 := by
  obtain ⟨space, place, rowReady, asked⟩ := stays
  cases outcome with
  | advance | reflect | emit => exact ⟨space, place, rowReady, asked⟩
  | await request =>
    refine ⟨space, place, rowReady, ?_⟩
    intro asking
    cases asking
    exact absurd rfl other
  | halt | fail => exact ⟨space, place, rowReady, nofun⟩

theorem step_stays (torus : machine.dialect = .befunge93) : Stays machine machine.step.2 := by
  simp only [step]
  split
  · simp only [readText]
    split <;> exact ⟨.inl rfl, rfl, rfl, id⟩
  · simp only [torus, Instruction.decode]
    exact settle_stays _ _ (carryOut_request _) (carryOut_stays _)

theorem Stays.grid {after : Machine} {width height : Nat} (stays : Stays machine after)
    (grid : machine.space.Grid width height) :
    after.space.Grid width height ∧ after.space.complete = machine.space.complete := by
  rcases stays.space with same | ⟨place, value, same⟩
  · rw [same]
    exact ⟨grid, rfl⟩
  · rw [same]
    exact ⟨grid.put place value, Space.put_complete place value⟩

theorem Free.stay {after : Machine} (typed : machine.Typed) (other : machine.status ≠ .awaiting .row)
    (spent : machine.rowReady = true → machine.Opening) (valid : after.Valid) (stays : Stays machine after) :
    after.Free := by
  obtain ⟨width, height, grid⟩ := typed.grid
  have kept := stays.grid grid
  refine ⟨⟨valid, ⟨width, height, kept.1⟩, kept.2.trans typed.unfinished⟩, fun asking => other (stays.asked asking), ?_⟩
  intro ready
  rw [stays.rowReady] at ready
  obtain ⟨single, origin⟩ := spent ready
  refine ⟨?_, stays.position.trans origin⟩
  rw [kept.1.height_eq, ← grid.height_eq, single]

structure Asking (machine : Machine) : Prop where
  running : machine.status = .running
  pending : 0 < machine.moves
  asks : machine.cycle = (none, { machine with status := .awaiting .row })

private theorem cycle_course (typed : machine.Typed) (running : machine.status = .running)
    (spent : machine.rowReady = true → machine.Opening ∨ 0 < machine.moves) :
    machine.cycle.2.Free ∨ machine.Asking := by
  have valid := cycle_preserves machine typed.toValid
  have cycled := machine.cycle_cycled
  have other : machine.status ≠ .awaiting .row := by simp [running]
  generalize same : machine.cycle = outcome at *
  obtain ⟨event, after⟩ := outcome
  cases cycled with
  | stopped halted => cases running.symm.trans halted
  | waited request waiting => cases running.symm.trans waiting
  | asked _ pending needs => exact .inr ⟨running, pending, same⟩
  | moved => exact .inl ⟨⟨valid, typed.grid, typed.unfinished⟩, other, nofun⟩
  | traced _ due =>
    refine .inl ⟨⟨valid, typed.grid, typed.unfinished⟩, other, ?_⟩
    intro ready
    obtain ⟨single, origin⟩ := (spent ready).resolve_right (by omega)
    exact ⟨single, origin⟩
  | stepped _ due tracing =>
    obtain ⟨width, height, grid⟩ := typed.grid
    obtain ⟨space, position, rowReady, asked⟩ := @step_stays { machine with tracing } grid.dialect
    refine .inl (Free.stay typed other ?_ valid ⟨space, position, rowReady, asked⟩)
    intro ready
    exact (spent ready).resolve_right (by omega)

theorem cycles_course (budget : Nat) (typed : machine.Typed) (running : machine.status = .running)
    (spent : machine.rowReady = true → machine.Opening ∨ 0 < machine.moves) (positive : 0 < budget) :
    (machine.cycles budget).2.Free ∨
      ∃ steps asking, steps < budget ∧ machine.cycles steps = (.running, asking) ∧ asking.Typed ∧ asking.Asking ∧
        (machine.cycles budget).2 = { asking with status := .awaiting .row } := by
  induction budget generalizing machine with
  | zero => cases positive
  | succ budget ih =>
    rcases cycle_course typed running spent with free | asking
    · simp only [cycles]
      split
      next event after same =>
        rw [same] at free
        exact .inl free
      next after same =>
        rw [same] at free
        -- A free machine that runs on has used its row up or not moved yet.
        by_cases goesOn : after.status = .running ∧ 0 < budget
        · have spent : after.rowReady = true → after.Opening ∨ 0 < after.moves := fun ready => .inl (free.spent ready)
          rcases ih free.toTyped goesOn.1 spent goesOn.2 with later | ⟨steps, asking, less, reached, asks⟩
          · exact .inl later
          · exact .inr ⟨steps + 1, asking, by omega, by simp only [cycles, same, reached], asks⟩
        · left
          rcases Nat.eq_zero_or_pos budget with rfl | some
          · exact free
          · rw [cycles_rest (fun still => goesOn ⟨still, some⟩)]
            exact free
    · refine .inr ⟨0, machine, by omega, rfl, typed, asking, ?_⟩
      simp only [cycles, asking.asks]
      exact cycles_rest (by simp) budget

theorem cycle_complete (machine : Machine)
    (complete : machine.dialect = .befunge93 ∧ machine.space.complete = true) :
    machine.cycle.2.dialect = .befunge93 ∧ machine.cycle.2.space.complete = true := by
  have cycled := machine.cycle_cycled
  generalize machine.cycle = outcome at cycled ⊢
  obtain ⟨event, after⟩ := outcome
  cases cycled with
  | stopped | waited | asked | moved | traced => exact complete
  | stepped _ due tracing =>
    obtain ⟨same | ⟨place, value, same⟩, _⟩ := @step_stays { machine with tracing } complete.1
    · simp only [Machine.dialect, same]
      exact complete
    · simp only [Machine.dialect, same, Space.put_complete, (Space.put_grows place value).dialect]
      exact complete

end Befunge.Machine
