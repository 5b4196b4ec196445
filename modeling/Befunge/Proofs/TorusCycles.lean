import Befunge.Proofs.GridMotion
import Befunge.Proofs.TypedCycles

/-! Cycles on a torus that is complete. Its instructions turn the cursor toward a heading
and nowhere else, and leave the storage of the program at the origin. -/

namespace Befunge

/-- The instructions that all dialects of the plane have. -/
def Instruction.Basic : Instruction → Prop
  | .fetch | .store | .clear | .beginBlock | .endBlock | .underStack | .reflect | .turnLeft | .turnRight | .compare
  | .setDelta | .jumpForward | .jumpOver | .quit => False
  | _ => True

theorem Instruction.decodeBasic_basic (c : Char) : (decodeBasic c).Basic := by
  unfold decodeBasic
  split
  all_goals first
    | exact trivial
    | split <;> exact trivial

/-- The cursor heads along an axis of the plane, and its storage begins at the origin. -/
structure Cursor.Cardinal (cursor : Cursor) : Prop where
  plane : cursor.position.dimension = 2
  heading : ∃ heading : Heading, cursor.delta = heading.delta 2
  origin : cursor.storageOffset = Vec.zero 2

namespace Cursor

variable {cursor : Cursor}

theorem Cardinal.head (cardinal : cursor.Cardinal) (heading : Heading) : (cursor.head heading).Cardinal where
  plane := cardinal.plane
  heading := ⟨heading, congrArg heading.delta cardinal.plane⟩
  origin := cardinal.origin

theorem Cardinal.axes (cardinal : cursor.Cardinal) : cursor.delta.dimension = cursor.position.dimension := by
  obtain ⟨heading, delta⟩ := cardinal.heading
  rw [delta, cardinal.plane]
  cases heading <;> rfl

theorem Cardinal.advance (cardinal : cursor.Cardinal) (space : Space) : (cursor.advance space).Cardinal where
  plane := (Space.step_dimension cardinal.axes).trans cardinal.plane
  heading := cardinal.heading
  origin := cardinal.origin

theorem Cardinal.toggle (cardinal : cursor.Cardinal) : cursor.toggleStringMode.Cardinal :=
  ⟨cardinal.plane, cardinal.heading, cardinal.origin⟩

theorem cardinal_initial : (initial 2).Cardinal :=
  ⟨rfl, ⟨.east, rfl⟩, rfl⟩

end Cursor

namespace Machine

variable {machine : Machine}

theorem carryOut_cardinal (cardinal : machine.cursor.Cardinal) {instruction : Instruction} (basic : instruction.Basic) :
    (machine.carryOut instruction).2.cursor.Cardinal ∧ (machine.carryOut instruction).1 ≠ .reflect := by
  constructor
  · cases instruction with
    | quote => exact cardinal.toggle
    | go heading => exact cardinal.head heading
    | random | ifHorizontal | ifVertical => exact cardinal.head _
    | put | get | unknown =>
      simp only [carryOut, put, get]
      split <;> exact cardinal
    | fetch | store | clear | beginBlock | endBlock | underStack | reflect | turnLeft | turnRight | compare | setDelta
    | jumpForward | jumpOver | quit => exact absurd basic id
    | _ => exact cardinal
  · intro reflects
    cases instruction with
    | unknown =>
      simp only [carryOut] at reflects
      split at reflects <;> cases reflects
    | fetch | store | clear | beginBlock | endBlock | underStack | reflect | turnLeft | turnRight | compare | setDelta
    | jumpForward | jumpOver | quit => exact basic
    | _ => cases reflects

private theorem settle_cursor (position : Vec) (byte : UInt8) {outcome : Outcome} (other : outcome ≠ .reflect) :
    (machine.settle position byte outcome).2.cursor = machine.cursor := by
  cases outcome with
  | reflect => exact absurd rfl other
  | _ => rfl

theorem step_cardinal (torus : machine.dialect = .befunge93) (cardinal : machine.cursor.Cardinal) :
    machine.step.2.cursor.Cardinal := by
  simp only [step]
  split
  · simp only [readText]
    split
    · exact cardinal.toggle
    · exact cardinal
  · obtain ⟨kept, other⟩ := carryOut_cardinal cardinal (Instruction.decodeBasic_basic (Char.ofUInt8 machine.byte))
    simp only [torus, Instruction.decode]
    rw [settle_cursor _ _ other]
    exact kept

theorem cycle_cardinal (torus : machine.dialect = .befunge93) (cardinal : machine.cursor.Cardinal) :
    machine.cycle.2.cursor.Cardinal := by
  have cycled := machine.cycle_cycled
  generalize machine.cycle.1 = event, machine.cycle.2 = after at cycled
  cases cycled with
  | stopped | waited | asked | traced => exact cardinal
  | moved => exact cardinal.advance machine.space
  | stepped _ _ tracing => exact @step_cardinal { machine with tracing } torus cardinal

/-- A machine whose program runs on a torus that is complete. -/
structure OnTorus (machine : Machine) : Prop extends Valid machine where
  grid : ∃ width height, machine.space.Grid width height
  complete : machine.space.complete = true
  cardinal : machine.cursor.Cardinal

theorem OnTorus.torus (runs : machine.OnTorus) : machine.dialect = .befunge93 := by
  obtain ⟨width, height, grid⟩ := runs.grid
  exact grid.dialect

theorem OnTorus.place (runs : machine.OnTorus) : machine.space.contains machine.cursor.position = true := by
  obtain ⟨width, height, grid⟩ := runs.grid
  exact runs.inside ((Extent.isEmpty_iff_fits runs.proper).mp grid.isEmpty)

theorem OnTorus.withCourse (runs : machine.OnTorus) (tracing : Tracing) (faults : List Fault) :
    OnTorus { machine with tracing, faults } :=
  ⟨runs.toValid.withCourse _ _ tracing faults runs.asks, runs.grid, runs.complete, runs.cardinal⟩

theorem OnTorus.cycle (runs : machine.OnTorus) : machine.cycle.2.OnTorus where
  toValid := cycle_preserves machine runs.toValid
  complete := (cycle_complete machine ⟨runs.torus, runs.complete⟩).2
  cardinal := cycle_cardinal runs.torus runs.cardinal
  grid := by
    obtain ⟨width, height, grid⟩ := runs.grid
    have cycled := machine.cycle_cycled
    generalize machine.cycle.1 = event, machine.cycle.2 = after at cycled
    cases cycled with
    | stopped | waited | asked | moved | traced => exact ⟨width, height, grid⟩
    | stepped _ _ tracing =>
      have stays := @step_stays { machine with tracing } runs.torus
      exact ⟨width, height, (stays.grid grid).1⟩

theorem OnTorus.entered {call : Call} {after : Machine} (runs : machine.OnTorus) (entered : machine.Entered call after) :
    after.OnTorus := by
  have valid : after.Valid := entered_preserves machine call after entered runs.toValid
  cases entered with
  | ignored => exact runs
  | refused | stopped | answered => exact ⟨valid, runs.grid, runs.complete, runs.cardinal⟩
  | row line asked space accepted =>
    have incomplete := Space.addRow_incomplete accepted
    rw [runs.complete] at incomplete
    cases incomplete

theorem OnTorus.call (runs : machine.OnTorus) (call : Call) : (machine.call call).2.OnTorus := by
  rcases machine.call_entered call with ⟨budget, rfl⟩ | entered
  · simp only [Machine.call, execute]
    split
    · exact cycles_preserves (fun _ runs => OnTorus.cycle runs) budget runs
    · exact runs.withCourse _ []
  · exact runs.entered entered

end Machine
end Befunge
