import Befunge.Proofs.StoredCells
import Befunge.Proofs.TorusCycles

/-! What always holds on a torus. Whether its text was loaded or is typed in, no program
makes it larger, turns the cursor away from the axes or opens a block, and all that is
written stays inside. -/

namespace Befunge

namespace Space

variable {space after : Space} {width height : Nat} {row : String} {rows : List String}

theorem torus_enclosed {source : Source} (accepted : Source.ofLines .befunge93 rows = .ok source) :
    (load source).Enclosed := by
  obtain ⟨rfl, _, _, low, width, narrow, even⟩ := ofLines_rectangle accepted
  rw [load_eq]
  apply laid_enclosed rfl (Nat.lt_of_le_of_lt low (by decide))
  intro row member
  have same : row.utf8ByteSize = width := even row member
  exact Nat.lt_of_le_of_lt (same ▸ narrow) (by decide)

namespace Grid

theorem origin (grid : space.Grid width height) : space.contains (Vec.zero 2) = true := by
  have wide := grid.wide.1
  have high := grid.high.1
  apply grid.contains_iff.mpr
  simp only [Int64.toInt_zero]
  omega

theorem proper (grid : space.Grid width height) : space.extent.Proper :=
  Extent.proper_of_contains grid.origin

theorem addRow_enclosed (grid : space.Grid width height) (enclosed : space.Enclosed) (more : row.isEmpty = false)
    (accepted : space.addRow row = .ok after) : after.Enclosed := by
  obtain ⟨_, sound, rfl⟩ := addRow_more more accepted
  have narrow := (rowFault?_eq_none_iff.mp (sound grid.torus)).2.2
  apply writeRow_enclosed enclosed grid.extent (Int.le_refl _)
  · rw [grid.isEmpty, if_neg (by decide), grid.below, Int64.toInt_ofNat_of_lt grid.rows_held]
    exact Int.natCast_nonneg _
  · exact Nat.lt_of_le_of_lt narrow (by decide)

theorem first_enclosed (more : row.isEmpty = false) (accepted : (interactive .befunge93).addRow row = .ok after) :
    after.Enclosed := by
  have narrow := (rowFault?_eq_none_iff.mp ((addRow_more more accepted).2.1 rfl)).2.2
  exact Space.first_enclosed accepted (Nat.lt_of_le_of_lt narrow (by decide))

end Grid
end Space

def Outcome.Short : Outcome → Prop
  | .advance moves => moves ≤ 2
  | _ => True

namespace Machine

variable {machine : Machine}

theorem carryOut_basic {instruction : Instruction} (basic : instruction.Basic) :
    (machine.carryOut instruction).1.Short ∧
      (machine.carryOut instruction).2.pile.depth = machine.pile.depth ∧
      (machine.carryOut instruction).2.exitCode = machine.exitCode := by
  cases instruction with
  | swap =>
    refine ⟨Nat.le_succ 1, ?_, rfl⟩
    simp only [carryOut, StackStack.swap]
    split <;> rfl
  | put | get =>
    simp only [carryOut, put, get, push, pop_eq, popVec_eq]
    split <;> exact ⟨Nat.le_succ 1, rfl, rfl⟩
  | unknown =>
    simp only [carryOut]
    split
    · exact ⟨trivial, rfl, rfl⟩
    · exact ⟨Nat.le_succ 1, rfl, rfl⟩
  | printNumber | printChar | readNumber | readChar | halt => exact ⟨trivial, rfl, rfl⟩
  -- The only one that leaves two moves.
  | trampoline => exact ⟨Nat.le_refl 2, rfl, rfl⟩
  | fetch | store | clear | beginBlock | endBlock | underStack | reflect | turnLeft | turnRight | compare | setDelta
  | jumpForward | jumpOver | quit => exact absurd basic id
  | _ => exact ⟨Nat.le_succ 1, rfl, rfl⟩

private theorem settle_short (position : Vec) (byte : UInt8) {outcome : Outcome} (short : outcome.Short)
    (few : machine.moves ≤ 2) :
    (machine.settle position byte outcome).2.moves ≤ 2 ∧
      (machine.settle position byte outcome).2.pile = machine.pile ∧
      (machine.settle position byte outcome).2.exitCode = machine.exitCode := by
  cases outcome with
  | advance moves => exact ⟨short, rfl, rfl⟩
  | reflect | emit => exact ⟨Nat.le_succ 1, rfl, rfl⟩
  | await | halt | fail => exact ⟨few, rfl, rfl⟩

theorem step_basic (torus : machine.dialect = .befunge93) (few : machine.moves ≤ 2) :
    machine.step.2.moves ≤ 2 ∧ machine.step.2.pile.depth = machine.pile.depth ∧
      machine.step.2.exitCode = machine.exitCode := by
  simp only [step]
  split
  · simp only [readText]
    split <;> exact ⟨Nat.le_succ 1, rfl, rfl⟩
  · simp only [torus, Instruction.decode]
    have basic := Instruction.decodeBasic_basic (Char.ofUInt8 machine.byte)
    obtain ⟨short, depth, exitCode⟩ := @carryOut_basic machine _ basic
    have course : SameCourse machine _ := carryOut_course (.decodeBasic (Char.ofUInt8 machine.byte))
    obtain ⟨moves, pile, code⟩ : _ ∧ _ ∧ _ :=
      settle_short machine.cursor.position machine.byte short (course.moves ▸ few)
    exact ⟨moves, (congrArg StackStack.depth pile).trans depth, code.trans exitCode⟩

/-- What always holds of a machine on a torus, from its first row of text on. -/
structure Charted (machine : Machine) : Prop where
  grid : ∃ width height, machine.space.Grid width height
  inside : machine.space.contains machine.cursor.position = true
  enclosed : machine.space.Enclosed
  cardinal : machine.cursor.Cardinal
  few : machine.moves ≤ 2
  single : machine.pile.depth = 1
  exitCode : machine.exitCode = 0

structure Uncharted (machine : Machine) : Prop where
  space : machine.space = .interactive .befunge93
  idle : machine.status = .awaiting .row ∨ machine.status = .halted
  cursor : machine.cursor = Cursor.initial 2
  moves : machine.moves = 0
  single : machine.pile.depth = 1
  exitCode : machine.exitCode = 0

namespace Charted

theorem torus (charted : machine.Charted) : machine.dialect = .befunge93 := by
  obtain ⟨width, height, grid⟩ := charted.grid
  exact grid.dialect

theorem proper (charted : machine.Charted) : machine.space.extent.Proper := by
  obtain ⟨width, height, grid⟩ := charted.grid
  exact grid.proper

theorem withCourse (charted : machine.Charted) (status : Status) {moves : Nat} (few : moves ≤ 2) (rowReady : Bool)
    (tracing : Tracing) (faults : List Fault) : Charted { machine with status, moves, rowReady, tracing, faults } :=
  ⟨charted.grid, charted.inside, charted.enclosed, charted.cardinal, few, charted.single, charted.exitCode⟩

theorem step (charted : machine.Charted) : machine.step.2.Charted := by
  obtain ⟨width, height, grid⟩ := charted.grid
  have stays : Stays machine machine.step.2 := step_stays charted.torus
  obtain ⟨few, depth, exitCode⟩ := step_basic charted.torus charted.few
  refine ⟨⟨width, height, (stays.grid grid).1⟩, ?_, ?_, step_cardinal charted.torus charted.cardinal, few,
    depth.trans charted.single, exitCode.trans charted.exitCode⟩
  · rw [stays.position]
    rcases stays.space with same | ⟨place, value, same⟩
    · rw [same]
      exact charted.inside
    · rw [same]
      exact (Space.put_grows place value).extent.contains charted.inside
  · rcases stays.space with same | ⟨place, value, same⟩
    · rw [same]
      exact charted.enclosed
    · rw [same]
      -- Outside the extent the corner is written, and a grid has one.
      exact Space.put_enclosed charted.enclosed charted.proper place value

theorem cycle (charted : machine.Charted) : machine.cycle.2.Charted := by
  obtain ⟨width, height, grid⟩ := charted.grid
  have cycled := machine.cycle_cycled
  generalize machine.cycle.1 = event, machine.cycle.2 = after at cycled
  cases cycled with
  | stopped | waited => exact charted
  | asked | traced => exact charted.withCourse _ charted.few _ _ _
  | moved =>
    have steady : machine.cursor.Steady machine.space := ⟨grid.isEmpty, charted.inside, charted.cardinal.axes⟩
    have fewer : machine.moves - 1 ≤ 2 := Nat.le_trans (Nat.sub_le _ _) charted.few
    exact ⟨charted.grid, steady.step, charted.enclosed, charted.cardinal.advance _, fewer, charted.single,
      charted.exitCode⟩
  | stepped _ _ tracing =>
    exact (charted.withCourse machine.status charted.few machine.rowReady tracing machine.faults).step

theorem entered {call : Call} {after : Machine} (charted : machine.Charted) (entered : machine.Entered call after) :
    after.Charted := by
  cases entered with
  | ignored => exact charted
  | refused | stopped => exact charted.withCourse _ charted.few _ _ _
  | answered _ request asked other value =>
    exact ⟨charted.grid, charted.inside, charted.enclosed, charted.cardinal, Nat.le_succ 1, charted.single,
      charted.exitCode⟩
  | row line asked space accepted =>
    obtain ⟨width, height, grid⟩ := charted.grid
    have plane : machine.space.extent.dimension = 2 := by simp [grid.extent, Extent.dimension]
    have inside : space.contains machine.cursor.position = true :=
      (Space.addRow_grows plane accepted).extent.contains charted.inside
    cases more : line.isEmpty with
    | true =>
      obtain ⟨_, _, rfl⟩ := Space.addRow_last more accepted
      have completed : Space.Grid { machine.space with complete := true } width height :=
        ⟨grid.dialect, grid.extent, grid.wide, grid.high⟩
      exact ⟨⟨_, _, completed⟩, inside, charted.enclosed, charted.cardinal, charted.few, charted.single,
        charted.exitCode⟩
    | false =>
      exact ⟨⟨_, _, grid.addRow more accepted⟩, inside, grid.addRow_enclosed charted.enclosed more accepted,
        charted.cardinal, charted.few, charted.single, charted.exitCode⟩

end Charted

namespace Uncharted

theorem torus (uncharted : machine.Uncharted) : machine.dialect = .befunge93 :=
  congrArg Space.dialect uncharted.space

theorem rests (uncharted : machine.Uncharted) : machine.status ≠ .running := by
  rcases uncharted.idle with asking | halted
  · simp [asking]
  · simp [halted]

theorem asks (uncharted : machine.Uncharted) {request : Request} (asked : machine.status = .awaiting request) :
    request = .row := by
  rcases uncharted.idle with asking | halted
  · cases asked.symm.trans asking
    rfl
  · cases asked.symm.trans halted

theorem cardinal (uncharted : machine.Uncharted) : machine.cursor.Cardinal := by
  rw [uncharted.cursor]
  exact Cursor.cardinal_initial

theorem few (uncharted : machine.Uncharted) : machine.moves ≤ 2 := by
  rw [uncharted.moves]
  exact Nat.zero_le 2

theorem cycle (uncharted : machine.Uncharted) : machine.cycle.2.Uncharted := by
  have cycled := machine.cycle_cycled
  generalize machine.cycle.1 = event, machine.cycle.2 = after at cycled
  cases cycled with
  | stopped | waited => exact uncharted
  | asked running | moved running | traced running | stepped running => exact absurd running uncharted.rests

theorem entered {call : Call} {after : Machine} (uncharted : machine.Uncharted) (entered : machine.Entered call after) :
    after.Charted ∨ after.Uncharted := by
  cases entered with
  | ignored => exact .inr uncharted
  | stopped =>
    exact .inr ⟨uncharted.space, .inr rfl, uncharted.cursor, uncharted.moves, uncharted.single, uncharted.exitCode⟩
  | refused line asked => cases uncharted.asks asked
  | answered _ request asked other => exact absurd (uncharted.asks asked) other
  | row line asked space accepted =>
    rw [uncharted.space] at accepted
    cases more : line.isEmpty with
    | true =>
      obtain ⟨_, known, _⟩ := Space.addRow_last more accepted
      cases (Space.interactive_isEmpty _).symm.trans known
    | false =>
      have grid := Space.Grid.first more accepted
      have inside : space.contains machine.cursor.position = true := by
        rw [uncharted.cursor]
        exact grid.origin
      exact .inl ⟨⟨_, _, grid⟩, inside, Space.Grid.first_enclosed more accepted, uncharted.cardinal, uncharted.few,
        uncharted.single, uncharted.exitCode⟩

end Uncharted

/-- A torus on which nothing was run yet. Its text was loaded, or is to be typed in. -/
inductive FreshTorus : Machine → Prop
  | loaded {rows : List String} {source : Source} (accepted : Source.ofLines .befunge93 rows = .ok source)
      (dice : Dice) (memory : Memory) (policy : UnknownPolicy) (debug : Bool) :
      FreshTorus { ofSource source dice memory with policy, tracing := .ofBool debug }
  | typed (dice : Dice) (memory : Memory) (policy : UnknownPolicy) (debug : Bool) :
      FreshTorus { interactive .befunge93 dice memory with policy, tracing := .ofBool debug }

theorem FreshTorus.charted (fresh : machine.FreshTorus) : machine.Charted ∨ machine.Uncharted := by
  cases fresh with
  | @loaded rows source accepted dice memory policy debug =>
    obtain ⟨rfl, width, height, grid⟩ := Space.load_grid accepted
    have plane : (Space.load ⟨.befunge93, rows⟩).dialect.dimension = 2 := by
      rw [Space.load_dialect]
      rfl
    have inside : (Space.load ⟨.befunge93, rows⟩).contains
        (Cursor.initial (Space.load ⟨.befunge93, rows⟩).dialect.dimension).position = true := by
      rw [plane]
      exact grid.origin
    have cardinal : (Cursor.initial (Space.load ⟨.befunge93, rows⟩).dialect.dimension).Cardinal := by
      rw [plane]
      exact Cursor.cardinal_initial
    exact .inl ⟨⟨width, height, grid⟩, inside, Space.torus_enclosed accepted, cardinal, Nat.zero_le 2, rfl, rfl⟩
  | typed dice memory policy debug => exact .inr ⟨rfl, .inl rfl, rfl, rfl, rfl, rfl⟩

theorem FreshTorus.after (fresh : machine.FreshTorus) (calls : List Call) :
    (machine.after calls).Charted ∨ (machine.after calls).Uncharted := by
  refine @after_preserves _ (fun machine => machine.Charted ∨ machine.Uncharted) ?_ ?_ ?_ calls fresh.charted
  · rintro machine (charted | uncharted)
    · exact .inl charted.cycle
    · exact .inr uncharted.cycle
  · rintro machine (charted | uncharted)
    · exact .inl (charted.withCourse _ charted.few _ _ _)
    · exact .inr ⟨uncharted.space, uncharted.idle, uncharted.cursor, uncharted.moves, uncharted.single,
        uncharted.exitCode⟩
  · rintro machine call after entered (charted | uncharted)
    · exact .inl (charted.entered entered)
    · exact uncharted.entered entered

theorem cycle_extent {extent : Extent} (machine : Machine)
    (now : machine.dialect = .befunge93 ∧ machine.space.extent = extent) :
    machine.cycle.2.dialect = .befunge93 ∧ machine.cycle.2.space.extent = extent := by
  have cycled := machine.cycle_cycled
  generalize machine.cycle.1 = event, machine.cycle.2 = after at cycled
  cases cycled with
  | stopped | waited | asked | moved | traced => exact now
  | stepped _ _ tracing =>
    obtain ⟨same | ⟨place, value, same⟩, _⟩ := @step_stays { machine with tracing } now.1
    · simp only [Machine.dialect, same]
      exact now
    · have torus : machine.space.dialect.isTorus = true := by
        rw [show machine.space.dialect = .befunge93 from now.1]
        rfl
      simp only [Machine.dialect, same, Space.put_torus torus, (Space.put_grows place value).dialect]
      exact now

/-- Only a row makes a torus larger, and only one that is asked for. -/
theorem call_extent (torus : machine.dialect = .befunge93) {call : Call}
    (changed : (machine.call call).2.space.extent ≠ machine.space.extent) :
    ∃ line, call = .enter line ∧ machine.status = .awaiting .row ∧ line.isEmpty = false ∧
      machine.space.addRow line = .ok (machine.call call).2.space := by
  rcases machine.call_entered call with ⟨budget, rfl⟩ | entered
  · refine absurd ?_ changed
    simp only [Machine.call, execute]
    split
    · exact (cycles_preserves (@cycle_extent machine.space.extent) budget ⟨torus, rfl⟩).2
    · rfl
  · generalize (machine.call call).2 = after at *
    cases entered with
    | ignored | refused | stopped | answered => exact absurd rfl changed
    | row line asked space accepted =>
      refine ⟨line, rfl, asked, ?_, accepted⟩
      apply Bool.eq_false_iff.mpr
      intro last
      obtain ⟨_, _, rfl⟩ := Space.addRow_last last accepted
      exact changed rfl

/-- Whatever is run on a torus and entered into it, the cursor heads along an axis and has
at most two moves to make, no block is open and no exit code given. The extent begins at
the origin and is no larger than a torus can be, the cursor and all cells that are not
blank lie inside, and only a row that is asked for and accepted changes it. -/
theorem torus_bounded (fresh : machine.FreshTorus) (calls : List Call) :
    let reached := machine.after calls
    (∃ heading : Heading, reached.cursor.delta = heading.delta 2) ∧ reached.moves ≤ 2 ∧
      reached.cursor.storageOffset = Vec.zero 2 ∧ reached.pile.depth = 1 ∧ reached.exitCode = 0 ∧
      (∃ width ≤ Dialect.torusWidth, ∃ height ≤ Dialect.torusHeight,
        reached.space.extent = ⟨[⟨0, Int64.ofNat width - 1⟩, ⟨0, Int64.ofNat height - 1⟩]⟩) ∧
      (reached.space.isEmpty = false → reached.space.contains reached.cursor.position = true) ∧
      (∀ place, reached.space.peek place ≠ Space.blank → reached.space.contains place = true) ∧
      ∀ call, (reached.call call).2.space.extent ≠ reached.space.extent →
        ∃ line, call = .enter line ∧ reached.status = .awaiting .row ∧ line.isEmpty = false ∧
          reached.space.addRow line = .ok (reached.call call).2.space := by
  intro reached
  rcases fresh.after calls with charted | uncharted
  · obtain ⟨width, height, grid⟩ := charted.grid
    refine ⟨charted.cardinal.heading, charted.few, charted.cardinal.origin, charted.single, charted.exitCode, ?_,
      fun _ => charted.inside, charted.enclosed, fun _ => call_extent charted.torus⟩
    exact ⟨width, grid.wide.2, height, grid.high.2, grid.extent⟩
  · have space : reached.space = .interactive .befunge93 := uncharted.space
    refine ⟨uncharted.cardinal.heading, uncharted.few, uncharted.cardinal.origin, uncharted.single, uncharted.exitCode,
      ?_, ?_, ?_, fun _ => call_extent uncharted.torus⟩
    · rw [space]
      exact ⟨0, Nat.zero_le _, 0, Nat.zero_le _, rfl⟩
    · intro known
      rw [space, Space.interactive_isEmpty] at known
      cases known
    · rw [space]
      exact Space.interactive_enclosed _

/-- A second row makes the torus larger, so it was asked for. -/
theorem second_row_enlarges :
    let fresh := { interactive .befunge93 (Dice.ofSeed 0) with policy := .halt, tracing := .ofBool false }
    let calls : List Call := [.enter ">v", .execute 10]
    (fresh.after calls).space.contains (fresh.after calls).cursor.position = true ∧
      ((fresh.after calls).call (.enter " @")).2.space.extent = ⟨[⟨0, 1⟩, ⟨0, 1⟩]⟩ ∧
      (fresh.after calls).status = .awaiting .row := by
  intro fresh calls
  have start : fresh.FreshTorus := .typed (Dice.ofSeed 0) .ample .halt false
  obtain ⟨_, _, _, _, _, _, inside, _, enlarged⟩ : _ ∧ _ ∧ _ ∧ _ ∧ _ ∧ _ ∧ _ ∧ _ ∧ _ := torus_bounded start calls
  have larger : ((fresh.after calls).call (.enter " @")).2.space.extent = ⟨[⟨0, 1⟩, ⟨0, 1⟩]⟩ := by decide +kernel
  have before : (fresh.after calls).space.extent = ⟨[⟨0, 1⟩, ⟨0, 0⟩]⟩ := by decide +kernel
  have changed : ((fresh.after calls).call (.enter " @")).2.space.extent ≠ (fresh.after calls).space.extent := by
    rw [larger, before]
    decide
  obtain ⟨_, _, asked, _⟩ := enlarged (.enter " @") changed
  exact ⟨inside (by decide +kernel), larger, asked⟩

end Machine
end Befunge
