import Befunge.Proofs.TorusCycles

/-! Befunge-98 runs the programs of Befunge-93. As long as a program on a torus writes no
cell, reads none outside and has no byte that the smaller dialect lacks, each cycle is
the same cycle in a space that could grow. -/

namespace Befunge

theorem Instruction.decodeExtended_eq {c : Char} (known : decodeBasic c ≠ .unknown) : decodeExtended c = decodeBasic c := by
  unfold decodeExtended
  split
  all_goals first
    | rfl
    | exact absurd rfl known

theorem Stack.popMany_two (stack : Stack) :
    stack.popMany 2 = ([stack.pop.2.pop.1, stack.pop.1], stack.pop.2.pop.2) := by
  obtain ⟨values⟩ := stack
  match values with
  | [] | [_] => rfl
  | two :: one :: rest => simp [popMany, size, pop]

namespace StackStack

theorem setToss_setToss (pile : StackStack) (first second : Stack) :
    (pile.setToss first).setToss second = pile.setToss second := by
  simp [setToss, setSlot]

theorem popVec_plane {pile : StackStack} (opened : pile.Open 2) :
    pile.popVec = (⟨[pile.pop.2.pop.1, pile.pop.1]⟩, pile.pop.2.pop.2) := by
  obtain ⟨toss, rest, shows⟩ := opened
  have below : (pile.setToss toss.pop.2).toss = toss.pop.2 := (shows.setToss _).active
  simp only [popVec, popMany, pop, shows.dimension, shows.active, Stack.popMany_two, below, setToss_setToss]

end StackStack

theorem Space.addRow_complete {space : Space} (complete : space.complete = true) (row : String) :
    space.addRow row = .error { kind := .gridComplete } := by
  simp [addRow, complete]

namespace Machine

variable {machine : Machine}

def widened (machine : Machine) (policy : UnknownPolicy) : Machine :=
  { machine with policy, space := machine.space.under .befunge98 }

/-- An instruction that means the same in both dialects. No cell is written, and none is
read outside the extent. -/
def Shares (machine : Machine) (instruction : Instruction) : Prop :=
  instruction ≠ .put ∧ instruction ≠ .unknown ∧
    (instruction = .get → machine.space.contains ⟨[machine.pop.2.pop.1, machine.pop.1]⟩ = true)

instance (instruction : Instruction) : Decidable (machine.Shares instruction) :=
  inferInstanceAs (Decidable (_ ∧ _))

def Shared (machine : Machine) : Prop :=
  machine.status = .running → machine.moves = 0 → machine.tracing ≠ .due → machine.cursor.stringMode = false →
    machine.Shares (.decode .befunge93 machine.byte)

instance : DecidablePred Shared :=
  fun _ => inferInstanceAs (Decidable (_ → _))

def SharedFor (machine : Machine) : Nat → Prop
  | 0 => True
  | budget + 1 => machine.Shared ∧ (machine.cycle.1 = none → machine.cycle.2.SharedFor budget)

/-- The cycles of a history of calls carry out shared instructions only. -/
def SharedThrough (machine : Machine) : List Call → Prop
  | [] => True
  | .execute budget :: calls =>
    (machine.faults = [] → machine.SharedFor budget) ∧ (machine.call (.execute budget)).2.SharedThrough calls
  | call :: calls => (machine.call call).2.SharedThrough calls

instance SharedFor.decidable : (machine : Machine) → (budget : Nat) → Decidable (machine.SharedFor budget)
  | _, 0 => isTrue trivial
  | machine, budget + 1 =>
    have := decidable machine.cycle.2 budget
    inferInstanceAs (Decidable (_ ∧ _))

instance SharedThrough.decidable : (machine : Machine) → (calls : List Call) → Decidable (machine.SharedThrough calls)
  | _, [] => isTrue trivial
  | machine, .execute budget :: calls =>
    have := decidable (machine.call (.execute budget)).2 calls
    inferInstanceAs (Decidable ((_ → _) ∧ _))
  | machine, .enter line :: calls => decidable (machine.call (.enter line)).2 calls
  | machine, .enterNumber number :: calls => decidable (machine.call (.enterNumber number)).2 calls
  | machine, .enterChar c :: calls => decidable (machine.call (.enterChar c)).2 calls
  | machine, .interrupt :: calls => decidable (machine.call .interrupt).2 calls

variable {policy : UnknownPolicy}

theorem get_widened (runs : machine.OnTorus)
    (inside : machine.space.contains ⟨[machine.pop.2.pop.1, machine.pop.1]⟩ = true) :
    (machine.widened policy).get = machine.get.widened policy := by
  have torus : machine.dialect.isTorus = true := by
    rw [runs.torus]
    rfl
  have plane : machine.pile.Open 2 := by
    have opened := runs.pile
    rwa [runs.torus] at opened
  have popped : (machine.widened policy).popVec =
      (⟨[machine.pop.2.pop.1, machine.pop.1]⟩, machine.pop.2.pop.2.widened policy) := by
    rw [popVec_eq, show (machine.widened policy).pile.popVec = _ from StackStack.popVec_plane plane]
    rfl
  have place (x y : Value) : (⟨[x, y]⟩ : Vec) + Vec.zero 2 = ⟨[x, y]⟩ := by
    show (⟨[x + 0, y + 0]⟩ : Vec) = _
    rw [Int64.add_zero, Int64.add_zero]
  have growing : (machine.widened policy).dialect.isTorus = false := rfl
  have offset : (machine.pop.2.pop.2.widened policy).cursor.storageOffset = Vec.zero 2 := runs.cardinal.origin
  have held : machine.pop.2.pop.2.space.contains ⟨[machine.pop.2.pop.1, machine.pop.1]⟩ = true := inside
  simp only [get, torus, growing, Bool.false_eq_true, ↓reduceIte, popped, offset, place, held]
  rfl

theorem carryOut_widened (runs : machine.OnTorus) {instruction : Instruction} (basic : instruction.Basic)
    (shares : machine.Shares instruction) :
    (machine.widened policy).carryOut instruction =
      ((machine.carryOut instruction).1, (machine.carryOut instruction).2.widened policy) := by
  obtain ⟨noPut, known, inside⟩ := shares
  cases instruction with
  | put => exact absurd rfl noPut
  | unknown => exact absurd rfl known
  | get => exact congrArg (Prod.mk _) (get_widened runs (inside rfl))
  | fetch | store | clear | beginBlock | endBlock | underStack | reflect | turnLeft | turnRight | compare | setDelta
  | jumpForward | jumpOver | quit => exact absurd basic id
  | _ => rfl

theorem step_widened (runs : machine.OnTorus)
    (shares : machine.cursor.stringMode = false → machine.Shares (.decode .befunge93 machine.byte)) :
    (machine.widened policy).step = (machine.step.1, machine.step.2.widened policy) := by
  have reads : (machine.widened policy).cursor.stringMode = machine.cursor.stringMode := rfl
  simp only [step, reads]
  split
  · have byte : (machine.widened policy).byte = machine.byte := rfl
    simp only [readText, byte]
    split <;> rfl
  next executes =>
    have shares := shares (Bool.eq_false_iff.mpr executes)
    have same : Instruction.decode (machine.widened policy).dialect (machine.widened policy).byte =
        .decode .befunge93 machine.byte :=
      Instruction.decodeExtended_eq shares.2.1
    have basic : Instruction.Basic (.decode .befunge93 machine.byte) := Instruction.decodeBasic_basic _
    rw [same, carryOut_widened runs basic shares, runs.torus]
    generalize machine.carryOut (.decode .befunge93 machine.byte) = result
    obtain ⟨outcome, after⟩ := result
    cases outcome <;> rfl

theorem advance_widened (runs : machine.OnTorus) : (machine.widened policy).advance = machine.advance.widened policy := by
  obtain ⟨width, height, grid⟩ := runs.grid
  obtain ⟨heading, delta⟩ := runs.cardinal.heading
  have next : (machine.widened policy).cursor.next (machine.widened policy).space = machine.cursor.next machine.space := by
    show (machine.space.under .befunge98).step machine.cursor.position machine.cursor.delta = _
    rw [delta, grid.step_heading runs.place, Cursor.next, delta]
  have complete : (machine.widened policy).space.complete = true := runs.complete
  simp only [advance, runs.complete, complete, Bool.not_true, Bool.false_and, Bool.false_eq_true, ↓reduceIte,
    Cursor.advance, next]
  rfl

theorem cycle_widened (runs : machine.OnTorus) (shared : machine.Shared) :
    (machine.widened policy).cycle = (machine.cycle.1, machine.cycle.2.widened policy) := by
  -- A step is taken after tracing was set for the next one.
  have stepped (tracing : Tracing) (running : machine.status = .running) (ready : machine.moves = 0)
      (due : machine.tracing ≠ .due) := @step_widened { machine with tracing } policy (runs.withCourse tracing _)
        (shared running ready due)
  have advanced := @advance_widened machine policy runs
  obtain ⟨_, space, pile, cursor, status, moves, rowReady, tracing, dice, exitCode, faults⟩ := machine
  cases status with
  | halted | awaiting request => rfl
  | running =>
    cases moves with
    | succ moves => exact congrArg (Prod.mk _) advanced
    | zero =>
      cases tracing with
      | due => rfl
      | shown => exact stepped .due rfl rfl nofun
      | off => exact stepped .off rfl rfl nofun

theorem cycles_widened {budget : Nat} (runs : machine.OnTorus) (shared : machine.SharedFor budget) :
    (machine.widened policy).cycles budget =
      ((machine.cycles budget).1, (machine.cycles budget).2.widened policy) := by
  induction budget generalizing machine with
  | zero => rfl
  | succ budget ih =>
    obtain ⟨now, later⟩ := shared
    have next := runs.cycle
    simp only [cycles, cycle_widened runs now]
    generalize machine.cycle = outcome at *
    obtain ⟨event, after⟩ := outcome
    cases event with
    | some event => rfl
    | none => exact ih next (later rfl)

private theorem enterNumber_widened (number : Value) :
    (machine.widened policy).enterNumber number = (machine.enterNumber number).widened policy := by
  have status : (machine.widened policy).status = machine.status := rfl
  simp only [enterNumber, status]
  split <;> rfl

private theorem enterChar_widened (c : Char) :
    (machine.widened policy).enterChar c = (machine.enterChar c).widened policy := by
  have status : (machine.widened policy).status = machine.status := rfl
  simp only [enterChar, status]
  split <;> rfl

private theorem enterRow_widened (complete : machine.space.complete = true) (row : String) :
    (machine.widened policy).enterRow row = (machine.enterRow row).widened policy := by
  have wider : (machine.widened policy).space.addRow row = .error { kind := .gridComplete } :=
    Space.addRow_complete (show (machine.widened policy).space.complete = true from complete) row
  simp only [enterRow, wider, Space.addRow_complete complete]
  rfl

private theorem enter_widened (complete : machine.space.complete = true) (line : String) :
    (machine.widened policy).enter line = (machine.enter line).widened policy := by
  have status : (machine.widened policy).status = machine.status := rfl
  simp only [enter, status]
  split
  next asked =>
    split
    · exact enterNumber_widened _
    · rfl
  next asked =>
    split
    · rfl
    · exact enterChar_widened _
  next asked => exact enterRow_widened complete line
  · rfl
  · rfl

theorem call_widened {call : Call} {calls : List Call} (runs : machine.OnTorus)
    (shared : machine.SharedThrough (call :: calls)) :
    (machine.widened policy).call call = ((machine.call call).1, (machine.call call).2.widened policy) ∧
      (machine.call call).2.SharedThrough calls := by
  cases call with
  | execute budget =>
    refine ⟨?_, shared.2⟩
    have held : (machine.widened policy).faults = machine.faults := rfl
    simp only [call, execute, held]
    split
    next none => rw [cycles_widened runs (shared.1 (by simpa using none))]
    next some => rfl
  | enter line => exact ⟨congrArg (Prod.mk _) (enter_widened runs.complete line), shared⟩
  | enterNumber number => exact ⟨congrArg (Prod.mk _) (enterNumber_widened number), shared⟩
  | enterChar c => exact ⟨congrArg (Prod.mk _) (enterChar_widened c), shared⟩
  | interrupt =>
    have status : (machine.widened policy).status = machine.status := rfl
    refine ⟨?_, shared⟩
    simp only [call, interrupt, status]
    split <;> rfl

theorem after_widened {calls : List Call} (runs : machine.OnTorus) (shared : machine.SharedThrough calls) :
    (machine.widened policy).replies calls = machine.replies calls ∧
      (machine.widened policy).after calls = (machine.after calls).widened policy := by
  induction calls generalizing machine with
  | nil => exact ⟨rfl, rfl⟩
  | cons call calls ih =>
    obtain ⟨called, rest⟩ := @call_widened machine policy call calls runs shared
    obtain ⟨replies, last⟩ := ih (runs.call call) rest
    constructor
    · simp only [Machine.replies, called, replies]
    · show ((machine.widened policy).call call).2.after calls = _
      rw [called]
      exact last

theorem onTorus_loaded {rows : List String} {source : Source} (accepted : Source.ofLines .befunge93 rows = .ok source)
    (dice : Dice) (memory : Memory) (policy : UnknownPolicy) (tracing : Tracing) :
    OnTorus { ofSource source dice memory with policy, tracing } := by
  obtain ⟨_, width, height, grid⟩ := Space.load_grid accepted
  have plane : (Space.load source).dialect.dimension = 2 := by
    rw [grid.dialect]
    rfl
  have origin : (Space.load source).contains (Vec.zero 2) = true := by
    have wide := grid.wide.1
    have high := grid.high.1
    refine grid.contains_iff.mpr ⟨?_, ?_⟩ <;> simp only [Int64.toInt_zero] <;> omega
  refine ⟨valid_of_origin memory ?_ rfl rfl nofun, ⟨width, height, grid⟩, rfl, ?_⟩
  · rw [← plane] at origin
    exact origin
  · show (Cursor.initial (Space.load source).dialect.dimension).Cardinal
    rw [plane]
    exact Cursor.cardinal_initial

/-- What shows of two machines that run alike. -/
structure Alike (first second : Machine) : Prop where
  position : second.cursor.position = first.cursor.position
  delta : second.cursor.delta = first.cursor.delta
  stringMode : second.cursor.stringMode = first.cursor.stringMode
  toss : second.pile.toss = first.pile.toss
  depth : second.pile.depth = first.pile.depth
  cells : second.space.cells = first.space.cells
  extent : second.space.extent = first.space.extent
  status : second.status = first.status

/-- Whatever text the torus accepts, and whatever it is then asked and answered, the
larger dialect replies the same and shows the same, for as long as both share the
instructions that are carried out. -/
theorem befunge98_extends_befunge93 (rows : List String) (source : Source)
    (accepted : Source.ofLines .befunge93 rows = .ok source) (dice : Dice) (memory : Memory)
    (policy wider : UnknownPolicy) (debug : Bool) (calls : List Call) :
    let torus : Machine := { ofSource source dice memory with policy, tracing := .ofBool debug }
    let growing : Machine := { ofSource ⟨.befunge98, rows⟩ dice memory with policy := wider, tracing := .ofBool debug }
    torus.SharedThrough calls →
      Source.ofLines .befunge98 rows = .ok ⟨.befunge98, rows⟩ ∧ growing.replies calls = torus.replies calls ∧
        Alike (torus.after calls) (growing.after calls) := by
  intro torus growing shared
  have runs : torus.OnTorus := onTorus_loaded accepted dice memory policy _
  obtain ⟨rfl, width, height, grid⟩ := Space.load_grid accepted
  have same : growing = torus.widened wider := by
    simp only [growing, torus, ofSource, start, widened, Space.load_under, grid.dialect]
    rfl
  obtain ⟨replies, last⟩ := @after_widened torus wider calls runs shared
  have wide : Source.growingFault? rows = none := by
    obtain ⟨_, row, member, some⟩ := Space.ofLines_ok accepted
    exact Source.growingFault?_eq_none_iff.mpr ⟨row, member, Nat.ne_of_gt some⟩
  rw [same, last]
  refine ⟨?_, replies, ⟨rfl, rfl, rfl, rfl, rfl, rfl, rfl, rfl⟩⟩
  simp [Source.ofLines, wide, Dialect.isTorus, Dialect.isFunge98]

/-- A number is asked for and printed, a cell is read and printed, and the way leads
round both axes. -/
theorem echo_runs_alike :
    let rows := ["&:.00g,^", "@      >"]
    let calls : List Call :=
      [.execute 100, .enterNumber 5, .execute 100, .execute 100, .execute 100]
    let torus : Machine := { ofSource ⟨.befunge93, rows⟩ (Dice.ofSeed 0) with policy := .halt, tracing := .ofBool false }
    let growing : Machine :=
      { ofSource ⟨.befunge98, rows⟩ (Dice.ofSeed 0) with policy := .ignore, tracing := .ofBool false }
    torus.replies calls =
        [some (.input .number), none, some (.print (.number 5)), some (.print (.char '&')), some .stopped] ∧
      growing.replies calls = torus.replies calls ∧ (growing.after calls).cursor.position = ⟨[0, 1]⟩ := by
  intro rows calls torus growing
  have accepted : Source.ofLines .befunge93 rows = .ok ⟨.befunge93, rows⟩ := by decide +kernel
  have shared : torus.SharedThrough calls := by decide +kernel
  have both : Source.ofLines .befunge98 rows = .ok ⟨.befunge98, rows⟩ ∧ growing.replies calls = torus.replies calls ∧
      Alike (torus.after calls) (growing.after calls) :=
    befunge98_extends_befunge93 rows _ accepted (Dice.ofSeed 0) .ample .halt .ignore false calls shared
  refine ⟨by decide +kernel, both.2.1, ?_⟩
  rw [both.2.2.position]
  decide +kernel

end Machine
end Befunge
