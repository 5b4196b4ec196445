import Befunge.Proofs.BufferedRuns
import Befunge.Proofs.ToldFaults

/-! Machines that are run by hand. Whoever runs a machine in budgets of his own, collects
what it shows and types in the next line whenever it asks for something comes to the same
as a session on a buffer. -/

namespace Befunge

/-- Someone who runs a machine until he is told that it has stopped. -/
structure Driver where
  machine : Machine
  input : List String
  output : String := ""
  stopped : Bool := false
  /-- Whether he was told of faults or had no line to type in. -/
  failed : Bool := false

namespace Driver

variable {machine paused later final : Machine} {event : Event} {input read : List String} {output : String}
  {left : Buffer} {budget : Nat} {driver : Driver}

def hear (driver : Driver) : Event × Machine → Driver
  | (.stopped, machine) => { driver with machine, stopped := true }
  | (.faults _, machine) => { driver with machine, failed := true }
  | (.input _, machine) =>
    match driver.input with
    | [] => { driver with machine, failed := true }
    | line :: rest => { driver with machine := machine.enter line, input := rest }
  | (event, machine) => { driver with machine, output := driver.output ++ event.shown }

def turn (driver : Driver) (budget : Nat) : Driver :=
  if driver.stopped then driver else driver.hear (driver.machine.execute budget)

def turns (driver : Driver) (budgets : List Nat) : Driver :=
  budgets.foldl turn driver

theorem turns_add (driver : Driver) (first second budget : Nat) :
    driver.turns (List.replicate (first + second) budget) =
      (driver.turns (List.replicate first budget)).turns (List.replicate second budget) := by
  simp only [turns, List.replicate_add, List.foldl_append]

theorem turns_stopped (stopped : driver.stopped = true) (budgets : List Nat) : driver.turns budgets = driver := by
  induction budgets with
  | nil => rfl
  | cons budget budgets ih =>
    have same : driver.turn budget = driver := if_pos stopped
    simpa only [turns, List.foldl_cons, same] using ih

theorem turn_failed (failed : driver.failed = true) (budget : Nat) : (driver.turn budget).failed = true := by
  simp only [turn]
  split
  · exact failed
  · generalize driver.machine.execute budget = outcome
    obtain ⟨event, paused⟩ := outcome
    cases event with
    | input request =>
      simp only [hear]
      split
      · rfl
      · exact failed
    | faults => rfl
    | running | stopped | print | trace => exact failed

theorem turns_failed (failed : driver.failed = true) (budgets : List Nat) : (driver.turns budgets).failed = true := by
  induction budgets generalizing driver with
  | nil => exact failed
  | cons budget budgets ih => exact ih (turn_failed failed budget)

theorem turn_divisible : Machine.Divisible turn := by
  intro driver first second
  by_cases stopped : driver.stopped
  · left
    simp only [turn, if_pos stopped]
  · simp only [turn, if_neg stopped, Machine.execute_add]
    generalize driver.machine.execute first = outcome
    obtain ⟨event, paused⟩ := outcome
    cases event with
    | running =>
      left
      simp [hear, Event.shown, stopped]
    | _ => exact .inr rfl

/-- Who has stopped after some turns has done so whatever budgets he deals out, in the same
state. -/
theorem stops_anyway {finished : Driver} {budgets others : Nat → Nat} (positive : ∀ index, 0 < budgets index)
    (also : ∀ index, 0 < others index) (stopped : finished.stopped = true) {length : Nat}
    (reached : driver.turns ((List.range length).map budgets) = finished) :
    ∃ count, ∀ length, count ≤ length → driver.turns ((List.range length).map others) = finished := by
  obtain ⟨count, _, single⟩ : ∃ count, length ≤ count ∧ driver.turns _ = driver.turns (List.replicate count 1) :=
    turn_divisible.all_units positive driver length
  rw [reached] at single
  refine ⟨count, ?_⟩
  intro length enough
  -- In single cycles he comes to the same end, and stays there when he goes on.
  obtain ⟨total, longer, same⟩ := turn_divisible.all_units also driver length
  obtain ⟨more, rfl⟩ := Nat.exists_eq_add_of_le (Nat.le_trans enough longer)
  calc driver.turns ((List.range length).map others)
      = driver.turns (List.replicate (count + more) 1) := same
    _ = (driver.turns (List.replicate count 1)).turns (List.replicate more 1) := turns_add _ _ _ _
    _ = finished.turns (List.replicate more 1) := by rw [← single]
    _ = finished := turns_stopped stopped _

theorem turn_serves (executed : machine.execute budget = (event, paused)) (serves : paused.Serves event read later)
    (rest : List String) (output : String) :
    turn { machine, input := read ++ rest, output } budget = { machine := later, input := rest, output := output ++ event.shown } := by
  simp only [turn, executed, Bool.false_eq_true, ↓reduceIte]
  cases serves with
  | running | print | trace => rfl
  | line => simp [hear, Event.shown]
  | number numeral =>
    have waiting := (Machine.execute_asks executed).1
    simp [hear, Event.shown, Machine.enter, waiting, numeral]

theorem turn_breaks {fault : Fault} {rest : List String} (executed : machine.execute budget = (event, paused))
    (breaks : Machine.Breaks event input (.failed fault) rest) (output : String) :
    (turn { machine, input, output } budget).stopped = false ∧
      ((turn { machine, input, output } budget).failed = true ∨
        (turn { machine, input, output } budget).machine.faults ≠ []) := by
  simp only [turn, executed, Bool.false_eq_true, ↓reduceIte]
  cases breaks with
  | told | starved => exact ⟨rfl, .inl rfl⟩
  | unread unread =>
    have waiting := (Machine.execute_asks executed).1
    simp [hear, Machine.enter, waiting, unread]

theorem turns_troubled (running : driver.stopped = false) (trouble : driver.failed = true ∨ driver.machine.faults ≠ [])
    (budgets : List Nat) : (driver.turns budgets).stopped = false ∨ (driver.turns budgets).failed = true := by
  cases budgets with
  | nil => exact .inl running
  | cons budget budgets =>
    have next : (driver.turn budget).failed = true := by
      rcases trouble with failed | some
      · exact turn_failed failed budget
      · simp [turn, running, Machine.execute, some, hear]
    exact .inr (turns_failed next budgets)

/-- Round for round he keeps up with a session. -/
theorem turns_run {rounds : Nat} (passed : machine.run (⟨input, output⟩ : Buffer) rounds = (.unfinished, later, left)) :
    turns { machine, input, output } (List.replicate rounds Machine.roundBudget) =
      { machine := later, input := left.input, output := left.output } := by
  induction rounds generalizing machine input output with
  | zero =>
    cases passed
    rfl
  | succ rounds ih =>
    cases executed : machine.execute Machine.roundBudget with
    | mk event paused =>
      simp only [Machine.run, executed] at passed
      split at passed
      next next between served =>
        obtain ⟨read, rfl, serves, shows⟩ := Machine.serve_buffer served
        rw [← ih passed, shows, ← turn_serves executed serves]
        rfl
      next served =>
        cases passed
        exact absurd (congrArg Prod.fst served) (Machine.serve_unfinished _ _ _)

theorem turn_stops (executed : machine.execute budget = (.stopped, final)) (input : List String) (output : String) :
    turn { machine, input, output } budget = { machine := final, input, output, stopped := true } := by
  simp [turn, executed, hear]

theorem turns_ends (ends : machine.Ends (⟨input, output⟩ : Buffer) .stopped final left) :
    ∃ rounds, turns { machine, input, output } (List.replicate rounds Machine.roundBudget) =
      { machine := final, input := left.input, output := left.output, stopped := true } := by
  obtain ⟨rounds, asking, pending, event, passed, executed, breaks⟩ := ends.breaks
  cases breaks
  refine ⟨rounds + 1, ?_⟩
  rw [turns_add, turns_run passed, ← turn_stops executed]
  rfl

theorem ends_of_turns {rounds : Nat}
    (reached : turns { machine, input, output } (List.replicate rounds Machine.roundBudget) =
      { machine := final, input := left.input, output := left.output, stopped := true }) :
    machine.Ends (⟨input, output⟩ : Buffer) .stopped final left := by
  induction rounds generalizing machine input output with
  | zero => cases congrArg Driver.stopped reached
  | succ rounds ih =>
    have reached : turns (turn { machine, input, output } Machine.roundBudget) (List.replicate rounds Machine.roundBudget) = _ :=
      reached
    cases executed : machine.execute Machine.roundBudget with
    | mk event paused =>
      cases served : paused.serve event (⟨input, output⟩ : Buffer) with
      | mk result between =>
        cases result with
        | ok next =>
          have passed : machine.run (⟨input, output⟩ : Buffer) 1 = (.unfinished, next, between) := by
            simp only [Machine.run, executed, served]
          obtain ⟨read, rfl, serves, shows⟩ := Machine.serve_buffer served
          rw [turn_serves executed serves, ← shows] at reached
          exact (Machine.ends_iff passed).mp (ih reached)
        | error ending =>
          obtain ⟨breaks, silent⟩ := Machine.serve_breaks served
          cases ending with
          | unfinished => cases breaks
          | stopped =>
            cases breaks
            rw [turn_stops executed, turns_stopped rfl] at reached
            obtain ⟨rfl, lines, shown⟩ : paused = final ∧ between.input = left.input ∧ output = left.output := by
              simpa using reached
            rw [lines, shown]
            refine ⟨by simp, 1, ?_⟩
            simp only [Machine.run, executed, Machine.serve]
          | failed fault =>
            obtain ⟨running, trouble⟩ := turn_breaks executed breaks output
            have troubled := turns_troubled running trouble (List.replicate rounds Machine.roundBudget)
            rw [reached] at troubled
            simp at troubled

end Driver

namespace Machine

/-- A session on a buffer ends as it should just when everyone who runs the machine in
budgets of his own, however he deals them out, comes to its stop without faults. He has
typed in as many lines, has seen the same output and is left with the same machine. Nothing
that waits to be told can be there at the start, for the session would have failed. -/
theorem driver_agrees (machine final : Machine) (input : List String) (output : String) (left : Buffer)
    (budgets : Nat → Nat) (positive : ∀ index, 0 < budgets index) :
    machine.Ends (⟨input, output⟩ : Buffer) .stopped final left ↔
      ∃ count, ∀ length, count ≤ length →
        Driver.turns { machine, input, output } ((List.range length).map budgets) =
          { machine := final, input := left.input, output := left.output, stopped := true } := by
  have some : 0 < roundBudget := by decide
  have dealt (rounds : Nat) : List.replicate rounds roundBudget = (List.range rounds).map fun _ => roundBudget := by simp
  constructor
  · intro ends
    obtain ⟨rounds, reached⟩ := Driver.turns_ends ends
    rw [dealt] at reached
    exact Driver.stops_anyway (fun _ => some) positive rfl reached
  · rintro ⟨count, reached⟩
    obtain ⟨rounds, reached⟩ := Driver.stops_anyway positive (fun _ => some) rfl (reached count (Nat.le_refl _))
    have reached := reached rounds (Nat.le_refl _)
    rw [← dealt] at reached
    exact Driver.ends_of_turns reached

/-- An empty line is no character, so another one is typed in, and what is not asked for is
left. -/
theorem short_budgets_echo :
    let machine := ofSource ⟨.befunge98, ["~&.,@"]⟩ (Dice.ofSeed 0)
    ∃ count final, Driver.turns { machine, input := ["", "x", "12", "more"] } ((List.range count).map (· + 1)) =
      { machine := final, input := ["more"], output := "12 x", stopped := true } := by
  intro machine
  obtain ⟨final, ends⟩ : ∃ final, machine.Ends (⟨["", "x", "12", "more"], ""⟩ : Buffer) .stopped final ⟨["more"], "12 x"⟩ :=
    ends_of_run 10 nofun (by decide +kernel) (by decide +kernel)
  obtain ⟨count, driven⟩ := (driver_agrees machine final _ _ _ (· + 1) (fun index => Nat.succ_pos index)).mp ends
  exact ⟨count, final, driven count (Nat.le_refl _)⟩

end Machine
end Befunge
