import Befunge.Proofs.InstructionEffects
import Befunge.Proofs.MachineRuns

/-! How the cycles are dealt out in budgets makes no difference. A run that is broken off
goes on as if it had not been, and all that a caller is told comes in the same order. -/

namespace Befunge.Machine

variable {machine : Machine}

private theorem settle_told (position : Vec) (byte : UInt8) (outcome : Outcome) :
    (machine.settle position byte outcome).1 ≠ some .running ∧
      (machine.settle position byte outcome).2.faults = machine.faults := by
  cases outcome <;> simp [settle, steer]

private theorem step_told : machine.step.1 ≠ some .running ∧ machine.step.2.faults = machine.faults := by
  simp only [step]
  split
  · refine ⟨nofun, ?_⟩
    simp only [readText]
    split <;> rfl
  · obtain ⟨quiet, faults⟩ := settle_told machine.cursor.position machine.byte _
    exact ⟨quiet, faults.trans (carryOut_course _).faults⟩

theorem cycle_told (machine : Machine) :
    machine.cycle.1 ≠ some .running ∧ machine.cycle.2.faults = machine.faults := by
  have cycled := machine.cycle_cycled
  generalize machine.cycle.1 = event, machine.cycle.2 = after at cycled
  cases cycled with
  | stopped | waited | asked | moved | traced => exact ⟨by simp, rfl⟩
  | stepped running due tracing =>
    obtain ⟨quiet, faults⟩ : _ ∧ _ := step_told
    exact ⟨quiet, faults⟩

theorem cycles_faults (budget : Nat) : (machine.cycles budget).2.faults = machine.faults :=
  cycles_preserves (fun other same => (cycle_told other).2.trans same) budget rfl

theorem execute_faults (budget : Nat) : (machine.execute budget).2.faults = [] := by
  simp only [execute]
  split
  next none => rw [cycles_faults, List.isEmpty_iff.mp none]
  next => rfl

theorem cycles_add (first second : Nat) :
    machine.cycles (first + second) =
      match machine.cycles first with
      | (.running, paused) => paused.cycles second
      | told => told := by
  induction first generalizing machine with
  | zero => simp [cycles]
  | succ first ih =>
    have quiet := (cycle_told machine).1
    rw [Nat.succ_add]
    simp only [cycles]
    split
    next event after same =>
      rw [same] at quiet
      split
      next paused running => simp_all
      next => rfl
    next after same => exact ih

theorem execute_add (first second : Nat) :
    machine.execute (first + second) =
      match machine.execute first with
      | (.running, paused) => paused.execute second
      | told => told := by
  simp only [execute]
  split
  next none =>
    rw [cycles_add]
    split
    next paused running =>
      have faults : (machine.cycles first).2.faults = machine.faults := cycles_faults first
      rw [running] at faults
      rw [show paused.faults = machine.faults from faults, if_pos none]
    next => rfl
  next => rfl

/-- A turn of so many cycles can be broken off after some of them, unless it ends with them. -/
def Divisible {σ : Type} (turn : σ → Nat → σ) : Prop :=
  ∀ state first second, turn state (first + second) = turn (turn state first) second ∨
    turn state (first + second) = turn state first

namespace Divisible

variable {σ : Type} {turn : σ → Nat → σ}

theorem units (divisible : Divisible turn) {budget : Nat} (positive : 0 < budget) (state : σ) :
    ∃ count, 0 < count ∧ turn state budget = (List.replicate count 1).foldl turn state := by
  induction budget generalizing state with
  | zero => cases positive
  | succ budget ih =>
    rcases Nat.eq_zero_or_pos budget with rfl | more
    · exact ⟨1, Nat.one_pos, rfl⟩
    · -- The turn is broken off after its first cycle, and goes on as a shorter one.
      rw [Nat.add_comm]
      rcases divisible state 1 budget with further | ended
      · obtain ⟨count, _, rest⟩ := ih more (turn state 1)
        exact ⟨count + 1, Nat.succ_pos _, further.trans rest⟩
      · exact ⟨1, Nat.one_pos, ended⟩

theorem all_units (divisible : Divisible turn) {budgets : Nat → Nat} (positive : ∀ index, 0 < budgets index)
    (state : σ) (length : Nat) :
    ∃ count, length ≤ count ∧
      ((List.range length).map budgets).foldl turn state = (List.replicate count 1).foldl turn state := by
  induction length with
  | zero => exact ⟨0, Nat.le_refl _, rfl⟩
  | succ length ih =>
    obtain ⟨count, enough, same⟩ := ih
    obtain ⟨more, some, next⟩ := divisible.units (positive length) ((List.replicate count 1).foldl turn state)
    refine ⟨count + more, by omega, ?_⟩
    simp only [List.range_succ, List.map_append, List.foldl_append, List.replicate_add, same, ← next,
      List.map_cons, List.map_nil, List.foldl_cons, List.foldl_nil]

end Divisible

/-- A caller runs a machine with one budget after another. He answers what it asks for
with calls that depend on all he was told before. -/
structure Dialogue where
  machine : Machine
  /-- What he was told, and the machine as it was then. -/
  told : List (Event × Machine) := []

namespace Dialogue

variable (answers : List (Event × Machine) → List Call) {dialogue : Dialogue}

def hear (dialogue : Dialogue) : Event × Machine → Dialogue
  | (.running, machine) => { dialogue with machine }
  | (.input request, machine) =>
    let told := dialogue.told ++ [(.input request, machine)]
    { machine := machine.after (answers told), told }
  | (event, machine) => { machine, told := dialogue.told ++ [(event, machine)] }

def round (dialogue : Dialogue) (budget : Nat) : Dialogue :=
  dialogue.hear answers (dialogue.machine.execute budget)

def rounds (dialogue : Dialogue) (budgets : List Nat) : Dialogue :=
  budgets.foldl (round answers) dialogue

def units (dialogue : Dialogue) (count : Nat) : Dialogue :=
  dialogue.rounds answers (List.replicate count 1)

theorem units_add (first second : Nat) :
    dialogue.units answers (first + second) = (dialogue.units answers first).units answers second := by
  simp only [units, rounds, List.replicate_add, List.foldl_append]

theorem round_divisible : Divisible (round answers) := by
  intro dialogue first second
  simp only [round, execute_add]
  generalize dialogue.machine.execute first = outcome
  obtain ⟨event, paused⟩ := outcome
  cases event with
  | running => exact .inl rfl
  | _ => exact .inr rfl

theorem rounds_units {budgets : Nat → Nat} (positive : ∀ index, 0 < budgets index) (length : Nat) :
    ∃ count, length ≤ count ∧
      dialogue.rounds answers ((List.range length).map budgets) = dialogue.units answers count :=
  (round_divisible answers).all_units positive dialogue length

theorem hear_told (dialogue : Dialogue) (outcome : Event × Machine) :
    dialogue.told <+: (dialogue.hear answers outcome).told := by
  obtain ⟨event, machine⟩ := outcome
  cases event with
  | running => exact List.prefix_refl _
  | _ => exact List.prefix_append _ _

theorem rounds_told (dialogue : Dialogue) (budgets : List Nat) :
    dialogue.told <+: (dialogue.rounds answers budgets).told := by
  induction budgets generalizing dialogue with
  | nil => exact List.prefix_refl _
  | cons budget budgets ih => exact (hear_told answers _ _).trans (ih _)

theorem units_told {count total : Nat} (enough : count ≤ total) (dialogue : Dialogue) :
    (dialogue.units answers count).told <+: (dialogue.units answers total).told := by
  obtain ⟨more, rfl⟩ := Nat.exists_eq_add_of_le enough
  rw [units_add]
  exact rounds_told answers _ _

theorem told_later {told later : List (Event × Machine)} (longer : told <+: later) {index : Nat}
    {item : Event × Machine} (found : told[index]? = some item) : later[index]? = some item := by
  obtain ⟨rest, rfl⟩ := longer
  obtain ⟨bound, _⟩ := List.getElem?_eq_some_iff.mp found
  rw [List.getElem?_append_left bound, found]

/-- At some time what is told next to so many other things is this. -/
def Tells (dialogue : Dialogue) (budgets : Nat → Nat) (index : Nat) (item : Event × Machine) : Prop :=
  ∃ length, (dialogue.rounds answers ((List.range length).map budgets)).told[index]? = some item

private theorem Tells.transfer {budgets others : Nat → Nat} (positive : ∀ index, 0 < budgets index)
    (also : ∀ index, 0 < others index) {index : Nat} {item : Event × Machine}
    (tells : dialogue.Tells answers budgets index item) : dialogue.Tells answers others index item := by
  obtain ⟨length, found⟩ := tells
  obtain ⟨count, _, same⟩ := @rounds_units answers dialogue _ positive length
  obtain ⟨total, enough, reached⟩ := @rounds_units answers dialogue _ also count
  refine ⟨count, ?_⟩
  -- Both come to the same dialogue in single cycles, one of them later.
  rw [same] at found
  rw [reached]
  exact told_later (units_told answers enough dialogue) found

end Dialogue

/-- A budget can be split in two wherever one likes. So whoever runs a machine with one
positive budget after another is told the same things in the same order, at the same
states of the machine, whatever the budgets are. -/
theorem budgets_agree (machine : Machine) (answers : List (Event × Machine) → List Call) (budgets others : Nat → Nat)
    (positive : ∀ index, 0 < budgets index) (also : ∀ index, 0 < others index) :
    (∀ first second, machine.execute (first + second) =
      match machine.execute first with
      | (.running, paused) => paused.execute second
      | told => told) ∧
    ∀ index item, Dialogue.Tells answers { machine } budgets index item ↔
      Dialogue.Tells answers { machine } others index item :=
  ⟨execute_add, fun _ _ => ⟨.transfer answers positive also, .transfer answers also positive⟩⟩

/-- What a program prints after an answer is told with budgets of one cycle as well. -/
theorem echo_agrees :
    let machine := ofSource ⟨.befunge98, ["&.@"]⟩ (Dice.ofSeed 0)
    ∃ after, Dialogue.Tells (fun _ => [.enterNumber 7]) { machine } (fun _ => 1) 1 (.print (.number 7), after) := by
  intro machine
  have printed : ((Dialogue.rounds (fun _ => [.enterNumber 7]) { machine }
      ((List.range 2).map fun _ => 5000)).told.map Prod.fst)[1]? = some (.print (.number 7)) := by
    decide +kernel
  rw [List.getElem?_map] at printed
  obtain ⟨⟨event, after⟩, found, same⟩ := Option.map_eq_some_iff.mp printed
  obtain rfl : event = .print (.number 7) := same
  have agree := (budgets_agree machine (fun _ => [.enterNumber 7]) (fun _ => 5000) (fun _ => 1)
    (fun _ => by decide) (fun _ => by decide)).2
  exact ⟨after, (agree 1 _).mp ⟨2, found⟩⟩

end Befunge.Machine
