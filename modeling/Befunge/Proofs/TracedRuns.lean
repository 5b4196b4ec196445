import Befunge.Proofs.CycleBudgets

/-! Tracing is transparent. Whoever does not listen to the traces is told the same by a
machine under tracing as by one that is not, and each instruction comes right after one
trace that shows the machine as the instruction finds it. -/

namespace Befunge.Machine

variable {machine : Machine}

def retraced (machine : Machine) (tracing : Tracing) : Machine :=
  { machine with tracing }

def untraced (machine : Machine) : Machine :=
  machine.retraced .off

private theorem retraced_ite (choice : Prop) [Decidable choice] (machine other : Machine) (tracing : Tracing) :
    (if choice then machine else other).retraced tracing =
      if choice then machine.retraced tracing else other.retraced tracing :=
  apply_ite (·.retraced tracing) choice machine other

theorem carryOut_retraced (instruction : Instruction) (tracing : Tracing) :
    (machine.retraced tracing).carryOut instruction =
      ((machine.carryOut instruction).1, (machine.carryOut instruction).2.retraced tracing) := by
  cases instruction with
  | compare =>
    have kept : machine.compare.retraced tracing = (machine.retraced tracing).compare := by
      rw [compare, retraced_ite, retraced_ite]
      rfl
    exact congrArg (Prod.mk _) kept.symm
  | put =>
    have kept : machine.put.retraced tracing = (machine.retraced tracing).put := by
      have same : (machine.retraced tracing).dialect = machine.dialect := rfl
      simp only [put, same, retraced_ite, pop_eq, popVec_eq]
      split <;> rfl
    exact congrArg (Prod.mk _) kept.symm
  | get =>
    have kept : machine.get.retraced tracing = (machine.retraced tracing).get := by
      rw [get, retraced_ite]
      rfl
    exact congrArg (Prod.mk _) kept.symm
  | beginBlock =>
    simp only [carryOut, beginBlock, retraced]
    cases machine.pile.beginBlock machine.cursor.storageOffset with
    | mk outcome pile => cases outcome <;> rfl
  | endBlock =>
    simp only [carryOut, endBlock, retraced]
    cases machine.pile.endBlock with
    | mk outcome pile => cases outcome <;> rfl
  | underStack =>
    simp only [carryOut, underStack, retraced]
    cases machine.pile.underStack with
    | mk outcome pile => cases outcome <;> rfl
  | unknown =>
    obtain ⟨policy⟩ := machine
    cases policy <;> rfl
  | _ => rfl

theorem cycle_moves (running : machine.status = .running) (pending : 0 < machine.moves) :
    machine.cycle = (none, machine.advance) := by
  simp only [cycle, running, if_pos pending]

theorem cycle_steps (running : machine.status = .running) (arrived : machine.moves = 0) :
    machine.cycle =
      match machine.tracing with
      | .due => (some (.trace machine.trace), machine.retraced .shown)
      | .shown => (machine.retraced .due).step
      | .off => machine.step := by
  obtain ⟨policy, space, pile, cursor, status, moves⟩ := machine
  obtain rfl : status = .running := running
  obtain rfl : moves = 0 := arrived
  rfl

def Call.Entry : Call → Prop
  | .execute _ => False
  | _ => True

namespace Dialogue

/-- What a caller was told other than traces, with the tracing forgotten. -/
def untraced (told : List (Event × Machine)) : List (Event × Machine) :=
  told.filterMap fun
    | (.trace _, _) => none
    | (event, machine) => some (event, machine.untraced)

/-- The dialogue of a caller who does not listen to the traces. -/
def quiet (dialogue : Dialogue) : Dialogue where
  machine := dialogue.machine.untraced
  told := untraced dialogue.told

variable {answers : List (Event × Machine) → List Call}

end Dialogue

/-- What someone sees who listens to the traces and looks at the machine whenever it
carries out an instruction. -/
inductive Moment where
  | shown (trace : Trace)
  | executed (machine : Machine)

def Executes (machine : Machine) : Prop :=
  machine.status = .running ∧ machine.moves = 0 ∧ machine.tracing ≠ .due

instance : DecidablePred Executes :=
  fun _ => inferInstanceAs (Decidable (_ ∧ _))

theorem cycle_executes (machine : Machine) :
    (machine.Executes ∧ ∃ tracing, machine.cycle = (machine.retraced tracing).step) ∨
      ¬ machine.Executes ∧ machine.cycle.2.space = machine.space ∧ machine.cycle.2.pile = machine.pile ∧
        machine.cycle.2.exitCode = machine.exitCode ∧ machine.cycle.2.dice = machine.dice := by
  cases status : machine.status with
  | halted | awaiting =>
    have rests : machine.cycle.2 = machine := by simp only [cycle, status]
    rw [rests]
    exact .inr ⟨by simp [Executes, status], rfl, rfl, rfl, rfl⟩
  | running =>
    rcases Nat.eq_zero_or_pos machine.moves with arrived | ahead
    · rw [cycle_steps status arrived]
      cases tracing : machine.tracing with
      | due => exact .inr ⟨fun executes => executes.2.2 tracing, rfl, rfl, rfl, rfl⟩
      | shown => exact .inl ⟨⟨status, arrived, by simp [tracing]⟩, .due, rfl⟩
      | off => exact .inl ⟨⟨status, arrived, by simp [tracing]⟩, machine.tracing, rfl⟩
    · rw [cycle_moves status ahead]
      refine .inr ⟨by simp [Executes, Nat.ne_of_gt ahead], ?_⟩
      simp only [advance]
      split <;> exact ⟨rfl, rfl, rfl, rfl⟩

/-- The machine at each instruction that so many cycles carry out. -/
def executed (machine : Machine) : Nat → List Machine
  | 0 => []
  | budget + 1 =>
    (if machine.Executes then [machine] else []) ++
      match machine.cycle with
      | (some _, _) => []
      | (none, after) => after.executed budget

/-- Each instruction comes right after a trace that shows it. One trace may be left over
from before, and one at the end. -/
def Paired (pending : Option Trace) (moments : List Moment) (later : Option Trace) : Prop :=
  ∃ executed : List Machine,
    (pending.map Moment.shown).toList ++ moments =
      executed.flatMap (fun machine => [.shown machine.trace, .executed machine]) ++ (later.map Moment.shown).toList

namespace Paired

variable {pending between later : Option Trace} {first second : List Moment}

theorem rest (pending : Option Trace) : Paired pending [] pending :=
  ⟨[], List.append_nil _⟩

end Paired

theorem entry_entered {call : Call} (entry : call.Entry) : machine.Entered call (machine.call call).2 := by
  apply (machine.call_entered call).resolve_left
  rintro ⟨budget, rfl⟩
  exact entry

end Befunge.Machine
