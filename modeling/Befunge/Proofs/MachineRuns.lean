import Befunge.Machine.Entry

/-! What one cycle and one entry can do, said once, and how a property that each of them
keeps is kept by whole runs. -/

namespace Befunge.Machine

def after (machine : Machine) (calls : List Call) : Machine :=
  calls.foldl (fun machine call => (machine.call call).2) machine

def replies (machine : Machine) : List Call → List (Option Event)
  | [] => []
  | call :: calls => (machine.call call).1 :: (machine.call call).2.replies calls

theorem after_append (machine : Machine) (calls later : List Call) :
    machine.after (calls ++ later) = (machine.after calls).after later :=
  List.foldl_append

variable {machine : Machine}

/-- Whether a row has to be typed in before the pending move can be made. -/
def NeedsRow (machine : Machine) : Prop :=
  machine.space.complete = false ∧
    (machine.cursor.delta.y < 0 ∨ 0 < machine.cursor.delta.y ∧ machine.rowReady = false)

instance : DecidablePred NeedsRow :=
  fun _ => inferInstanceAs (Decidable (_ ∧ _))

theorem advance_eq (machine : Machine) :
    machine.advance =
      if machine.NeedsRow then { machine with status := .awaiting .row }
      else
        { machine with
          rowReady := false
          cursor := machine.cursor.advance machine.space
          moves := machine.moves - 1 } := by
  simp only [advance]
  congr 1
  simp [NeedsRow]

/-- All that a cycle can come to. -/
inductive Cycled (machine : Machine) : Option Event → Machine → Prop
  | stopped (halted : machine.status = .halted) : Cycled machine (some .stopped) machine
  | waited (request : Request) (waiting : machine.status = .awaiting request) :
      Cycled machine (some (.input request)) machine
  | asked (running : machine.status = .running) (pending : 0 < machine.moves) (needs : machine.NeedsRow) :
      Cycled machine none { machine with status := .awaiting .row }
  | moved (running : machine.status = .running) (pending : 0 < machine.moves) (free : ¬ machine.NeedsRow) :
      Cycled machine none
        { machine with
          rowReady := false
          cursor := machine.cursor.advance machine.space
          moves := machine.moves - 1 }
  | traced (running : machine.status = .running) (due : machine.moves = 0) :
      Cycled machine (some (.trace machine.trace)) { machine with tracing := .shown }
  | stepped (running : machine.status = .running) (due : machine.moves = 0) (tracing : Tracing) :
      Cycled machine { machine with tracing }.step.1 { machine with tracing }.step.2

theorem cycle_cycled (machine : Machine) : machine.Cycled machine.cycle.1 machine.cycle.2 := by
  obtain ⟨policy, space, pile, cursor, status, moves, rowReady, tracing, dice, exitCode, faults⟩ := machine
  cases status with
  | halted => exact .stopped rfl
  | awaiting request => exact .waited request rfl
  | running =>
    cases moves with
    | zero => cases tracing with
      | due => exact .traced rfl rfl
      | shown => exact .stepped rfl rfl .due
      | off => exact .stepped rfl rfl .off
    | succ moves =>
      simp only [cycle, Nat.zero_lt_succ, ↓reduceIte, advance_eq]
      split
      next needs => exact .asked rfl (Nat.zero_lt_succ _) needs
      next free => exact .moved rfl (Nat.zero_lt_succ _) free

theorem cycle_moved (moving : machine.cycle.2.moves < machine.moves) :
    ¬ machine.NeedsRow ∧ machine.status = .running ∧
      machine.cycle.2.cursor.position = machine.cursor.next machine.space := by
  have cycled := machine.cycle_cycled
  generalize machine.cycle = outcome at *
  obtain ⟨event, after⟩ := outcome
  cases cycled with
  | stopped | waited | asked | traced => exact absurd moving (Nat.lt_irrefl _)
  | moved running pending free => exact ⟨free, running, rfl⟩
  | stepped running due => omega

inductive Entered (machine : Machine) : Call → Machine → Prop
  | ignored (call : Call) : Entered machine call machine
  | refused (line : String) (asked : machine.status = .awaiting .number) (fault : Fault) :
      Entered machine (.enter line) { machine with faults := machine.faults ++ [fault] }
  | stopped (call : Call) (faults : List Fault) : Entered machine call { machine with status := .halted, faults }
  | answered (call : Call) (request : Request) (asked : machine.status = .awaiting request)
      (other : request ≠ .row) (value : Value) : Entered machine call (machine.resume value)
  | row (line : String) (asked : machine.status = .awaiting .row) (space : Space)
      (accepted : machine.space.addRow line = .ok space) :
      Entered machine (.enter line) { machine with space, rowReady := !line.isEmpty, status := .running }

private theorem enterNumber_entered (call : Call) (number : Value) :
    machine.Entered call (machine.enterNumber number) := by
  simp only [enterNumber]
  split
  next asked => exact .answered _ .number asked (by decide) number
  · exact .ignored _

private theorem enterChar_entered (call : Call) (c : Char) : machine.Entered call (machine.enterChar c) := by
  simp only [enterChar]
  split
  next asked => exact .answered _ .char asked (by decide) _
  · exact .ignored _

theorem call_entered (call : Call) :
    (∃ budget, call = .execute budget) ∨ machine.Entered call (machine.call call).2 := by
  cases call with
  | execute budget => exact .inl ⟨budget, rfl⟩
  | enterNumber number => exact .inr (enterNumber_entered _ number)
  | enterChar c => exact .inr (enterChar_entered _ c)
  | interrupt =>
    right
    simp only [call, interrupt]
    split
    · exact .ignored _
    · exact .stopped _ _
  | enter line =>
    right
    simp only [call, enter]
    split
    next asked =>
      split
      · exact enterNumber_entered _ _
      · exact .refused line asked _
    next asked =>
      split
      · exact .ignored _
      · exact enterChar_entered _ _
    next asked =>
      simp only [enterRow]
      split
      next space accepted => exact .row line asked space accepted
      · exact .stopped _ _
    · exact .ignored _
    · exact .ignored _

theorem cycles_rest (resting : machine.status ≠ .running) (budget : Nat) : (machine.cycles budget).2 = machine := by
  cases budget with
  | zero => rfl
  | succ budget =>
    have cycled := machine.cycle_cycled
    simp only [cycles]
    generalize machine.cycle = outcome at cycled ⊢
    obtain ⟨event, after⟩ := outcome
    cases cycled with
    | stopped | waited => rfl
    | asked running | moved running | traced running | stepped running => exact absurd running resting

variable {holds : Machine → Prop}

theorem cycles_preserves (kept : ∀ machine, holds machine → holds machine.cycle.2) (budget : Nat)
    (now : holds machine) : holds (machine.cycles budget).2 := by
  induction budget generalizing machine with
  | zero => exact now
  | succ budget ih =>
    have next := kept machine now
    simp only [cycles]
    split
    next event after same =>
      rw [same] at next
      exact next
    next after same =>
      rw [same] at next
      exact ih next

theorem call_preserves (kept : ∀ machine, holds machine → holds machine.cycle.2)
    (told : ∀ machine, holds machine → holds { machine with faults := [] }) {call : Call}
    (entered : ∀ machine after, machine.Entered call after → holds machine → holds after) (now : holds machine) :
    holds (machine.call call).2 := by
  rcases machine.call_entered call with ⟨budget, rfl⟩ | done
  · simp only [Machine.call, execute]
    split
    · exact cycles_preserves kept budget now
    · exact told _ now
  · exact entered _ _ done now

theorem after_preserves (kept : ∀ machine, holds machine → holds machine.cycle.2)
    (told : ∀ machine, holds machine → holds { machine with faults := [] })
    (entered : ∀ machine call after, machine.Entered call after → holds machine → holds after)
    (calls : List Call) (now : holds machine) : holds (machine.after calls) := by
  induction calls generalizing machine with
  | nil => exact now
  | cons call calls ih => exact ih (call_preserves kept told (fun _ _ => entered _ call _) now)

end Befunge.Machine
