import Befunge.Proofs.TracedRuns

/-! Which faults there can be. A cycle finds fault only with a byte that is no instruction,
and only where the policy is to halt. Entries and interrupts leave their faults to be told
by the next run. -/

namespace Befunge

namespace FaultKind

def ofRow : List FaultKind :=
  [gridNotDefined, gridComplete, outOfBounds, notRectangular]

def ofEntry : List FaultKind :=
  invalidNumber :: interrupted :: ofRow

end FaultKind

namespace Space

variable {space : Space} {row : String} {fault : Fault}

theorem rowFault?_kind (found : space.rowFault? row = some fault) : fault.kind ∈ FaultKind.ofRow := by
  simp only [rowFault?] at found
  split at found
  · cases found
    simp [FaultKind.ofRow]
  · split at found
    · cases found
      simp [FaultKind.ofRow]
    · cases found

theorem addRow_kind (refused : space.addRow row = .error fault) : fault.kind ∈ FaultKind.ofRow := by
  simp only [addRow, finish] at refused
  split at refused
  · cases refused
    simp [FaultKind.ofRow]
  · split at refused
    · split at refused
      · cases refused
        simp [FaultKind.ofRow]
      · cases refused
    · split at refused
      next found =>
        cases refused
        split at found
        · exact rowFault?_kind found
        · cases found
      next => cases refused

end Space

namespace StackStack

variable {pile : StackStack} {fault : Fault}

private theorem refuse_reflects {count : Value} (refused : (pile.refuse count : Except Fault α × StackStack).1 = .error fault) :
    fault.kind.reflects = true := by
  cases refused
  rfl

theorem beginBlock_kind {offset : Vec} (refused : (pile.beginBlock offset).1 = .error fault) :
    fault.kind.reflects = true ∨ offset.dimension ≠ pile.dimension ∧ fault.kind = .dimensionMismatch := by
  simp only [beginBlock] at refused
  split at refused
  next other =>
    cases refused
    exact .inr ⟨other, rfl⟩
  · left
    split at refused
    · split at refused
      · exact refuse_reflects refused
      · cases refused
    · split at refused
      · cases refused
      · split at refused
        · exact refuse_reflects refused
        · cases refused

theorem endBlock_reflects (refused : pile.endBlock.1 = .error fault) : fault.kind.reflects = true := by
  simp only [endBlock] at refused
  split at refused
  · cases refused
    rfl
  · split at refused
    · split at refused
      · exact refuse_reflects refused
      · cases refused
    · cases refused

theorem underStack_reflects (refused : pile.underStack.1 = .error fault) : fault.kind.reflects = true := by
  simp only [underStack] at refused
  split at refused
  · cases refused
    rfl
  · split at refused
    · exact refuse_reflects refused
    · cases refused

end StackStack

namespace Machine

variable {machine after : Machine} {fault : Fault} {told : List Fault}

private theorem refused_reflects (reflects : fault.kind.reflects = true) : refused fault = .reflect := by
  simp [refused, reflects]

/-- What an instruction can fail with. Whatever else goes wrong turns the cursor around. -/
theorem carryOut_fail {instruction : Instruction} (failed : (machine.carryOut instruction).1 = .fail fault) :
    (instruction = .unknown ∧ machine.policy = .halt ∧ fault = { kind := .invalidInstruction }) ∨
      machine.cursor.storageOffset.dimension ≠ machine.pile.dimension ∧ fault.kind = .dimensionMismatch := by
  cases instruction with
  | beginBlock =>
    simp only [carryOut, beginBlock] at failed
    split at failed
    · cases failed
    next outcome =>
      rcases StackStack.beginBlock_kind (congrArg Prod.fst outcome) with reflects | mismatch
      · rw [refused_reflects reflects] at failed
        cases failed
      · simp only [refused, mismatch.2, FaultKind.reflects, Bool.false_eq_true, ↓reduceIte, Outcome.fail.injEq] at failed
        exact .inr (failed ▸ mismatch)
  | endBlock =>
    simp only [carryOut, endBlock] at failed
    split at failed
    · cases failed
    next outcome =>
      rw [refused_reflects (StackStack.endBlock_reflects (congrArg Prod.fst outcome))] at failed
      cases failed
  | underStack =>
    simp only [carryOut, underStack] at failed
    split at failed
    · cases failed
    next outcome =>
      rw [refused_reflects (StackStack.underStack_reflects (congrArg Prod.fst outcome))] at failed
      cases failed
  | unknown =>
    simp only [carryOut] at failed
    split at failed
    next halt =>
      cases failed
      exact .inl ⟨rfl, halt, rfl⟩
    next => cases failed
  | _ => cases failed

theorem carryOut_fail_iff (shaped : machine.Shaped) (instruction : Instruction) :
    (machine.carryOut instruction).1 = .fail fault ↔
      instruction = .unknown ∧ machine.policy = .halt ∧ fault = { kind := .invalidInstruction } := by
  constructor
  · intro failed
    refine (carryOut_fail failed).resolve_right ?_
    rintro ⟨other, _⟩
    exact other (shaped.offset.trans shaped.pile.dimension.symm)
  · rintro ⟨rfl, halt, rfl⟩
    simp [carryOut, halt]

/-- Whether the next cycle comes to a byte that is no instruction and is to stop there. -/
structure Balks (machine : Machine) : Prop where
  executes : machine.Executes
  reads : machine.cursor.stringMode = false
  unknown : Instruction.decode machine.dialect machine.byte = .unknown
  policy : machine.policy = .halt

def refusal (machine : Machine) : Fault where
  kind := .invalidInstruction
  location := some machine.cursor.position
  command := some (Char.ofUInt8 machine.byte)

theorem step_faults_iff (shaped : machine.Shaped) :
    machine.step.1 = some (.faults told) ↔
      machine.cursor.stringMode = false ∧ Instruction.decode machine.dialect machine.byte = .unknown ∧
        machine.policy = .halt ∧ told = [machine.refusal] := by
  simp only [step]
  split
  next text => simp [text]
  next reads =>
    have failed (fault : Fault) := @carryOut_fail_iff machine fault shaped (.decode machine.dialect machine.byte)
    simp only [reads, true_and]
    generalize machine.carryOut _ = outcome at failed
    obtain ⟨outcome, after⟩ := outcome
    cases outcome with
    | fail fault =>
      obtain ⟨unknown, halt, rfl⟩ := (failed fault).mp rfl
      simp [settle, unknown, halt, refusal, Fault.locate, eq_comm]
    | _ =>
      refine iff_of_false (by simp [settle]) ?_
      rintro ⟨unknown, halt, _⟩
      cases (failed _).mpr ⟨unknown, halt, rfl⟩

theorem cycle_faults_iff (shaped : machine.Shaped) :
    machine.cycle.1 = some (.faults told) ↔ machine.Balks ∧ told = [machine.refusal] := by
  rcases machine.cycle_executes with ⟨executes, tracing, same⟩ | ⟨idle, _⟩
  · have retraced : (machine.retraced tracing).Shaped :=
      ⟨shaped.extent, shaped.pile, shaped.position, shaped.delta, shaped.offset⟩
    rw [same, step_faults_iff retraced]
    constructor
    · rintro ⟨reads, unknown, policy, same⟩
      exact ⟨⟨executes, reads, unknown, policy⟩, same⟩
    · rintro ⟨balks, same⟩
      exact ⟨balks.reads, balks.unknown, balks.policy, same⟩
  · refine iff_of_false ?_ fun told => idle told.1.executes
    cases status : machine.status with
    | halted | awaiting => simp [cycle, status]
    | running =>
      rcases Nat.eq_zero_or_pos machine.moves with arrived | pending
      · have due : machine.tracing = .due := by
          by_contra other
          exact idle ⟨status, arrived, other⟩
        simp [cycle_steps status arrived, due]
      · simp [cycle_moves status pending]

private theorem step_asks_nothing (machine : Machine) (request : Request) : machine.step.1 ≠ some (.input request) := by
  simp only [step]
  split
  · intro asked
    cases asked
  · generalize machine.carryOut _ = outcome
    obtain ⟨outcome, after⟩ := outcome
    cases outcome <;> simp [settle]

private theorem step_fault (failed : machine.step.1 = some (.faults told)) :
    ∃ fault, told = [fault] ∧ fault.kind ∈ [FaultKind.invalidInstruction, .dimensionMismatch] := by
  simp only [step] at failed
  split at failed
  · cases failed
  · have kinds (fault : Fault) := @carryOut_fail machine fault (.decode machine.dialect machine.byte)
    generalize machine.carryOut _ = outcome at failed kinds
    obtain ⟨outcome, after⟩ := outcome
    cases outcome with
    | fail fault =>
      have located : (fault.locate machine.cursor.position (Char.ofUInt8 machine.byte)).kind = fault.kind := by
        simp only [Fault.locate]
        split <;> rfl
      cases failed
      refine ⟨_, rfl, ?_⟩
      rw [located]
      rcases kinds fault rfl with ⟨_, _, rfl⟩ | ⟨_, kind⟩
      · simp
      · simp [kind]
    | _ => simp [settle] at failed

theorem cycle_fault (failed : machine.cycle.1 = some (.faults told)) :
    ∃ fault, told = [fault] ∧ fault.kind ∈ [FaultKind.invalidInstruction, .dimensionMismatch] := by
  have cycled := machine.cycle_cycled
  generalize machine.cycle.1 = event, machine.cycle.2 = after at cycled failed
  cases cycled with
  | stopped | waited | asked | moved | traced => cases failed
  | stepped => exact step_fault failed

theorem cycle_asks {request : Request} (asked : machine.cycle = (some (.input request), after)) :
    after.status = .awaiting request := by
  have cycled := machine.cycle_cycled
  generalize machine.cycle = outcome at cycled asked
  subst asked
  generalize same : some (Event.input request) = event at cycled
  cases cycled with
  | waited _ waiting =>
    cases same
    exact waiting
  | stopped | asked | moved | traced => cases same
  | stepped => exact absurd same.symm (step_asks_nothing _ request)

theorem cycles_told {event : Event} {budget : Nat} (ran : machine.cycles budget = (event, after))
    (other : event ≠ .running) :
    ∃ steps < budget, ∃ paused, machine.cycles steps = (.running, paused) ∧ paused.cycle = (some event, after) := by
  induction budget generalizing machine with
  | zero =>
    cases ran
    exact absurd rfl other
  | succ budget ih =>
    simp only [cycles] at ran
    split at ran
    next cycled =>
      cases ran
      exact ⟨0, Nat.succ_pos _, machine, rfl, cycled⟩
    next next cycled =>
      obtain ⟨steps, less, paused, passed, told⟩ := ih ran
      refine ⟨steps + 1, Nat.succ_lt_succ less, paused, ?_, told⟩
      simp only [cycles, cycled, passed]

/-- The faults that wait come before all else. Where there are none, the last cycle finds
fault. -/
theorem execute_told {budget : Nat} (ran : machine.execute budget = (.faults told, after)) :
    (machine.faults ≠ [] ∧ told = machine.faults) ∨
      machine.faults = [] ∧ ∃ steps < budget, ∃ paused, machine.cycles steps = (.running, paused) ∧
        paused.cycle = (some (.faults told), after) := by
  simp only [execute] at ran
  split at ran
  next none => exact .inr ⟨List.isEmpty_iff.mp none, cycles_told ran (by simp)⟩
  next some =>
    cases ran
    exact .inl ⟨fun none => some (List.isEmpty_iff.mpr none), rfl⟩

@[simp] theorem enterNumber_faults (number : Value) : (machine.enterNumber number).faults = machine.faults := by
  simp only [enterNumber]
  split <;> rfl

@[simp] theorem enterChar_faults (c : Char) : (machine.enterChar c).faults = machine.faults := by
  simp only [enterChar]
  split <;> rfl

theorem readNumber_kind {line : String} (unread : readNumber line = .error fault) : fault.kind = .invalidNumber := by
  simp only [readNumber] at unread
  split at unread
  · cases unread
  · cases unread
    rfl

theorem enter_faults (machine : Machine) (line : String) :
    (machine.enter line).faults = machine.faults ∨
      ∃ fault, (machine.enter line).faults = machine.faults ++ [fault] ∧
        (machine.status = .awaiting .number ∧ fault.kind = .invalidNumber ∨
          machine.status = .awaiting .row ∧ fault.kind ∈ FaultKind.ofRow) := by
  simp only [enter]
  split
  next asked =>
    split
    · exact .inl (enterNumber_faults _)
    next fault unread => exact .inr ⟨fault, rfl, .inl ⟨asked, readNumber_kind unread⟩⟩
  next asked =>
    split
    · exact .inl rfl
    · exact .inl (enterChar_faults _)
  next asked =>
    simp only [enterRow]
    split
    · exact .inl rfl
    next fault refused => exact .inr ⟨fault, rfl, .inr ⟨asked, Space.addRow_kind refused⟩⟩
  · exact .inl rfl
  · exact .inl rfl

theorem call_faults (machine : Machine) (call : Call) (fault : Fault) (waits : fault ∈ (machine.call call).2.faults) :
    fault ∈ machine.faults ∨ fault.kind ∈ FaultKind.ofEntry := by
  cases call with
  | execute budget =>
    have none : (machine.execute budget).2.faults = [] := execute_faults budget
    rw [show (machine.call (.execute budget)).2.faults = [] from none] at waits
    cases waits
  | enterNumber number => exact .inl (enterNumber_faults number ▸ waits)
  | enterChar c => exact .inl (enterChar_faults c ▸ waits)
  | interrupt =>
    simp only [Machine.call, interrupt] at waits
    split at waits
    · exact .inl waits
    · rcases List.mem_append.mp waits with before | new
      · exact .inl before
      · rw [List.mem_singleton.mp new]
        exact .inr (by simp [FaultKind.ofEntry])
  | enter line =>
    have waits : fault ∈ (machine.enter line).faults := waits
    rcases machine.enter_faults line with same | ⟨new, same, kinds⟩
    · exact .inl (same ▸ waits)
    · rw [same] at waits
      rcases List.mem_append.mp waits with before | last
      · exact .inl before
      · rw [List.mem_singleton.mp last]
        rcases kinds with ⟨_, kind⟩ | ⟨_, kind⟩
        · rw [kind]
          exact .inr (by decide)
        · exact .inr (List.mem_cons_of_mem _ (List.mem_cons_of_mem _ kind))

theorem execute_asks {request : Request} {budget : Nat} (asked : machine.execute budget = (.input request, after)) :
    after.status = .awaiting request ∧ after.faults = [] := by
  have none : (machine.execute budget).2.faults = [] := execute_faults budget
  rw [asked] at none
  refine ⟨?_, none⟩
  simp only [execute] at asked
  split at asked
  · obtain ⟨_, _, _, _, told⟩ := cycles_told asked (by simp)
    exact cycle_asks told
  · cases asked

theorem execute_waits {request : Request} {budget : Nat} (waiting : machine.status = .awaiting request)
    (none : machine.faults = []) (positive : 0 < budget) : machine.execute budget = (.input request, machine) := by
  obtain ⟨budget, rfl⟩ := Nat.exists_eq_add_of_le' positive
  simp [execute, none, cycles, cycle, waiting]

end Machine
end Befunge
