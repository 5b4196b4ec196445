import Befunge.Proofs.BufferedRuns
import Befunge.Proofs.ReachedMachines

/-! Sessions that failed for want of input and are taken up again. A machine that asks for
input goes on asking until it is given what it asked for, so nothing is lost or read twice
where a session breaks off. -/

namespace Befunge.Machine

variable {machine asking paused later final : Machine} {event : Event} {fault : Fault} {told : List Fault}
  {ending : Ending} {input : List String} {output : String} {pending left : Buffer} {rounds : Nat}

theorem served_faults {budget : Nat} {σ : Type} [Channel σ] {channel rest : σ}
    (executed : machine.execute budget = (event, paused)) (served : paused.serve event channel = (.ok later, rest)) :
    ∀ fault ∈ later.faults, fault.kind ∈ FaultKind.ofRow := by
  have none : (machine.execute budget).2.faults = [] := execute_faults budget
  rw [executed] at none
  rcases serve_ok served with rfl | ⟨number, rfl⟩ | ⟨request, line, rfl, other, _, rfl⟩
  · rw [none]
    nofun
  · rw [enterNumber_faults, none]
    nofun
  · have waiting := (execute_asks executed).1
    rcases paused.enter_faults line with same | ⟨new, same, ⟨number, _⟩ | ⟨_, kind⟩⟩
    · rw [same, none]
      nofun
    · cases waiting.symm.trans number
      exact absurd rfl other
    · rw [same, none]
      intro fault member
      rw [List.mem_singleton.mp member]
      exact kind

theorem run_faults {σ : Type} [Channel σ] {channel rest : σ} (positive : 0 < rounds)
    (passed : machine.run channel rounds = (.unfinished, later, rest)) : ∀ fault ∈ later.faults, fault.kind ∈ FaultKind.ofRow := by
  induction rounds generalizing machine channel with
  | zero => cases positive
  | succ rounds ih =>
    simp only [run] at passed
    split at passed
    next next between served =>
      rcases Nat.eq_zero_or_pos rounds with rfl | more
      · cases passed
        exact served_faults rfl served
      · exact ih more passed
    next served =>
      cases passed
      exact absurd (congrArg Prod.fst served) (serve_unfinished _ _ _)

theorem told_before {σ : Type} [Channel σ] {channel rest : σ}
    (passed : machine.run channel rounds = (.unfinished, asking, rest))
    (executed : asking.execute roundBudget = (.faults told, final)) :
    (rest = channel ∧ machine.faults.head? = some (told.headD { kind := .internal })) ∨
      (told.headD { kind := .internal }).kind ∉ [FaultKind.inputPastEnd, .invalidNumber] := by
  have apart : ∀ kind ∈ FaultKind.ofRow, kind ∉ [FaultKind.inputPastEnd, .invalidNumber] := by decide
  rcases execute_told executed with ⟨some, rfl⟩ | ⟨_, _, _, _, _, cycled⟩
  · obtain ⟨first, others, same⟩ := List.exists_cons_of_ne_nil some
    rw [same, List.headD_cons]
    rcases Nat.eq_zero_or_pos rounds with rfl | positive
    · cases passed
      rw [same]
      exact .inl ⟨rfl, rfl⟩
    · have kind := run_faults positive passed first (same ▸ List.mem_cons_self)
      exact .inr (apart _ kind)
  · obtain ⟨fault, rfl, kind⟩ := cycle_fault (congrArg Prod.fst cycled)
    right
    have apart : ∀ kind ∈ [FaultKind.invalidInstruction, .dimensionMismatch],
        kind ∉ [FaultKind.inputPastEnd, .invalidNumber] := by decide
    exact apart _ kind

/-- Where a session breaks off at a request, running on is like running from before it. -/
theorem ends_again {σ : Type} [Channel σ] {channel rest : σ} {request : Request}
    (executed : asking.execute roundBudget = (.input request, paused)) :
    paused.Ends channel ending final rest ↔ asking.Ends channel ending final rest := by
  obtain ⟨waiting, none⟩ := execute_asks executed
  apply ends_congr
  rw [executed]
  exact execute_waits waiting none (by decide)

/-- A session that came to the end of its lines goes on with further lines as if they had
been there from the start. -/
theorem starved_continues (early : ∀ fault ∈ machine.faults, fault.kind ≠ .inputPastEnd) (kind : fault.kind = .inputPastEnd)
    (ends : machine.Ends (⟨input, output⟩ : Buffer) (.failed fault) paused left) :
    left.input = [] ∧ ∀ second ending final last,
      machine.Ends (⟨input ++ second, output⟩ : Buffer) ending final last ↔
        ∃ more, last.output = left.output ++ more ∧ paused.Ends (⟨second, ""⟩ : Buffer) ending final ⟨last.input, more⟩ := by
  obtain ⟨rounds, asking, pending, event, passed, executed, breaks⟩ := ends.breaks
  obtain ⟨rest, shown⟩ := left
  obtain ⟨read, written, rfl, rfl, moved⟩ := run_moved passed
  cases breaks with
  | told told =>
    rcases told_before passed executed with ⟨_, first⟩ | other
    · exact absurd kind (early _ (List.mem_of_head? first))
    · rw [kind] at other
      exact absurd (by decide) other
  | starved request =>
    refine ⟨rfl, ?_⟩
    intro second ending final last
    have onward : asking.Ends (⟨second, output ++ written⟩ : Buffer) ending final last ↔
        machine.Ends (⟨read ++ [] ++ second, output⟩ : Buffer) ending final last := by
      rw [List.append_nil]
      exact ends_iff (moved second output)
    rw [← onward, ← ends_again executed, ends_output_iff]
  | unread unread => cases (readNumber_kind unread).symm.trans kind

theorem unread_continues (kind : fault.kind = .invalidNumber)
    (ends : machine.Ends (⟨input, output⟩ : Buffer) (.failed fault) paused left) :
    (machine.faults.head? = some fault ∧ left = ⟨input, output⟩) ∨
      ∃ before line, input = before ++ line :: left.input ∧ readNumber line = .error fault ∧
        ∀ ending final last, machine.Ends (⟨before ++ left.input, output⟩ : Buffer) ending final last ↔
          paused.Ends left ending final last := by
  obtain ⟨rounds, asking, pending, event, passed, executed, breaks⟩ := ends.breaks
  obtain ⟨rest, shown⟩ := left
  obtain ⟨read, written, rfl, rfl, moved⟩ := run_moved passed
  cases breaks with
  | told told =>
    rcases told_before passed executed with ⟨untouched, first⟩ | other
    · exact .inl ⟨first, untouched⟩
    · rw [kind] at other
      exact absurd (by decide) other
  | starved => cases kind
  | @unread line _ unread =>
    refine .inr ⟨read, line, rfl, unread, ?_⟩
    intro ending final last
    rw [← ends_iff (moved rest output), ends_again executed]

/-- A session that fails for its input can be taken up again. After the end of the lines it
goes on with others as if both had been one list, and after a line that is no numeral as if
that line had not been there: it ends the same way, in the same state and with the same
output in all. A numeral may also have been missing before the session began, and then it
reads nothing. -/
theorem failed_session_continues (reached : machine.Reached) (input : List String) (output : String) (fault : Fault)
    (ends : machine.Ends (⟨input, output⟩ : Buffer) (.failed fault) paused left) :
    (fault.kind = .inputPastEnd → left.input = [] ∧ ∀ second ending final last,
      machine.Ends (⟨input ++ second, output⟩ : Buffer) ending final last ↔
        ∃ more, last.output = left.output ++ more ∧ paused.Ends (⟨second, ""⟩ : Buffer) ending final ⟨last.input, more⟩) ∧
    (fault.kind = .invalidNumber →
      (machine.faults.head? = some fault ∧ left = ⟨input, output⟩) ∨
        ∃ before line, input = before ++ line :: left.input ∧ readNumber line = .error fault ∧
          ∀ ending final last, machine.Ends (⟨before ++ left.input, output⟩ : Buffer) ending final last ↔
            paused.Ends left ending final last) := by
  refine ⟨fun kind => starved_continues ?_ kind ends, fun kind => unread_continues kind ends⟩
  intro waiting member past
  have entered := reached.faults waiting member
  rw [past] at entered
  exact absurd entered (by decide)

/-- The second number comes with another list of lines, and the sum is the same. -/
theorem split_input_adds_up :
    let machine := ofSource ⟨.befunge98, ["&&+.@"]⟩ (Dice.ofSeed 0)
    ∃ paused final, machine.Ends (⟨["3"], ""⟩ : Buffer) (.failed { kind := .inputPastEnd }) paused ⟨[], ""⟩ ∧
      paused.Ends (⟨["4"], ""⟩ : Buffer) .stopped final ⟨[], "7 "⟩ := by
  intro machine
  have reached : machine.Reached :=
    .loaded (show Source.ofLines .befunge98 ["&&+.@"] = _ by rfl) ⟨by decide, by decide +kernel⟩ _ _
  obtain ⟨paused, starved⟩ : ∃ paused, machine.Ends (⟨["3"], ""⟩ : Buffer) (.failed { kind := .inputPastEnd }) paused ⟨[], ""⟩ :=
    ends_of_run 2 nofun (by decide +kernel) (by decide +kernel)
  obtain ⟨final, whole⟩ : ∃ final, machine.Ends (⟨["3", "4"], ""⟩ : Buffer) .stopped final ⟨[], "7 "⟩ :=
    ends_of_run 4 nofun (by decide +kernel) (by decide +kernel)
  obtain ⟨continues, _⟩ : _ ∧ _ := failed_session_continues reached ["3"] "" _ starved
  obtain ⟨more, same, rest⟩ := ((continues rfl).2 ["4"] _ _ _).mp whole
  obtain rfl : "7 " = more := by simpa using same
  exact ⟨paused, final, starved, rest⟩

end Befunge.Machine
