import Befunge.Proofs.SessionRuns
import Befunge.Proofs.ToldFaults

/-! Sessions on a buffer. What a session reads comes off the front of the lines, and what it
shows goes to the end of the text. So a stretch of it goes the same way whatever lines come
after and whatever text was written before. -/

namespace Befunge

def Event.shown : Event → String
  | .print output => output.text
  | .trace shown => shown.text ++ "\n"
  | .input _ | .running | .stopped | .faults _ => ""

namespace Machine

variable {machine later final : Machine} {event : Event} {fault : Fault} {ending : Ending}
  {input rest read : List String} {output : String} {left : Buffer} {rounds : Nat}

/-- An event that is served, the lines that are read for it, and the machine that goes on. -/
inductive Serves (machine : Machine) : Event → List String → Machine → Prop
  | running : Serves machine .running [] machine
  | print (output : Output) : Serves machine (.print output) [] machine
  | trace (trace : Trace) : Serves machine (.trace trace) [] machine
  | number {line : String} {number : Value} (read : readNumber line = .ok number) :
      Serves machine (.input .number) [line] (machine.enterNumber number)
  | line {request : Request} (other : request ≠ .number) (line : String) :
      Serves machine (.input request) [line] (machine.enter line)

theorem Serves.serve (serves : machine.Serves event read later) (rest : List String) (output : String) :
    machine.serve event (⟨read ++ rest, output⟩ : Buffer) = (.ok later, ⟨rest, output ++ event.shown⟩) := by
  cases serves with
  | running => simp [Machine.serve, Event.shown]
  | print output =>
    cases output with
    | number value => rfl
    | char c => simp [Machine.serve, proceed, Channel.writeChar, Buffer.writeChar, Event.shown, Output.text]
  | trace shown => rfl
  | number read =>
    simp [Machine.serve, proceed, Channel.readNumber, Buffer.readLine, read, Event.shown]
  | @line request other line =>
    cases request with
    | number => exact absurd rfl other
    | char | row => simp [Machine.serve, proceed, Channel.readLine, Buffer.readLine, Event.shown]

theorem serve_buffer (served : machine.serve event (⟨input, output⟩ : Buffer) = (.ok later, left)) :
    ∃ read, input = read ++ left.input ∧ machine.Serves event read later ∧ left.output = output ++ event.shown := by
  have same (read rest : List String) (lines : input = read ++ rest) {after : Machine}
      (serves : machine.Serves event read after) :
      ∃ read, input = read ++ left.input ∧ machine.Serves event read later ∧ left.output = output ++ event.shown := by
    rw [lines, serves.serve] at served
    obtain ⟨rfl, rfl⟩ : after = later ∧ ⟨rest, output ++ event.shown⟩ = left := by simpa using served
    exact ⟨read, lines, serves, rfl⟩
  cases event with
  | running => exact same [] input rfl .running
  | print output => exact same [] input rfl (.print output)
  | trace shown => exact same [] input rfl (.trace shown)
  | stopped | faults => cases served
  | input request =>
    cases input with
    | nil => cases request <;> cases served
    | cons line rest =>
      cases request with
      | char | row =>
        apply same [line] rest rfl
        exact .line (by decide) line
      | number =>
        cases read : readNumber line with
        | ok number => exact same [line] rest rfl (.number read)
        | error fault => simp [Machine.serve, proceed, Channel.readNumber, Buffer.readLine, read] at served

/-- How an event ends a session, with what lines it finds and leaves. -/
inductive Breaks : Event → List String → Ending → List String → Prop
  | stopped (input : List String) : Breaks .stopped input .stopped input
  | told (faults : List Fault) (input : List String) :
      Breaks (.faults faults) input (.failed (faults.headD { kind := .internal })) input
  | starved (request : Request) : Breaks (.input request) [] (.failed { kind := .inputPastEnd }) []
  | unread {line : String} {fault : Fault} (unread : readNumber line = .error fault) (rest : List String) :
      Breaks (.input .number) (line :: rest) (.failed fault) rest

theorem Breaks.serve (breaks : Breaks event input ending rest) (machine : Machine) (output : String) :
    machine.serve event (⟨input, output⟩ : Buffer) = (.error ending, ⟨rest, output⟩) := by
  cases breaks with
  | stopped | told => rfl
  | starved request => cases request <;> rfl
  | unread unread => simp [Machine.serve, proceed, Channel.readNumber, Buffer.readLine, unread]

theorem serve_breaks (served : machine.serve event (⟨input, output⟩ : Buffer) = (.error ending, left)) :
    Breaks event input ending left.input ∧ left.output = output := by
  have same {other : Ending} {rest : List String} (breaks : Breaks event input other rest) :
      Breaks event input ending left.input ∧ left.output = output := by
    rw [breaks.serve] at served
    obtain ⟨rfl, rfl⟩ : other = ending ∧ ⟨rest, output⟩ = left := by simpa using served
    exact ⟨breaks, rfl⟩
  cases event with
  | running | trace => cases served
  | print output => cases output <;> cases served
  | stopped => exact same (.stopped input)
  | faults told => exact same (.told told input)
  | input request =>
    cases input with
    | nil => exact same (.starved request)
    | cons line rest =>
      cases request with
      | char | row => cases served
      | number =>
        cases read : readNumber line with
        | ok number => simp [Machine.serve, proceed, Channel.readNumber, Buffer.readLine, read] at served
        | error fault => exact same (.unread read rest)

theorem Ends.breaks (ends : machine.Ends (⟨input, output⟩ : Buffer) ending final left) :
    ∃ rounds asking pending event, machine.run (⟨input, output⟩ : Buffer) rounds = (.unfinished, asking, ⟨pending, left.output⟩) ∧
      asking.execute roundBudget = (event, final) ∧ Breaks event pending ending left.input := by
  obtain ⟨rounds, asking, ⟨pending, text⟩, event, passed, executed, served⟩ := ends.last
  obtain ⟨breaks, silent⟩ := serve_breaks served
  rw [← silent] at passed
  exact ⟨rounds, asking, pending, event, passed, executed, breaks⟩

theorem run_moved (passed : machine.run (⟨input, output⟩ : Buffer) rounds = (.unfinished, later, left)) :
    ∃ read written, input = read ++ left.input ∧ left.output = output ++ written ∧
      ∀ rest before, machine.run (⟨read ++ rest, before⟩ : Buffer) rounds = (.unfinished, later, ⟨rest, before ++ written⟩) := by
  induction rounds generalizing machine input output with
  | zero =>
    cases passed
    refine ⟨[], "", rfl, by simp, ?_⟩
    intro rest before
    simp [run]
  | succ rounds ih =>
    simp only [run] at passed
    split at passed
    next next between served =>
      obtain ⟨first, lines, serves, shows⟩ := serve_buffer served
      obtain ⟨second, written, more, further, moved⟩ := ih passed
      refine ⟨first ++ second, (machine.execute roundBudget).1.shown ++ written, ?_, ?_, ?_⟩
      · rw [lines, more, List.append_assoc]
      · rw [further, shows, String.append_assoc]
      · intro rest before
        simp only [run, List.append_assoc, serves.serve, moved, String.append_assoc]
    next ending between served =>
      cases passed
      exact absurd (congrArg Prod.fst served) (serve_unfinished _ _ _)

theorem Ends.moved (ends : machine.Ends (⟨input, output⟩ : Buffer) ending final left) :
    ∃ written, left.output = output ++ written ∧
      ∀ before, machine.Ends (⟨input, before⟩ : Buffer) ending final ⟨left.input, before ++ written⟩ := by
  obtain ⟨rounds, asking, pending, event, passed, executed, breaks⟩ := ends.breaks
  obtain ⟨read, written, lines, shows, moved⟩ := run_moved passed
  refine ⟨written, shows, ?_⟩
  intro before
  rw [lines]
  apply (ends_iff (moved pending before)).mp
  refine ⟨ends.1, 1, ?_⟩
  simp only [run, executed, breaks.serve]

theorem ends_output_iff (before : String) :
    machine.Ends (⟨input, before⟩ : Buffer) ending final left ↔
      ∃ written, left.output = before ++ written ∧ machine.Ends (⟨input, ""⟩ : Buffer) ending final ⟨left.input, written⟩ := by
  constructor
  · intro ends
    obtain ⟨written, shows, moved⟩ := ends.moved
    have alone := moved ""
    rw [String.empty_append] at alone
    exact ⟨written, shows, alone⟩
  · rintro ⟨written, shows, ends⟩
    obtain ⟨more, same, moved⟩ := ends.moved
    obtain rfl : written = more := by simpa using same
    have also := moved before
    rwa [← shows] at also

end Machine
end Befunge
