import Befunge.Machine.Session
import Befunge.Proofs.CycleBudgets

/-! Sessions whose rounds are not counted. A session that has come to an end stays as it
is however many more rounds it is given, and it can be broken off after any round and
taken up from there. -/

namespace Befunge

namespace Channel

variable {σ : Type} [Channel σ]

inductive Becomes (channel : σ) : σ → Prop
  | unused : Becomes channel channel
  | readLine {used : σ} (became : Becomes channel used) : Becomes channel (Channel.readLine used).2
  | readNumber {used : σ} (became : Becomes channel used) : Becomes channel (Channel.readNumber used).2
  | writeText {used : σ} (became : Becomes channel used) (text : String) : Becomes channel (Channel.writeText text used).2
  | writeChar {used : σ} (became : Becomes channel used) (c : Char) : Becomes channel (Channel.writeChar c used).2
  | writeTrace {used : σ} (became : Becomes channel used) (trace : Trace) : Becomes channel (Channel.writeTrace trace used).2

def Offers (channel : σ) (line : String) : Prop :=
  ∃ used after, Becomes channel used ∧ Channel.readLine used = (.ok line, after)

inductive Raises (channel : σ) (fault : Fault) : Prop
  | readLine {used : σ} (became : Becomes channel used) (failed : (Channel.readLine used).1 = .error fault)
  | readNumber {used : σ} (became : Becomes channel used) (failed : (Channel.readNumber used).1 = .error fault)
  | writeText {used : σ} (became : Becomes channel used) (text : String) (failed : (Channel.writeText text used).1 = .error fault)
  | writeChar {used : σ} (became : Becomes channel used) (c : Char) (failed : (Channel.writeChar c used).1 = .error fault)
  | writeTrace {used : σ} (became : Becomes channel used) (trace : Trace) (failed : (Channel.writeTrace trace used).1 = .error fault)

end Channel

namespace Machine

variable {σ : Type} {machine later final : Machine} {channel origin rest left : σ} {ending : Ending}
  {rounds : Nat} {event : Event} {fault : Fault}

private theorem proceed_unfinished (result : Except Fault α × σ) (next : α → Machine) :
    (proceed result next).1 ≠ .error .unfinished := by
  obtain ⟨fault | given, channel⟩ := result <;> nofun

private theorem proceed_ok {result : Except Fault α × σ} {next : α → Machine} (done : proceed result next = (.ok later, rest)) :
    ∃ given, result = (.ok given, rest) ∧ later = next given := by
  obtain ⟨fault | given, channel⟩ := result
  · cases done
  · obtain ⟨rfl, rfl⟩ : next given = later ∧ channel = rest := by simpa [proceed] using done
    exact ⟨given, rfl, rfl⟩

private theorem proceed_failed {result : Except Fault α × σ} {next : α → Machine}
    (failed : (proceed result next).1 = .error (.failed fault)) : result.1 = .error fault := by
  obtain ⟨raised | given, rest⟩ := result
  · simpa [proceed] using failed
  · cases failed

private theorem proceed_channel (result : Except Fault α × σ) (next : α → Machine) :
    (proceed result next).2 = result.2 := by
  obtain ⟨raised | given, rest⟩ := result <;> rfl

variable [Channel σ]

theorem serve_unfinished (machine : Machine) (event : Event) (channel : σ) :
    (machine.serve event channel).1 ≠ .error .unfinished := by
  cases event with
  | running | stopped | faults => nofun
  | trace => exact proceed_unfinished _ _
  | print output => cases output <;> exact proceed_unfinished _ _
  | input request => cases request <;> exact proceed_unfinished _ _

theorem run_add (machine : Machine) (channel : σ) (first second : Nat) :
    machine.run channel (first + second) =
      match machine.run channel first with
      | (.unfinished, later, rest) => later.run rest second
      | ended => ended := by
  induction first generalizing machine channel with
  | zero => simp only [Nat.zero_add, run]
  | succ first ih =>
    rw [Nat.succ_add]
    simp only [run]
    have finished := serve_unfinished (machine.execute roundBudget).2 (machine.execute roundBudget).1 channel
    split
    next later rest served => exact ih later rest
    next ending rest served =>
      rw [served] at finished
      split
      next same => simp_all
      next => rfl

theorem run_ended (ended : (machine.run channel rounds).1 ≠ .unfinished) (more : Nat) :
    machine.run channel (rounds + more) = machine.run channel rounds := by
  rw [run_add]
  split
  next unfinished =>
    rw [unfinished] at ended
    exact absurd rfl ended
  next => rfl

/-- A session that comes to an end, in as many rounds as that takes. -/
def Ends (machine : Machine) (channel : σ) (ending : Ending) (final : Machine) (left : σ) : Prop :=
  ending ≠ .unfinished ∧ ∃ rounds, machine.run channel rounds = (ending, final, left)

theorem ends_of_run (rounds : Nat) (ended : ending ≠ .unfinished) (ends : (machine.run channel rounds).1 = ending)
    (leaves : (machine.run channel rounds).2.2 = left) : ∃ final, machine.Ends channel ending final left := by
  subst ends leaves
  exact ⟨_, ended, rounds, rfl⟩

theorem ends_iff (passed : machine.run channel rounds = (.unfinished, later, rest)) :
    later.Ends rest ending final left ↔ machine.Ends channel ending final left := by
  have further (more : Nat) : machine.run channel (rounds + more) = later.run rest more := by
    rw [run_add, passed]
  constructor
  · rintro ⟨ended, more, same⟩
    exact ⟨ended, rounds + more, (further more).trans same⟩
  · rintro ⟨ended, total, same⟩
    refine ⟨ended, total, ?_⟩
    rw [← further, Nat.add_comm, run_ended, same]
    rw [same]
    exact ended

theorem ends_congr (same : machine.execute roundBudget = later.execute roundBudget) :
    machine.Ends channel ending final left ↔ later.Ends channel ending final left := by
  refine and_congr_right fun ended => exists_congr fun rounds => ?_
  cases rounds with
  | zero =>
    have unfinished (machine : Machine) : machine.run channel 0 ≠ (ending, final, left) := by
      intro same
      exact ended (congrArg Prod.fst same).symm
    exact iff_of_false (unfinished machine) (unfinished later)
  | succ rounds => simp only [run, same]

theorem Ends.last (ends : machine.Ends channel ending final left) :
    ∃ rounds asking pending event, machine.run channel rounds = (.unfinished, asking, pending) ∧
      asking.execute roundBudget = (event, final) ∧ final.serve event pending = (.error ending, left) := by
  obtain ⟨ended, rounds, same⟩ := ends
  induction rounds generalizing machine channel with
  | zero => exact absurd (congrArg Prod.fst same).symm ended
  | succ rounds ih =>
    cases executed : machine.execute roundBudget with
    | mk event after =>
      simp only [run, executed] at same
      split at same
      next later rest served =>
        obtain ⟨more, asking, pending, last, passed, reached⟩ := ih same
        refine ⟨more + 1, asking, pending, last, ?_, reached⟩
        simp only [run, executed, served, passed]
      next ending rest served =>
        obtain ⟨rfl, rfl, rfl⟩ : ending = _ ∧ after = _ ∧ rest = _ := by simpa using same
        exact ⟨0, machine, channel, event, rfl, executed, served⟩

theorem Ends.unique {ending' : Ending} {final' : Machine} {left' : σ} (ends : machine.Ends channel ending final left)
    (also : machine.Ends channel ending' final' left') : ending = ending' ∧ final = final' ∧ left = left' := by
  obtain ⟨ended, first, same⟩ := ends
  obtain ⟨ended', second, same'⟩ := also
  -- Given the rounds of both, the session ends either way.
  have longer : machine.run channel (first + second) = (ending, final, left) := by
    rw [run_ended, same]
    rwa [same]
  have longer' : machine.run channel (second + first) = (ending', final', left') := by
    rw [run_ended, same']
    rwa [same']
  rw [Nat.add_comm, longer] at longer'
  simpa using longer'

theorem serve_ok (served : machine.serve event channel = (.ok later, rest)) :
    later = machine ∨ (∃ number, later = machine.enterNumber number) ∨
      ∃ request line, event = .input request ∧ request ≠ .number ∧ Channel.readLine channel = (.ok line, rest) ∧
        later = machine.enter line := by
  cases event with
  | stopped | faults => cases served
  | running =>
    cases served
    exact .inl rfl
  | trace =>
    obtain ⟨_, _, same⟩ := proceed_ok served
    exact .inl same
  | print output =>
    cases output with
    | number | char =>
      obtain ⟨_, _, same⟩ := proceed_ok served
      exact .inl same
  | input request =>
    cases request with
    | number =>
      obtain ⟨number, _, same⟩ := proceed_ok served
      exact .inr (.inl ⟨number, same⟩)
    | char | row =>
      obtain ⟨line, read, same⟩ := proceed_ok served
      exact .inr (.inr ⟨_, line, rfl, nofun, read, same⟩)

theorem serve_becomes (became : Channel.Becomes origin channel) (machine : Machine) (event : Event) :
    Channel.Becomes origin (machine.serve event channel).2 := by
  cases event with
  | running | stopped | faults => exact became
  | trace trace =>
    simp only [serve, proceed_channel]
    exact .writeTrace became trace
  | print output =>
    cases output with
    | number =>
      simp only [serve, proceed_channel]
      exact .writeText became _
    | char =>
      simp only [serve, proceed_channel]
      exact .writeChar became _
  | input request =>
    cases request with
    | number =>
      simp only [serve, proceed_channel]
      exact .readNumber became
    | char | row =>
      simp only [serve, proceed_channel]
      exact .readLine became

/-- A session fails for its channel, or for the faults that it is told. -/
theorem serve_failed (became : Channel.Becomes origin channel)
    (failed : (machine.serve event channel).1 = .error (.failed fault)) :
    Channel.Raises origin fault ∨ ∃ told, event = .faults told ∧ fault = told.headD { kind := .internal } := by
  cases event with
  | running | stopped => cases failed
  | faults told =>
    cases failed
    exact .inr ⟨told, rfl, rfl⟩
  | trace trace => exact .inl (.writeTrace became trace (proceed_failed failed))
  | print output =>
    cases output with
    | number => exact .inl (.writeText became _ (proceed_failed failed))
    | char => exact .inl (.writeChar became _ (proceed_failed failed))
  | input request =>
    cases request with
    | number => exact .inl (.readNumber became (proceed_failed failed))
    | char | row => exact .inl (.readLine became (proceed_failed failed))

theorem run_becomes (became : Channel.Becomes origin channel) (machine : Machine) (rounds : Nat) :
    Channel.Becomes origin (machine.run channel rounds).2.2 := by
  induction rounds generalizing machine channel with
  | zero => exact became
  | succ rounds ih =>
    have next := serve_becomes became (machine.execute roundBudget).2 (machine.execute roundBudget).1
    simp only [run]
    split
    next later rest served =>
      rw [served] at next
      exact ih next later
    next served =>
      rw [served] at next
      exact next

theorem run_after (became : Channel.Becomes origin channel) (machine : Machine) (rounds : Nat) :
    ∃ calls, (machine.run channel rounds).2.1 = machine.after calls ∧
      ∀ line, .enter line ∈ calls → Channel.Offers origin line := by
  induction rounds generalizing machine channel with
  | zero => exact ⟨[], rfl, nofun⟩
  | succ rounds ih =>
    have next := serve_becomes became (machine.execute roundBudget).2 (machine.execute roundBudget).1
    simp only [run]
    split
    next later rest served =>
      rw [served] at next
      obtain ⟨calls, same, lines⟩ := ih next later
      rcases serve_ok served with rfl | ⟨number, rfl⟩ | ⟨_, line, _, _, read, rfl⟩
      · refine ⟨.execute roundBudget :: calls, same, ?_⟩
        simpa using lines
      · refine ⟨.execute roundBudget :: .enterNumber number :: calls, same, ?_⟩
        simpa using lines
      · refine ⟨.execute roundBudget :: .enter line :: calls, same, ?_⟩
        intro other member
        simp only [List.mem_cons, reduceCtorEq, Call.enter.injEq, false_or] at member
        rcases member with rfl | member
        · exact ⟨channel, rest, became, read⟩
        · exact lines other member
    next => exact ⟨[.execute roundBudget], rfl, by simp⟩

end Machine
end Befunge
