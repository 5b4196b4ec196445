import Befunge.Proofs.PendingMoves
import Befunge.Proofs.ToldFaults

/-! How a machine waits. It rests while something is asked for and once it has stopped, and
only an answer or a stop makes a difference. Faults are told in the order in which they came
up, each of them once. -/

namespace Befunge.Machine

variable {machine : Machine} {call : Call} {calls : List Call} {value : Value} {fault : Fault}

/-- Whether a call gives the value that is asked for. -/
inductive Gives (machine : Machine) : Call → Value → Prop
  | numeral {line : String} {value : Value} (asked : machine.status = .awaiting .number)
      (read : readNumber line = .ok value) : Gives machine (.enter line) value
  | number (value : Value) (asked : machine.status = .awaiting .number) : Gives machine (.enterNumber value) value
  | text {line : String} {c : Char} {rest : List Char} (asked : machine.status = .awaiting .char)
      (some : line.toList = c :: rest) : Gives machine (.enter line) (Int64.ofNat c.toNat)
  | char (c : Char) (asked : machine.status = .awaiting .char) : Gives machine (.enterChar c) (Int64.ofNat c.toNat)

inductive Adds (machine : Machine) : Call → Prop
  | row {line : String} {space : Space} (asked : machine.status = .awaiting .row)
      (accepted : machine.space.addRow line = .ok space) : Adds machine (.enter line)

inductive Stops (machine : Machine) : Call → Fault → Prop
  | interrupted (goes : machine.status ≠ .halted) :
      Stops machine .interrupt { kind := .interrupted, location := some machine.cursor.position }
  | refused {line : String} {fault : Fault} (asked : machine.status = .awaiting .row)
      (refused : machine.space.addRow line = .error fault) : Stops machine (.enter line) fault

structure Ignores (machine : Machine) (call : Call) : Prop where
  gives : ∀ value, ¬ machine.Gives call value
  adds : ¬ machine.Adds call
  stops : ∀ fault, ¬ machine.Stops call fault

def faultsOf : Except Fault α → List Fault
  | .ok _ => []
  | .error fault => [fault]

def leaves (machine : Machine) : Call → List Fault
  | .enter line =>
    match machine.status with
    | .awaiting .number => faultsOf (readNumber line)
    | .awaiting .row => faultsOf (machine.space.addRow line)
    | _ => []
  | .interrupt =>
    if machine.status = .halted then []
    else [{ kind := .interrupted, location := some machine.cursor.position }]
  | _ => []

def left (machine : Machine) : List Call → List Fault
  | [] => []
  | call :: calls => machine.leaves call ++ (machine.call call).2.left calls

def toldBy : Option Event → List Fault
  | some (.faults faults) => faults
  | _ => []

/-- What a history of calls is told of the faults that wait. -/
def told (machine : Machine) : List Call → List Fault
  | [] => []
  | call :: calls =>
    (if machine.faults.isEmpty then [] else toldBy (machine.call call).1) ++ (machine.call call).2.told calls

theorem gives_call (gives : machine.Gives call value) : (machine.call call).2 = machine.resume value := by
  cases gives with
  | numeral asked read => simp only [Machine.call, enter, asked, read, enterNumber, ↓reduceIte]
  | number _ asked => simp only [Machine.call, enterNumber, asked, ↓reduceIte]
  | text asked some => simp only [Machine.call, enter, asked, some, enterChar, ↓reduceIte]
  | char _ asked => simp only [Machine.call, enterChar, asked, ↓reduceIte]

theorem stops_call (stops : machine.Stops call fault) :
    (machine.call call).2 = { machine with status := .halted, faults := machine.faults ++ [fault] } := by
  cases stops with
  | interrupted goes => simp only [Machine.call, interrupt, if_neg goes]
  | refused asked refused => simp only [Machine.call, enter, asked, enterRow, refused]

private theorem rests_ignoring (resting : machine.status ≠ .running) (ignores : machine.Ignores call) :
    ∃ faults, (machine.call call).2 = { machine with faults } := by
  cases call with
  | execute budget =>
    simp only [Machine.call, execute]
    split
    · exact ⟨machine.faults, cycles_rest resting budget⟩
    · exact ⟨[], rfl⟩
  | enterNumber number =>
    by_cases asked : machine.status = .awaiting .number
    · exact absurd (.number number asked) (ignores.gives _)
    · exact ⟨machine.faults, by simp only [Machine.call, enterNumber, if_neg asked]⟩
  | enterChar c =>
    by_cases asked : machine.status = .awaiting .char
    · exact absurd (.char c asked) (ignores.gives _)
    · exact ⟨machine.faults, by simp only [Machine.call, enterChar, if_neg asked]⟩
  | interrupt =>
    by_cases halted : machine.status = .halted
    · exact ⟨machine.faults, by simp only [Machine.call, interrupt, if_pos halted]⟩
    · exact absurd (.interrupted halted) (ignores.stops _)
  | enter line =>
    simp only [Machine.call, enter]
    split
    next asked =>
      split
      next number read => exact absurd (.numeral asked read) (ignores.gives number)
      next fault _ => exact ⟨machine.faults ++ [fault], rfl⟩
    next asked =>
      split
      · exact ⟨machine.faults, rfl⟩
      next c rest some => exact absurd (.text asked some) (ignores.gives _)
    next asked =>
      cases taken : machine.space.addRow line with
      | ok space => exact absurd (.row asked taken) ignores.adds
      | error fault => exact absurd (.refused asked taken) (ignores.stops fault)
    · exact ⟨machine.faults, rfl⟩
    · exact ⟨machine.faults, rfl⟩

private theorem Ignores.retold (ignores : machine.Ignores call) (faults : List Fault) :
    Ignores { machine with faults } call where
  gives value given := by
    apply ignores.gives value
    cases given with
    | numeral asked read => exact .numeral asked read
    | number _ asked => exact .number _ asked
    | text asked some => exact .text asked some
    | char _ asked => exact .char _ asked
  adds added := by
    obtain ⟨asked, accepted⟩ := added
    exact ignores.adds (.row asked accepted)
  stops fault stopped := by
    apply ignores.stops fault
    cases stopped with
    | interrupted goes => exact .interrupted goes
    | refused asked refused => exact .refused asked refused

theorem after_ignoring (resting : machine.status ≠ .running) (ignores : ∀ call ∈ calls, machine.Ignores call) :
    machine.after calls = { machine with faults := (machine.after calls).faults } := by
  obtain ⟨faults, same⟩ : ∃ faults, machine.after calls = { machine with faults } := by
    induction calls generalizing machine with
    | nil => exact ⟨machine.faults, rfl⟩
    | cons call calls ih =>
      rw [List.forall_mem_cons] at ignores
      obtain ⟨faults, same⟩ := rests_ignoring resting ignores.1
      have later : machine.after (call :: calls) = (machine.call call).2.after calls := rfl
      rw [later, same]
      exact ih resting fun call member => (ignores.2 call member).retold faults
  rw [same]

theorem ignores_halted (halted : machine.status = .halted) (call : Call) : machine.Ignores call where
  gives value given := by
    cases given with
    | numeral asked | number _ asked | text asked | char _ asked => cases halted.symm.trans asked
  adds added := by
    obtain ⟨asked, _⟩ := added
    cases halted.symm.trans asked
  stops fault stopped := by
    cases stopped with
    | interrupted goes => exact goes halted
    | refused asked => cases halted.symm.trans asked

theorem execute_stopped {budget : Nat} (halted : machine.status = .halted) (none : machine.faults = [])
    (positive : 0 < budget) : machine.execute budget = (.stopped, machine) := by
  obtain ⟨budget, rfl⟩ := Nat.exists_eq_add_of_le' positive
  simp [execute, none, cycles, cycle, halted]

theorem Gives.moves (gives : machine.Gives call value) {moving : Machine} {rest : List Machine}
    (acts : (machine.call call).2.activity calls = moving :: rest) :
    moving.Moves ∧ moving.cursor = machine.cursor ∧ moving.pile = (machine.call call).2.pile ∧
      ∀ next more, rest = next :: more →
        next.Executes ∧
          next.cursor = { machine.cursor with position := moving.space.step machine.cursor.position machine.cursor.delta } ∧
          next.pile = (machine.call call).2.pile := by
  rw [gives_call gives] at acts ⊢
  obtain ⟨pends, moves, _, later, rfl⟩ := activity_moves rfl Nat.one_pos acts
  have cursor : moving.cursor = machine.cursor := pends.cursor
  have pile : moving.pile = (machine.resume value).pile := pends.pile
  refine ⟨moves, cursor, pile, ?_⟩
  intro next more acts
  have running : moving.cycle.2.status = .running := by
    rw [moves.cycle]
    exact moves.1
  have arrived : moving.cycle.2.moves = 0 := by
    rw [moves.cycle]
    exact Nat.sub_eq_zero_of_le (Nat.le_of_eq pends.moves)
  obtain ⟨stays, executes⟩ := activity_executes running arrived acts
  refine ⟨executes, ?_, ?_⟩
  · rw [stays.cursor, moves.cycle, ← cursor]
    rfl
  · rw [stays.pile, moves.cycle, ← pile]

/-- What waits before a call, and what it leaves, is told by it or still waits. -/
theorem call_leaves (machine : Machine) (call : Call) :
    machine.faults ++ machine.leaves call =
      (if machine.faults.isEmpty then [] else toldBy (machine.call call).1) ++ (machine.call call).2.faults := by
  cases call with
  | execute budget =>
    have none : (machine.call (.execute budget)).2.faults = [] := execute_faults budget
    rw [none]
    split
    next silent => simp [leaves, List.isEmpty_iff.mp silent]
    next waits => simp [leaves, Machine.call, execute, toldBy, waits]
  | enterNumber | enterChar => simp [Machine.call, leaves, toldBy]
  | interrupt =>
    simp only [Machine.call, interrupt, leaves]
    split <;> simp [toldBy]
  | enter line =>
    cases status : machine.status with
    | running | halted => simp [Machine.call, enter, leaves, toldBy, status]
    | awaiting request => cases request with
      | number => cases read : readNumber line <;> simp [Machine.call, enter, leaves, toldBy, status, read, faultsOf]
      | char => cases some : line.toList <;> simp [Machine.call, enter, leaves, toldBy, status, some]
      | row =>
        cases taken : machine.space.addRow line <;>
          simp [Machine.call, enter, enterRow, leaves, toldBy, status, taken, faultsOf]

/-- Faults are told in the order in which they came up, up to those that still wait. -/
theorem left_eq_told (machine : Machine) (calls : List Call) :
    machine.faults ++ machine.left calls = machine.told calls ++ (machine.after calls).faults := by
  induction calls generalizing machine with
  | nil => simp [left, told, after]
  | cons call calls ih =>
    have later : machine.after (call :: calls) = (machine.call call).2.after calls := rfl
    rw [left, told, later, ← List.append_assoc, call_leaves, List.append_assoc, List.append_assoc, ih]

/-- While something is asked for and once it has stopped, a machine changes in nothing but
the faults that wait. An answer is one value more on the active stack. It is followed by one
move along the delta and then by an instruction. A row only lets the machine go on, and a stop
changes nothing else. The faults that wait are told by the next run, which comes to nothing
else. -/
theorem rests_until_answered (machine : Machine) :
    (∀ request calls, machine.status = .awaiting request → (∀ call ∈ calls, machine.Ignores call) →
      machine.after calls = { machine with faults := (machine.after calls).faults } ∧
        ∀ budget, 0 < budget → (machine.after calls).faults = [] →
          (machine.after calls).execute budget = (.input request, machine.after calls)) ∧
    (∀ call value, machine.Gives call value →
      machine.Answered value (machine.call call).2 ∧
        ∀ calls moving rest, (machine.call call).2.activity calls = moving :: rest →
          moving.Moves ∧ moving.cursor = machine.cursor ∧ moving.pile = (machine.call call).2.pile ∧
            ∀ next more, rest = next :: more →
              next.Executes ∧
                next.cursor =
                  { machine.cursor with position := moving.space.step machine.cursor.position machine.cursor.delta } ∧
                next.pile = (machine.call call).2.pile) ∧
    (∀ line space, machine.status = .awaiting .row → machine.space.addRow line = .ok space →
      (machine.call (.enter line)).2 = { machine with space, rowReady := !line.isEmpty, status := .running }) ∧
    (∀ call fault, machine.Stops call fault →
      (machine.call call).2 = { machine with status := .halted, faults := machine.faults ++ [fault] }) ∧
    (∀ calls, machine.status = .halted →
      machine.after calls = { machine with faults := (machine.after calls).faults } ∧
        ∀ budget, 0 < budget → (machine.after calls).faults = [] →
          (machine.after calls).execute budget = (.stopped, machine.after calls)) ∧
    ∀ calls,
      machine.faults ++ machine.left calls = machine.told calls ++ (machine.after calls).faults ∧
        ∀ budget, (machine.after calls).faults ≠ [] →
          (machine.after calls).execute budget =
            (.faults (machine.after calls).faults, { machine.after calls with faults := [] }) := by
  refine ⟨?_, ?_, ?_, fun _ _ => stops_call, ?_, ?_⟩
  · intro request calls asked ignores
    have same := after_ignoring (by simp [asked]) ignores
    refine ⟨same, fun budget positive none => execute_waits ?_ none positive⟩
    rw [same]
    exact asked
  · intro call value gives
    exact ⟨gives_call gives ▸ machine.resume_answered value, fun _ _ _ acts => gives.moves acts⟩
  · intro line space asked accepted
    simp only [Machine.call, enter, asked, enterRow, accepted]
  · intro calls halted
    have same := after_ignoring (by simp [halted]) fun call (_ : call ∈ calls) => ignores_halted halted call
    refine ⟨same, fun budget positive none => execute_stopped ?_ none positive⟩
    rw [same]
    exact halted
  · intro calls
    refine ⟨machine.left_eq_told calls, fun budget waits => ?_⟩
    rw [execute, if_neg (by simpa using waits)]

/-- What is no number is told, and the number is asked for again. The number that is given
then is all that the stack holds, and one move leads to the next instruction. -/
theorem number_asked_again :
    let asking := (ofSource ⟨.befunge98, ["&.@"]⟩ (Dice.ofSeed 0)).after [.execute 1]
    let refused : List Call := [.enter "x", .enterChar 'y', .execute 3]
    (asking.after refused).execute 1 = (.input .number, asking.after refused) ∧
      ∃ moving next, (asking.call (.enter " 7 ")).2.activity [.execute 2] = [moving, next] ∧
        moving.Moves ∧ next.Executes ∧ next.pile.toss.toList = [7] ∧ next.pile.depth = 1 ∧
        next.cursor.position = ⟨[1, 0]⟩ ∧ next.cursor.delta = ⟨[1, 0]⟩ := by
  intro asking refused
  obtain ⟨waits, answered, _⟩ := rests_until_answered asking
  have asked : asking.status = .awaiting .number := by decide +kernel
  constructor
  · have unread (value : Value) : readNumber "x" ≠ .ok value := by
      rw [show readNumber "x" = .error { kind := .invalidNumber, message := "x" } by decide +kernel]
      nofun
    have ignores : ∀ call ∈ refused, asking.Ignores call := by
      intro call member
      refine ⟨fun value given => ?_, fun added => ?_, fun fault stopped => ?_⟩
      · cases given with
        | numeral _ read =>
          obtain rfl : _ = "x" := by simpa [refused] using member
          exact unread value read
        | number => simp [refused] at member
        | text other | char _ other => cases asked.symm.trans other
      · obtain ⟨other, _⟩ := added
        cases asked.symm.trans other
      · cases stopped with
        | interrupted => simp [refused] at member
        | refused other => cases asked.symm.trans other
    exact (waits .number refused asked ignores).2 1 Nat.one_pos (by decide +kernel)
  · have gives : asking.Gives (.enter " 7 ") 7 := .numeral asked (by decide +kernel)
    have two : ((asking.call (.enter " 7 ")).2.activity [.execute 2]).length = 2 := by decide +kernel
    have places : ((asking.call (.enter " 7 ")).2.activity [.execute 2]).map (·.cursor.position) =
        [⟨[0, 0]⟩, ⟨[1, 0]⟩] := by decide +kernel
    obtain ⟨moving, next, acts⟩ := List.length_eq_two.mp two
    rw [acts] at places
    obtain ⟨⟨_, gains⟩, follow⟩ := answered _ 7 gives
    obtain ⟨moves, _, _, follows⟩ := follow _ _ _ acts
    obtain ⟨executes, cursor, pile⟩ := follows next [] rfl
    have opened : asking.pile.Open 2 := ⟨_, _, StackStack.initial_shows 2 _⟩
    refine ⟨moving, next, acts, moves, executes, ?_, ?_, ?_, ?_⟩
    · rw [pile, (gains 2 opened).active]
      decide +kernel
    · rw [pile, (gains 2 opened).depth]
      decide +kernel
    · exact (List.cons.inj (List.cons.inj places).2).1
    · have delta : asking.cursor.delta = ⟨[1, 0]⟩ := by decide +kernel
      exact (congrArg Cursor.delta cursor).trans delta

end Befunge.Machine
