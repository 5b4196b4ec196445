import Mathlib.Logic.Relation
import Befunge.Proofs.TracedRuns

/-! Pending moves. Whatever is called, the next things that a machine does are its pending
moves, one after the other from where the cursor stands, and then an instruction. What comes
in between adds rows at most, asks for them or stops the machine. -/

namespace Befunge.Machine

variable {machine start first : Machine} {calls : List Call} {rest : List Machine}

def Moves (machine : Machine) : Prop :=
  machine.status = .running ∧ 0 < machine.moves ∧ ¬ machine.NeedsRow

instance : DecidablePred Moves :=
  fun _ => inferInstanceAs (Decidable (_ ∧ _))

def Acts (machine : Machine) : Prop :=
  machine.Moves ∨ machine.Executes

instance : DecidablePred Acts :=
  fun _ => inferInstanceAs (Decidable (_ ∨ _))

/-- The machine at each move and each instruction of so many cycles. -/
def acting (machine : Machine) : Nat → List Machine
  | 0 => []
  | budget + 1 =>
    (if machine.Acts then [machine] else []) ++
      match machine.cycle with
      | (some _, _) => []
      | (none, after) => after.acting budget

def activity (machine : Machine) : List Call → List Machine
  | [] => []
  | .execute budget :: calls =>
    (if machine.faults.isEmpty then machine.acting budget else []) ++
      (machine.call (.execute budget)).2.activity calls
  | call :: calls => (machine.call call).2.activity calls

inductive Idle (machine : Machine) : Machine → Prop
  | cycled (rests : ¬ machine.Acts) : Idle machine machine.cycle.2
  | entered (call : Call) (entry : call.Entry) : Idle machine (machine.call call).2
  | told : Idle machine { machine with faults := [] }

theorem Moves.cycle (moves : machine.Moves) :
    machine.cycle =
      (none, { machine with
        rowReady := false
        cursor := machine.cursor.advance machine.space
        moves := machine.moves - 1 }) := by
  obtain ⟨running, pending, free⟩ := moves
  rw [cycle_moves running pending, advance_eq, if_neg free]

theorem cycle_idle (rests : ¬ machine.Acts) :
    machine.cycle.2 = machine ∨ machine.cycle.2 = machine.retraced .shown ∨
      0 < machine.moves ∧ machine.NeedsRow ∧ machine.cycle.2 = { machine with status := .awaiting .row } := by
  cases status : machine.status with
  | halted | awaiting => exact .inl (by simp only [cycle, status])
  | running =>
    rcases Nat.eq_zero_or_pos machine.moves with arrived | pending
    · rw [cycle_steps status arrived]
      cases tracing : machine.tracing with
      | due => exact .inr (.inl rfl)
      | shown | off => exact absurd (.inr ⟨status, arrived, by simp [tracing]⟩) rests
    · have needs : machine.NeedsRow := by
        by_contra free
        exact rests (.inl ⟨status, pending, free⟩)
      rw [cycle_moves status pending, advance_eq, if_pos needs]
      exact .inr (.inr ⟨pending, needs, rfl⟩)

/-- A history goes on from the machine that acts first to all that comes later. -/
private def Begins (machine first : Machine) (rest : List Machine) : Prop :=
  Relation.ReflTransGen Idle machine first ∧ first.Acts ∧ ∃ later, rest = first.cycle.2.activity later

private theorem Begins.after {between : Machine} (idle : Idle machine between) (begins : between.Begins first rest) :
    machine.Begins first rest :=
  ⟨.head idle begins.1, begins.2⟩

private theorem cycles_begin
    (begins : ∀ {machine first : Machine} {rest}, machine.activity calls = first :: rest → machine.Begins first rest)
    (budget : Nat) (silent : machine.faults = [])
    (acts : machine.acting budget ++ (machine.cycles budget).2.activity calls = first :: rest) :
    machine.Begins first rest := by
  induction budget generalizing machine with
  | zero => exact begins acts
  | succ budget ih =>
    have kept := (cycle_told machine).2.trans silent
    have idle (rests : ¬ machine.Acts) := Idle.cycled rests
    have goes : machine.Acts → ∀ later, rest = machine.cycle.2.activity later → machine.Begins machine rest :=
      fun acts later same => ⟨.refl, acts, later, same⟩
    simp only [acting, cycles] at acts
    generalize machine.cycle = outcome at kept idle goes acts
    obtain ⟨_ | event, after⟩ := outcome
    · split at acts
      next moving =>
        obtain ⟨rfl, same⟩ := List.cons_eq_cons.mp acts
        -- What is left of the budget is a call of its own, as nothing waits to be told.
        apply goes moving (.execute budget :: calls)
        have silent : after.faults.isEmpty = true := List.isEmpty_iff.mpr kept
        rw [activity, if_pos silent, Machine.call, execute, if_pos silent]
        exact same.symm
      next rests => exact (ih kept acts).after (idle rests)
    · split at acts
      next moving =>
        obtain ⟨rfl, same⟩ := List.cons_eq_cons.mp acts
        exact goes moving calls same.symm
      next rests => exact (begins acts).after (idle rests)

theorem activity_cons (acts : machine.activity calls = first :: rest) :
    Relation.ReflTransGen Idle machine first ∧ first.Acts ∧ ∃ later, rest = first.cycle.2.activity later := by
  induction calls generalizing machine first rest with
  | nil => cases acts
  | cons call calls ih =>
    cases call with
    | enter | enterNumber | enterChar | interrupt =>
      refine Begins.after (.entered _ ?_) (ih acts)
      trivial
    | execute budget =>
      simp only [activity, Machine.call, execute] at acts
      by_cases silent : machine.faults.isEmpty
      · rw [if_pos silent, if_pos silent] at acts
        exact cycles_begin ih budget (List.isEmpty_iff.mp silent) acts
      · rw [if_neg silent, if_neg silent] at acts
        exact Begins.after .told (ih acts)

/-- As many moves are pending from the same place with the same stacks. Nothing but a row is
asked for, and only where the first move needs one is there any change to the grid. -/
structure Pends (start machine : Machine) : Prop where
  cursor : machine.cursor = start.cursor
  pile : machine.pile = start.pile
  moves : machine.moves = start.moves
  asks : ∀ request, machine.status = .awaiting request → request = .row ∧ 0 < start.moves ∧ start.NeedsRow
  unasked : ¬ start.NeedsRow → machine.space = start.space ∧ machine.rowReady = start.rowReady

theorem Pends.refl (running : start.status = .running) : start.Pends start where
  cursor := rfl
  pile := rfl
  moves := rfl
  asks request asked := by cases running.symm.trans asked
  unasked _ := ⟨rfl, rfl⟩

theorem Pends.needs (pends : start.Pends machine) (needs : machine.NeedsRow) : start.NeedsRow := by
  by_contra free
  obtain ⟨space, ready⟩ := pends.unasked free
  rw [NeedsRow, space, ready, pends.cursor] at needs
  exact free needs

theorem Pends.idle {after : Machine} (pends : start.Pends machine) (idle : machine.Idle after) : start.Pends after := by
  cases idle with
  | cycled rests =>
    obtain same | same | ⟨pending, needs, same⟩ := cycle_idle rests
    · rw [same]
      exact pends
    · rw [same]
      exact ⟨pends.cursor, pends.pile, pends.moves, pends.asks, pends.unasked⟩
    · rw [same]
      refine ⟨pends.cursor, pends.pile, pends.moves, ?_, pends.unasked⟩
      rintro request ⟨⟩
      exact ⟨rfl, pends.moves ▸ pending, pends.needs needs⟩
  | entered call entry =>
    have entered : machine.Entered call (machine.call call).2 := entry_entered entry
    generalize (machine.call call).2 = after at entered
    cases entered with
    | ignored => exact pends
    | stopped => exact ⟨pends.cursor, pends.pile, pends.moves, nofun, pends.unasked⟩
    | row line asked =>
      exact ⟨pends.cursor, pends.pile, pends.moves, nofun, fun free => absurd (pends.asks _ asked).2.2 free⟩
    | refused line asked => cases (pends.asks _ asked).1
    | answered _ request asked other => exact absurd (pends.asks _ asked).1 other
  | told => exact ⟨pends.cursor, pends.pile, pends.moves, pends.asks, pends.unasked⟩

theorem Pends.idles (pends : start.Pends machine) (idles : Relation.ReflTransGen Idle machine first) : start.Pends first := by
  induction idles with
  | refl => exact pends
  | tail _ idle ih => exact ih.idle idle

/-- A pending move comes first, and it is made from where the cursor stands. -/
theorem activity_moves (running : start.status = .running) (pending : 0 < start.moves)
    (acts : start.activity calls = first :: rest) :
    start.Pends first ∧ first.Moves ∧ Relation.ReflTransGen Idle start first ∧
      ∃ later, rest = first.cycle.2.activity later := by
  obtain ⟨idles, moves, later⟩ := activity_cons acts
  have pends := (Pends.refl running).idles idles
  refine ⟨pends, moves.resolve_right fun executes => ?_, idles, later⟩
  have none : start.moves = 0 := pends.moves.symm.trans executes.2.1
  omega

theorem activity_executes (running : start.status = .running) (arrived : start.moves = 0)
    (acts : start.activity calls = first :: rest) : start.Pends first ∧ first.Executes := by
  obtain ⟨idles, executes, _⟩ := activity_cons acts
  have pends := (Pends.refl running).idles idles
  refine ⟨pends, executes.resolve_left fun moves => ?_⟩
  have some := moves.2.1
  rw [pends.moves, arrived] at some
  exact Nat.lt_irrefl _ some

/-- The machine was given a value that it had asked for. It lies on top of the active stack, and
one move is to be made. -/
structure Answered (asking : Machine) (value : Value) (after : Machine) : Prop where
  goesOn : after = { asking with pile := asking.pile.push value, status := .running, moves := 1 }
  gains : ∀ axes, asking.pile.Open axes → asking.pile.Gains value after.pile

theorem resume_answered (asking : Machine) (value : Value) : asking.Answered value (asking.resume value) where
  goesOn := rfl
  gains _ opened := opened.push_gains value

end Befunge.Machine
