import Mathlib.Data.List.Induction
import Befunge.Proofs.CycleBudgets
import Befunge.Proofs.TypedCycles

/-! Whose row it is. Every move down was preceded by a request of its own and by the row
that was entered for it, except for the first move of all: the first row, for which no
move has asked, counts as entered for that one. -/

namespace Befunge.Machine

/-- A move asked for a row in this state, and nothing was done about it since. -/
def Requested (start : Machine) (calls : List Call) (asking : Machine) : Prop :=
  ∃ before budget steps later, calls = before ++ .execute budget :: later ∧ steps < budget ∧
    (start.after before).execute steps = (.running, asking) ∧ asking.Asking ∧
    start.after calls = { asking with status := .awaiting .row }

/-- A move asked for a row in this state, and one more row was entered for it. -/
def Granted (start : Machine) (calls : List Call) (asking : Machine) : Prop :=
  ∃ before row later space, calls = before ++ .enter row :: later ∧ Requested start before asking ∧
    row.isEmpty = false ∧ asking.space.addRow row = .ok space ∧ space.height = asking.space.height + 1 ∧
    start.after calls = { asking with space, rowReady := true }

structure Complete (machine : Machine) : Prop where
  torus : machine.dialect = .befunge93
  complete : machine.space.complete = true

/-- How far the typing has come. -/
inductive Phase (start : Machine) (calls : List Call) : Prop
  | fresh (same : start.after calls = start)
  | halted (ended : (start.after calls).status = .halted)
  | complete (ended : (start.after calls).Complete)
  | free (free : (start.after calls).Free)
  | requested (asking : Machine) (typed : asking.Typed) (request : Requested start calls asking)
  | granted (asking : Machine) (typed : asking.Typed) (grant : Granted start calls asking)

structure Untouched (start : Machine) : Prop where
  asks : start.status = .awaiting .row
  silent : start.faults = []
  first : ∀ {line space}, start.space.addRow line = .ok space →
    Free { start with space, rowReady := !line.isEmpty, status := .running }

variable {start asking : Machine} {calls : List Call} {call : Call}

private theorem Requested.idle (request : Requested start calls asking)
    (same : start.after (calls ++ [call]) = start.after calls) : Requested start (calls ++ [call]) asking := by
  obtain ⟨before, budget, steps, later, rfl, less, reached, asks, held⟩ := request
  exact ⟨before, budget, steps, later ++ [call], by simp, less, reached, asks, same.trans held⟩

private theorem Granted.idle (grant : Granted start calls asking)
    (same : start.after (calls ++ [call]) = start.after calls) : Granted start (calls ++ [call]) asking := by
  obtain ⟨before, row, later, space, rfl, request, more, accepted, height, held⟩ := grant
  exact ⟨before, row, later ++ [call], space, by simp, request, more, accepted, height, same.trans held⟩

private theorem Phase.idle (phase : Phase start calls) (same : start.after (calls ++ [call]) = start.after calls) :
    Phase start (calls ++ [call]) := by
  cases phase with
  | fresh unchanged => exact .fresh (same.trans unchanged)
  | halted ended => exact .halted (same ▸ ended)
  | complete ended => exact .complete (same ▸ ended)
  | free free => exact .free (same ▸ free)
  | requested asking typed request => exact .requested asking typed (request.idle same)
  | granted asking typed grant => exact .granted asking typed (grant.idle same)

/-- Faults are told before a cycle is run, so there are none where a move asks. -/
private theorem Requested.course (request : Requested start calls asking) :
    asking.Asking ∧ asking.faults = [] ∧ start.after calls = { asking with status := .awaiting .row } := by
  obtain ⟨before, budget, steps, later, _, _, reached, asks, held⟩ := request
  have none := @execute_faults (start.after before) steps
  rw [reached] at none
  exact ⟨asks, none, held⟩

private theorem Asking.held (typed : asking.Typed) (asks : asking.Asking) :
    Typed { asking with status := .awaiting .row } := by
  have valid := cycle_preserves asking typed.toValid
  rw [asks.asks] at valid
  exact ⟨valid, typed.grid, typed.unfinished⟩

private theorem Granted.course (typed : asking.Typed) (grant : Granted start calls asking) :
    (start.after calls).Typed ∧ (start.after calls).status = .running ∧ 0 < (start.after calls).moves ∧
      (start.after calls).faults = [] := by
  obtain ⟨before, row, later, space, _, request, more, accepted, _, held⟩ := grant
  obtain ⟨asks, none, _⟩ := request.course
  obtain ⟨width, height, grid⟩ := typed.grid
  have entered : Entered { asking with status := .awaiting .row } (.enter row)
      { asking with space, rowReady := !row.isEmpty, status := .running } := .row row rfl space accepted
  have valid := entered_preserves _ _ _ entered (Asking.held typed asks).toValid
  simp only [more, Bool.not_false, ← asks.running] at valid
  rw [held]
  refine ⟨⟨valid, ⟨width, height + 1, grid.addRow more accepted⟩, ?_⟩, asks.running, asks.pending, none⟩
  rw [(Space.addRow_more more accepted).2.2]
  exact (Space.writeRow_complete _).trans typed.unfinished

private theorem Phase.of_running (untouched : start.Untouched) (phase : Phase start calls)
    (running : (start.after calls).status = .running) :
    (start.after calls).Complete ∨ (start.after calls).Free ∨ ∃ asking, asking.Typed ∧ Granted start calls asking := by
  cases phase with
  | fresh same =>
    rw [same] at running
    cases untouched.asks.symm.trans running
  | halted ended => cases ended.symm.trans running
  | complete ended => exact .inl ended
  | free free => exact .inr (.inl free)
  | requested asking typed request =>
    rw [request.course.2.2] at running
    cases running
  | granted asking typed grant => exact .inr (.inr ⟨asking, typed, grant⟩)

private theorem Phase.of_awaiting (untouched : start.Untouched) (phase : Phase start calls) {request : Request}
    (asked : (start.after calls).status = .awaiting request) (other : request ≠ .row) :
    (start.after calls).Complete ∨ (start.after calls).Free := by
  cases phase with
  | fresh same =>
    rw [same] at asked
    cases untouched.asks.symm.trans asked
    exact absurd rfl other
  | halted ended => cases ended.symm.trans asked
  | complete ended => exact .inl ended
  | free free => exact .inr free
  | requested asking typed requested =>
    rw [requested.course.2.2] at asked
    cases asked
    exact absurd rfl other
  | granted asking typed grant => cases (grant.course typed).2.1.symm.trans asked

private theorem Requested.row {line : String} {space : Space} (typed : asking.Typed)
    (request : Requested start calls asking) (accepted : asking.space.addRow line = .ok space)
    (entered : start.after (calls ++ [.enter line]) =
      { asking with space, rowReady := !line.isEmpty, status := .running }) :
    Phase start (calls ++ [.enter line]) := by
  obtain ⟨width, height, grid⟩ := typed.grid
  cases more : line.isEmpty with
  | true =>
    have last := (Space.addRow_last more accepted).2.2
    apply Phase.complete
    rw [entered, last]
    exact ⟨grid.dialect, rfl⟩
  | false =>
    refine .granted asking typed ⟨calls, line, [], space, rfl, request, more, accepted, ?_, ?_⟩
    · rw [(grid.addRow more accepted).height_eq, grid.height_eq]
    · rw [entered, more, ← request.course.1.running]
      rfl

private theorem Phase.entered (untouched : start.Untouched) (phase : Phase start calls)
    (entered : (start.after calls).Entered call (start.after (calls ++ [call]))) : Phase start (calls ++ [call]) := by
  generalize next : start.after (calls ++ [call]) = after at entered
  have valid := entered_preserves _ call after entered
  cases entered with
  | ignored => exact phase.idle next
  | stopped _ faults =>
    apply Phase.halted
    rw [next]
  | refused line asked fault =>
    rcases phase.of_awaiting untouched asked (by decide) with ⟨torus, ended⟩ | free
    · exact .complete (next ▸ ⟨torus, ended⟩)
    · exact .free (next ▸ Free.stay free.toTyped free.other free.spent (valid free.toValid) ⟨.inl rfl, rfl, rfl, id⟩)
  | answered _ request asked other value =>
    rcases phase.of_awaiting untouched asked other with ⟨torus, ended⟩ | free
    · exact .complete (next ▸ ⟨torus, ended⟩)
    · exact .free (next ▸ Free.stay free.toTyped free.other free.spent (valid free.toValid) ⟨.inl rfl, rfl, rfl, nofun⟩)
  | row line asked space accepted =>
    cases phase with
    | fresh same =>
      rw [same] at accepted next
      exact .free (next ▸ untouched.first accepted)
    | halted ended => cases ended.symm.trans asked
    | complete ended => cases ended.complete.symm.trans (Space.addRow_incomplete accepted)
    | free free => exact absurd asked free.other
    | requested asking typed request =>
      rw [request.course.2.2] at accepted next
      exact request.row typed accepted next
    | granted asking typed grant => cases (grant.course typed).2.1.symm.trans asked

private theorem Phase.ran {budget : Nat} (silent : (start.after calls).faults = [])
    (running : (start.after calls).status = .running) (positive : 0 < budget) (typed : (start.after calls).Typed)
    (spent : (start.after calls).rowReady = true → (start.after calls).Opening ∨ 0 < (start.after calls).moves) :
    Phase start (calls ++ [.execute budget]) := by
  have executed (cycles : Nat) : (start.after calls).execute cycles = (start.after calls).cycles cycles := by
    rw [execute, silent, List.isEmpty_nil, if_pos rfl]
  have next : start.after (calls ++ [.execute budget]) = ((start.after calls).cycles budget).2 := by
    rw [after_append, ← executed]
    rfl
  rcases cycles_course budget typed running spent positive with free | ⟨steps, asking, less, reached, sound, asks, held⟩
  · exact .free (next ▸ free)
  · refine .requested asking sound ⟨calls, budget, steps, [], rfl, less, ?_, asks, next.trans held⟩
    rw [executed, reached]

private theorem Phase.executed (untouched : start.Untouched) (phase : Phase start calls) (budget : Nat) :
    Phase start (calls ++ [.execute budget]) := by
  have next : start.after (calls ++ [.execute budget]) = ((start.after calls).execute budget).2 := after_append _ _ _
  by_cases silent : (start.after calls).faults = []
  · by_cases active : (start.after calls).status = .running ∧ 0 < budget
    · rcases phase.of_running untouched active.1 with ended | free | ⟨asking, typed, grant⟩
      · apply Phase.complete
        rw [next, execute, silent, List.isEmpty_nil, if_pos rfl]
        obtain ⟨torus, complete⟩ := cycles_preserves cycle_complete budget ⟨ended.torus, ended.complete⟩
        exact ⟨torus, complete⟩
      · exact .ran silent active.1 active.2 free.toTyped fun ready => .inl (free.spent ready)
      · -- The move that asked comes next, so the row at hand is its own.
        obtain ⟨sound, _, pending, _⟩ := grant.course typed
        exact .ran silent active.1 active.2 sound fun _ => .inr pending
    · apply phase.idle
      rw [next, execute, silent, List.isEmpty_nil, if_pos rfl]
      rcases Nat.eq_zero_or_pos budget with rfl | some
      · rfl
      · exact cycles_rest (fun running => active ⟨running, some⟩) budget
  · rw [execute, if_neg (by simpa using silent)] at next
    cases phase with
    | fresh same =>
      rw [same] at silent
      exact absurd untouched.silent silent
    | halted ended => exact .halted (next ▸ ended)
    | complete ended => exact .complete (next ▸ ⟨ended.torus, ended.complete⟩)
    | free free =>
      refine .free (next ▸ ?_)
      exact Free.stay free.toTyped free.other free.spent (free.withCourse _ _ _ _ free.asks) ⟨.inl rfl, rfl, rfl, id⟩
    | requested asking typed request =>
      obtain ⟨_, none, held⟩ := request.course
      rw [held] at silent
      exact absurd none silent
    | granted asking typed grant => exact absurd (grant.course typed).2.2.2 silent

theorem phase_after (untouched : start.Untouched) (calls : List Call) : Phase start calls := by
  induction calls using List.reverseRecOn with
  | nil => exact .fresh rfl
  | append_singleton calls call ih =>
    rcases (start.after calls).call_entered call with ⟨budget, rfl⟩ | entered
    · exact ih.executed untouched budget
    · apply ih.entered untouched
      rw [after_append]
      exact entered

def blank (dice : Dice) (memory : Memory) (policy : UnknownPolicy) (debug : Bool) : Machine :=
  { interactive .befunge93 dice memory with policy, tracing := .ofBool debug }

variable {dice : Dice} {memory : Memory} {policy : UnknownPolicy} {debug : Bool}

theorem blank_untouched : (blank dice memory policy debug).Untouched := by
  refine ⟨rfl, rfl, ?_⟩
  intro line space accepted
  have more : line.isEmpty = false := by
    apply Bool.eq_false_iff.mpr
    intro last
    have known := (Space.addRow_last last accepted).2.1
    cases (Space.interactive_isEmpty _).symm.trans known
  have grid := Space.Grid.first more accepted
  have torus : space.dialect = .befunge93 := grid.dialect
  have origin := Space.addRow_first accepted (Nat.lt_of_le_of_lt grid.columns (by decide))
  refine ⟨⟨valid_of_origin memory ?_ ?_ ?_ nofun, ⟨_, _, grid⟩, ?_⟩, nofun, ?_⟩
  · rw [Machine.dialect, torus]
    exact origin
  · rw [Machine.dialect, torus]
    rfl
  · rw [Machine.dialect, torus]
    rfl
  · rw [(Space.addRow_more more accepted).2.2]
    exact Space.writeRow_complete _
  · intro _
    exact ⟨grid.height_eq, rfl⟩

private theorem Granted.lands (typed : asking.Typed) (grant : Granted start calls asking)
    (south : (start.after calls).cursor.delta = ⟨[0, 1]⟩) :
    let landed := (start.after calls).cursor.next (start.after calls).space
    2 ≤ (start.after calls).space.height ∧ landed.x = (start.after calls).cursor.position.x ∧
      landed.y.toInt = (start.after calls).cursor.position.y.toInt + 1 ∧
      (start.after calls).space.contains landed = true := by
  obtain ⟨_, row, _, space, _, _, more, accepted, height, held⟩ := grant
  rw [held] at south ⊢
  have down : asking.cursor.delta = ⟨[0, 1]⟩ := south
  obtain ⟨width, rows, grid⟩ := typed.grid
  have longer := grid.addRow more accepted
  have fits : asking.space.extent.Fits := (Extent.isEmpty_iff_fits typed.proper).mp grid.isEmpty
  have inside := typed.inside fits
  obtain ⟨x, y, place⟩ : ∃ x y, asking.cursor.position = ⟨[x, y]⟩ := by
    obtain ⟨x, y, components⟩ := List.length_eq_two.mp (typed.position.trans (congrArg _ grid.dialect))
    exact ⟨x, y, congrArg Vec.mk components⟩
  rw [place, grid.contains_iff] at inside
  have also : space.contains ⟨[x, y]⟩ = true := by
    rw [longer.contains_iff]
    omega
  obtain ⟨led, next, there⟩ := longer.step_south also (by omega)
  have landed : asking.cursor.next space = ⟨[x, y + 1]⟩ := by
    rw [Cursor.next, place, down, led]
  simp only [landed, place]
  refine ⟨?_, rfl, next, there⟩
  rw [longer.height_eq]
  have some := grid.high.1
  omega

/-- While rows can still be typed in, no move leads up. A move down was preceded by a
request of its own and by the row entered for it, and leads to the next row, exactly
when there is a second row. In a single row the first move of all goes down without
one, and leads back to the origin. -/
theorem down_with_row_iff (calls : List Call)
    (incomplete : ((blank dice memory policy debug).after calls).space.complete = false)
    (moving : ((blank dice memory policy debug).after calls).cycle.2.moves < ((blank dice memory policy debug).after calls).moves) :
    let machine := (blank dice memory policy debug).after calls
    let landed := machine.cycle.2.cursor.position
    machine.cursor.delta ≠ ⟨[0, -1]⟩ ∧
      (machine.cursor.delta = ⟨[0, 1]⟩ →
        ((∃ asking, Granted (blank dice memory policy debug) calls asking) ∧ landed.x = machine.cursor.position.x ∧
            landed.y.toInt = machine.cursor.position.y.toInt + 1 ∧ machine.space.contains landed = true ↔
          2 ≤ machine.space.height) ∧
        (machine.space.height < 2 → machine.cursor.position = Vec.zero 2 ∧ landed = Vec.zero 2)) := by
  intro machine landed
  obtain ⟨free, running, moved⟩ := cycle_moved moving
  have allowed : 0 ≤ machine.cursor.delta.y ∧ (0 < machine.cursor.delta.y → machine.rowReady = true) := by
    simpa [NeedsRow, incomplete] using free
  refine ⟨?_, ?_⟩
  · intro north
    rw [north] at allowed
    exact absurd allowed.1 (by decide)
  intro south
  have ready : machine.rowReady = true := by
    rw [south] at allowed
    exact allowed.2 (by decide)
  rcases (phase_after blank_untouched calls).of_running blank_untouched running with ended | free | ⟨asking, typed, grant⟩
  · cases ended.complete.symm.trans incomplete
  · -- The row at hand is the first one, and nothing has moved yet.
    obtain ⟨single, origin⟩ := free.spent ready
    have down : ((blank dice memory policy debug).after calls).cursor.delta = ⟨[0, 1]⟩ := south
    obtain ⟨width, rows, grid⟩ := free.grid
    obtain rfl : rows = 1 := grid.height_eq.symm.trans single
    have back : landed = Vec.zero 2 := by
      apply moved.trans
      rw [Cursor.next, origin, down]
      exact grid.step_south_single
    have fewer : machine.space.height < 2 := Nat.lt_of_le_of_lt (Nat.le_of_eq single) Nat.one_lt_two
    refine ⟨iff_of_false ?_ (Nat.not_le_of_lt fewer), fun _ => ⟨origin, back⟩⟩
    rintro ⟨_, _, lower, _⟩
    rw [back, origin] at lower
    exact absurd lower (by decide)
  · obtain ⟨several, lands⟩ := grant.lands typed south
    rw [← moved] at lands
    exact ⟨iff_of_true ⟨⟨asking, grant⟩, lands⟩ several, fun fewer => absurd several (Nat.not_le_of_lt fewer)⟩

/-- With a first instruction that heads down no row is asked for, and the move leads
from the first row to itself. -/
theorem first_move_down_unasked :
    let machine := (blank (Dice.ofSeed 0) .ample .halt false).after [.enter "v", .execute 1]
    machine.space.complete = false ∧ machine.cursor.delta = ⟨[0, 1]⟩ ∧ machine.cursor.position = ⟨[0, 0]⟩ ∧
      machine.cycle.2.moves < machine.moves ∧ machine.cycle.2.status = .running ∧
      machine.cycle.2.cursor.position = ⟨[0, 0]⟩ := by
  decide +kernel

/-- A later move down waits for its row. -/
theorem later_move_down_granted :
    let calls := [.enter ">v", .execute 10, .enter " @"]
    let machine := (blank (Dice.ofSeed 0) .ample .halt false).after calls
    machine.cycle.2.cursor.position.y.toInt = machine.cursor.position.y.toInt + 1 ∧
      ∃ asking, Granted (blank (Dice.ofSeed 0) .ample .halt false) calls asking := by
  intro calls machine
  obtain ⟨_, down⟩ : _ ∧ _ :=
    @down_with_row_iff (Dice.ofSeed 0) .ample .halt false calls (by decide +kernel) (by decide +kernel)
  obtain ⟨granted, _, lower, _⟩ := (down (by decide +kernel)).1.mpr (by decide +kernel)
  exact ⟨lower, granted⟩

end Befunge.Machine
