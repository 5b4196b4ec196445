import Mathlib.Logic.Relation
import Befunge.Proofs.AppendedRows
import Befunge.Proofs.CursorInside
import Befunge.Proofs.ReachedMachines
import Befunge.Proofs.StoredCells
import Befunge.Proofs.ToldFaults

/-! What holds of every machine that comes about. All vectors have the axes of the dialect,
what is stored lies inside the extent, and the extent only grows. So no instruction meets
an offset of the wrong length, and the only fault that a cycle finds is with a byte that is
no instruction. -/

namespace Befunge

/-- Faults with which the machine deals by itself. -/
def FaultKind.dealtWith : List FaultKind :=
  [dimensionMismatch, noSecondStack, outOfMemory]

namespace Space

structure Sound (space : Space) : Prop where
  origin : space.contains (Vec.zero space.dialect.dimension) = true
  enclosed : space.Enclosed
  trimmed : space.Trimmed

variable {space after : Space} {dialect : Dialect} {rows : List String} {row : String} {source : Source}

namespace Sound

theorem put (sound : space.Sound) (place : Vec) (value : Value) : (space.put place value).Sound where
  origin := by
    rw [(put_grows place value).dialect]
    exact (put_grows place value).extent.contains sound.origin
  enclosed := put_enclosed sound.enclosed (Extent.proper_of_contains sound.origin) place value
  trimmed := put_trimmed sound.trimmed place value

theorem addRow (sound : space.Sound) (plane : space.dialect.dimension = 2) (held : row.utf8ByteSize < 0x8000000000000000)
    (accepted : space.addRow row = .ok after) : after.Sound := by
  have origin := sound.origin
  rw [plane] at origin
  have rooted : space.Rooted := ⟨(Extent.dimension_of_contains origin).symm, origin⟩
  refine ⟨?_, ?_, addRow_trimmed sound.trimmed accepted⟩
  · rw [addRow_dialect accepted]
    exact (addRow_grows rooted.plane accepted).extent.contains sound.origin
  · cases more : row.isEmpty with
    | true =>
      rw [(addRow_last more accepted).2.2]
      exact sound.enclosed
    | false =>
      obtain ⟨y, rfl, below, _⟩ := addRow_next rooted more accepted
      obtain ⟨across, down, extent, left, top⟩ := rooted.spans
      exact writeRow_enclosed sound.enclosed extent left.1 (Int.le_trans top.1 below) held

theorem first (accepted : (interactive dialect).addRow row = .ok after) (held : row.utf8ByteSize < 0x8000000000000000) :
    after.Sound where
  origin := by
    rw [addRow_dialect accepted]
    exact addRow_first accepted held
  enclosed := first_enclosed accepted held
  trimmed := addRow_trimmed (interactive_trimmed dialect) accepted

theorem load (accepted : Source.ofLines dialect rows = .ok source) (held : Source.Held rows) : (load source).Sound := by
  have origin := load_contains accepted held.wide
  obtain ⟨rfl, _⟩ := ofLines_ok accepted
  refine ⟨?_, load_enclosed held, load_trimmed _⟩
  rw [load_dialect]
  exact origin

end Sound

theorem first_grows (accepted : (interactive dialect).addRow row = .ok after) (held : row.utf8ByteSize < 0x8000000000000000) :
    (interactive dialect).Grows after := by
  rcases dialect.dimension_cases with line | plane
  · cases more : row.isEmpty with
    | true => cases (interactive_isEmpty dialect).symm.trans (addRow_last more accepted).2.1
    | false =>
      rw [(addRow_more more accepted).2.2]
      refine ⟨writeRow_dialect _, ?_⟩
      have first : Span.empty.high + 1 = 0 := by decide
      have last := Span.last_exact held
      simp only [writeRow_line (interactive_line line), interactive_line line, first, Int64.zero_add]
      refine .cons ⟨Int.le_refl _, ?_⟩ .nil
      rw [last]
      show (-1 : Int) ≤ _
      omega
  · apply addRow_grows _ accepted
    rw [interactive_plane plane]
    rfl

end Space

namespace Machine

variable {machine later after : Machine}

private theorem Effect.writes {instruction : Instruction} (effect : Effect machine after instruction) :
    after.space = machine.space ∨ ∃ place value, after.space = machine.space.put place value := by
  cases effect with
  | write _ place value space => exact .inr ⟨place, value, space⟩
  | steer _ space | jump _ space | seek _ space => exact .inl space

private theorem settle_space (position : Vec) (byte : UInt8) (outcome : Outcome) :
    (machine.settle position byte outcome).2.space = machine.space := by
  cases outcome <;> rfl

private theorem step_writes (machine : Machine) :
    machine.step.2.space = machine.space ∨ ∃ place value, machine.step.2.space = machine.space.put place value := by
  simp only [step]
  split
  · left
    simp only [readText]
    split <;> rfl
  · rw [settle_space]
    exact (carryOut_effect _).writes

theorem cycle_writes (machine : Machine) :
    machine.cycle.2.space = machine.space ∨ ∃ place value, machine.cycle.2.space = machine.space.put place value := by
  rcases machine.cycle_executes with ⟨_, tracing, same⟩ | ⟨_, same, _⟩
  · rw [same]
    exact step_writes (machine.retraced tracing)
  · exact .inl same

theorem cycle_grows (machine : Machine) : machine.space.Grows machine.cycle.2.space := by
  rcases machine.cycle_writes with same | ⟨place, value, same⟩
  · rw [same]
    exact .refl _
  · rw [same]
    exact machine.space.put_grows place value

structure Furnished (machine : Machine) : Prop extends Valid machine where
  sound : machine.space.Sound

/-- A machine to which no row was given, so that nothing was run on it. -/
structure Vacant (machine : Machine) : Prop where
  space : machine.space = .interactive machine.dialect
  idle : machine.status = .awaiting .row ∨ machine.status = .halted
  cursor : machine.cursor = Cursor.initial machine.dialect.dimension
  pile : ∃ memory, machine.pile = StackStack.initial machine.dialect.dimension memory

namespace Furnished

theorem cycle (furnished : machine.Furnished) : machine.cycle.2.Furnished where
  toValid := cycle_preserves machine furnished.toValid
  sound := by
    rcases machine.cycle_writes with same | ⟨place, value, same⟩
    · rw [same]
      exact furnished.sound
    · rw [same]
      exact furnished.sound.put place value

theorem entered {call : Call} (furnished : machine.Furnished) (held : call.Held) (entered : machine.Entered call after) :
    after.Furnished ∧ machine.space.Grows after.space := by
  have valid := entered_preserves machine call after entered furnished.toValid
  cases entered with
  | ignored | refused | stopped | answered => exact ⟨⟨valid, furnished.sound⟩, .refl _⟩
  | row line asked space accepted =>
    have plane := (Dialect.dimension_cases _).resolve_left (furnished.asks asked)
    exact ⟨⟨valid, furnished.sound.addRow plane held accepted⟩, Space.addRow_grows (furnished.extent.trans plane) accepted⟩

end Furnished

namespace Vacant

theorem shaped (vacant : machine.Vacant) : machine.Shaped where
  extent := by
    rw [vacant.space]
    exact List.length_replicate
  pile := by
    obtain ⟨memory, single⟩ := vacant.pile
    exact single ▸ ⟨_, _, StackStack.initial_shows _ memory⟩
  position := vacant.cursor ▸ Vec.dimension_zero _
  delta := vacant.cursor ▸ Vec.dimension_unit _ _ _
  offset := vacant.cursor ▸ Vec.dimension_zero _

theorem rests (vacant : machine.Vacant) : machine.status ≠ .running := by
  rcases vacant.idle with asking | halted
  · simp [asking]
  · simp [halted]

theorem asks (vacant : machine.Vacant) {request : Request} (asked : machine.status = .awaiting request) :
    request = .row := by
  rcases vacant.idle with asking | halted
  · cases asked.symm.trans asking
    rfl
  · cases asked.symm.trans halted

theorem cycle (vacant : machine.Vacant) : machine.cycle.2.Vacant := by
  have cycled := machine.cycle_cycled
  generalize machine.cycle.1 = event, machine.cycle.2 = after at cycled
  cases cycled with
  | stopped | waited => exact vacant
  | asked running | moved running | traced running | stepped running => exact absurd running vacant.rests

theorem entered {call : Call} (vacant : machine.Vacant) (held : call.Held) (entered : machine.Entered call after) :
    (after.Furnished ∨ after.Vacant) ∧ machine.space.Grows after.space := by
  cases entered with
  | ignored => exact ⟨.inr vacant, .refl _⟩
  | stopped => exact ⟨.inr ⟨vacant.space, .inr rfl, vacant.cursor, vacant.pile⟩, .refl _⟩
  | refused line asked => cases vacant.asks asked
  | answered _ request asked other => exact absurd (vacant.asks asked) other
  | row line asked space accepted =>
    have dialect : space.dialect = machine.dialect := Space.addRow_dialect accepted
    rw [vacant.space] at accepted
    have sound := Space.Sound.first accepted held
    obtain ⟨memory, single⟩ := vacant.pile
    refine ⟨.inl ⟨?_, sound⟩, ?_⟩
    · apply valid_of_origin memory sound.origin _ _ Status.noConfusion
      · rw [Machine.dialect, dialect]
        exact vacant.cursor
      · rw [Machine.dialect, dialect]
        exact single
    · rw [vacant.space]
      exact Space.first_grows accepted held

end Vacant

/-- A later state of a machine that began in some space. -/
structure Onward (begun : Space) (machine : Machine) : Prop where
  state : machine.Furnished ∨ machine.Vacant
  grows : begun.Grows machine.space

namespace Onward

variable {begun : Space}

theorem setUp (onward : Onward begun machine) (policy : UnknownPolicy) (tracing : Tracing) (dice : Dice) :
    Onward begun { machine with policy, tracing, dice } := by
  refine ⟨?_, onward.grows⟩
  rcases onward.state with furnished | vacant
  · obtain ⟨⟨⟨extent, pile, position, delta, offset⟩, proper, inside, asks⟩, sound⟩ := furnished
    exact .inl ⟨⟨⟨extent, pile, position, delta, offset⟩, proper, inside, asks⟩, sound⟩
  · exact .inr ⟨vacant.space, vacant.idle, vacant.cursor, vacant.pile⟩

theorem called {call : Call} (held : call.Held) (onward : Onward begun machine) : Onward begun (machine.call call).2 := by
  refine call_preserves ?_ ?_ ?_ onward
  · rintro machine ⟨furnished | vacant, grows⟩
    · exact ⟨.inl furnished.cycle, grows.trans machine.cycle_grows⟩
    · exact ⟨.inr vacant.cycle, grows.trans machine.cycle_grows⟩
  · rintro machine ⟨furnished | vacant, grows⟩
    · exact ⟨.inl ⟨furnished.withCourse _ _ _ _ furnished.asks, furnished.sound⟩, grows⟩
    · exact ⟨.inr ⟨vacant.space, vacant.idle, vacant.cursor, vacant.pile⟩, grows⟩
  · rintro machine after entered ⟨furnished | vacant, grows⟩
    · obtain ⟨furnished, further⟩ := furnished.entered held entered
      exact ⟨.inl furnished, grows.trans further⟩
    · obtain ⟨state, further⟩ := vacant.entered held entered
      exact ⟨state, grows.trans further⟩

theorem used (onward : Onward begun machine) (uses : machine.Uses later) : Onward begun later :=
  uses.preserves (Onward begun) (fun _ policy tracing dice onward => onward.setUp policy tracing dice)
    (fun _ _ held onward => onward.called held) onward

end Onward

theorem Reached.state (reached : machine.Reached) : machine.Furnished ∨ machine.Vacant := by
  induction reached with
  | loaded accepted held dice memory =>
    have sound := Space.Sound.load accepted held
    exact .inl ⟨valid_of_origin memory sound.origin rfl rfl Status.noConfusion, sound⟩
  | typed dialect dice memory => exact .inr ⟨rfl, .inl rfl, rfl, memory, rfl⟩
  | used _ uses ih => exact (Onward.used ⟨ih, .refl _⟩ uses).state

theorem Reached.shaped (reached : machine.Reached) : machine.Shaped := by
  rcases reached.state with furnished | vacant
  · exact furnished.toShaped
  · exact vacant.shaped

theorem Reached.valid (reached : machine.Reached) (running : machine.status = .running) : machine.Valid := by
  rcases reached.state with furnished | vacant
  · exact furnished.toValid
  · exact absurd running vacant.rests

/-- All that a machine is made of has the axes of its dialect, and what is stored is no
space and lies inside the extent. -/
structure WellFormed (machine : Machine) : Prop where
  position : machine.cursor.position.dimension = machine.dialect.dimension
  delta : machine.cursor.delta.dimension = machine.dialect.dimension
  offset : machine.cursor.storageOffset.dimension = machine.dialect.dimension
  least : machine.space.extent.least.dimension = machine.dialect.dimension
  greatest : machine.space.extent.greatest.dimension = machine.dialect.dimension
  stored : ∀ (place : Vec) (byte : UInt8), machine.space.cells[place]? = some byte →
    place.dimension = machine.dialect.dimension ∧ byte ≠ Space.blank ∧ machine.space.contains place = true

theorem Reached.wellFormed (reached : machine.Reached) : machine.WellFormed := by
  have shaped := reached.shaped
  refine ⟨shaped.position, shaped.delta, shaped.offset, (List.length_map _).trans shaped.extent,
    (List.length_map _).trans shaped.extent, ?_⟩
  intro place byte stored
  have inside : byte ≠ Space.blank ∧ machine.space.contains place = true := by
    rcases reached.state with furnished | vacant
    · exact furnished.sound.trimmed.stored furnished.sound.enclosed stored
    · rw [vacant.space] at stored ⊢
      exact (Space.interactive_trimmed _).stored (Space.interactive_enclosed _) stored
  exact ⟨(Extent.dimension_of_contains inside.2).trans shaped.extent, inside⟩

theorem Reached.grows (reached : machine.Reached) (uses : Relation.ReflTransGen Uses machine later) :
    machine.space.Grows later.space := by
  have onward : Onward machine.space later := by
    induction uses with
    | refl => exact ⟨reached.state, .refl _⟩
    | tail _ last ih => exact ih.used last
  exact onward.grows

theorem Reached.told (reached : machine.Reached) {budget : Nat} {told : List Fault}
    (ran : machine.execute budget = (.faults told, after)) :
    (machine.faults ≠ [] ∧ told = machine.faults) ∨
      machine.faults = [] ∧ ∃ steps < budget, ∃ paused, machine.cycles steps = (.running, paused) ∧
        paused.Balks ∧ told = [paused.refusal] := by
  apply (execute_told ran).imp_right
  rintro ⟨none, steps, less, paused, passed, cycled⟩
  refine ⟨none, steps, less, paused, passed, ?_⟩
  have same : (machine.execute steps).2 = paused := by
    simp only [execute, none, List.isEmpty_nil, ↓reduceIte, passed]
  have also : paused.Reached := same ▸ .used reached (.called (.execute steps) trivial)
  exact (cycle_faults_iff also.shaped).mp (congrArg Prod.fst cycled)

private theorem Reached.told_kind (reached : machine.Reached) {budget : Nat} {told : List Fault}
    (ran : machine.execute budget = (.faults told, after)) : ∀ fault ∈ told, fault.kind ∉ FaultKind.dealtWith := by
  intro fault member
  rcases reached.told ran with ⟨_, rfl⟩ | ⟨_, _, _, paused, _, _, rfl⟩
  · have apart : ∀ kind ∈ FaultKind.ofEntry, kind ∉ FaultKind.dealtWith := by decide
    exact apart _ (reached.faults fault member)
  · rw [List.mem_singleton.mp member]
    simp [refusal, FaultKind.dealtWith]

private theorem Reached.failed {σ : Type} [Channel σ] {channel left : σ} {fault : Fault} {final : Machine}
    (reached : machine.Reached) (held : ∀ line, Channel.Offers channel line → line.utf8ByteSize < 0x8000000000000000)
    (ends : machine.Ends channel (.failed fault) final left) :
    Channel.Raises channel fault ∨ fault.kind ∉ FaultKind.dealtWith := by
  obtain ⟨rounds, asking, pending, event, passed, executed, served⟩ := ends.last
  have became : Channel.Becomes channel pending := by
    have became := run_becomes (@Channel.Becomes.unused _ _ channel) machine rounds
    rwa [passed] at became
  have also : asking.Reached := by
    have also := Reached.used reached (.ran channel rounds held)
    rwa [passed] at also
  rcases serve_failed became (congrArg Prod.fst served) with raised | ⟨told, rfl, rfl⟩
  · exact .inl raised
  · right
    cases told with
    | nil => simp [FaultKind.dealtWith]
    | cons first rest => exact also.told_kind executed first List.mem_cons_self

/-- Whatever is done with a machine, its vectors keep the axes of the dialect, no space is
stored and nothing outside the extent, which never shrinks. The only fault that a cycle can
find is a byte that is no instruction where the cursor stands, under the policy to halt. So
a run tells nothing but that and what entries and interrupts have left, and no caller ever
sees the other faults of the stack of stacks. -/
theorem reached_wellFormed (reached : machine.Reached) :
    machine.WellFormed ∧
      (∀ later, Relation.ReflTransGen Uses machine later → machine.space.Grows later.space) ∧
      (∀ told, machine.cycle.1 = some (.faults told) ↔ machine.Balks ∧ told = [machine.refusal]) ∧
      (∀ budget told after, machine.execute budget = (.faults told, after) →
        ((machine.faults ≠ [] ∧ told = machine.faults) ∨
          machine.faults = [] ∧ ∃ steps < budget, ∃ paused, machine.cycles steps = (.running, paused) ∧
            paused.Balks ∧ told = [paused.refusal]) ∧
        ∀ fault ∈ told, fault.kind ∉ FaultKind.dealtWith) ∧
      ∀ {σ : Type} [Channel σ] (channel : σ),
        (∀ line, Channel.Offers channel line → line.utf8ByteSize < 0x8000000000000000) →
        ∀ fault final left, machine.Ends channel (.failed fault) final left →
          Channel.Raises channel fault ∨ fault.kind ∉ FaultKind.dealtWith := by
  refine ⟨reached.wellFormed, fun _ => reached.grows, fun _ => cycle_faults_iff reached.shaped, ?_, ?_⟩
  · intro budget told after ran
    exact ⟨reached.told ran, reached.told_kind ran⟩
  · intro σ _ channel held fault final left ends
    exact reached.failed held ends

/-- A machine that has moved on to a byte that its dialect does not use stops there. -/
theorem unused_byte_stops :
    let machine := (ofSource ⟨.befunge93, ["1u"]⟩ (Dice.ofSeed 0)).after [.execute 2]
    machine.WellFormed ∧ machine.cycle.1 = some (.faults [{
      kind := .invalidInstruction, location := some ⟨[1, 0]⟩, command := some 'u' }]) := by
  intro machine
  have loaded : (ofSource ⟨.befunge93, ["1u"]⟩ (Dice.ofSeed 0)).Reached :=
    .loaded (show Source.ofLines .befunge93 ["1u"] = _ by rfl) ⟨by decide, by decide +kernel⟩ _ _
  have reached : machine.Reached := loaded.used (.called (.execute 2) trivial)
  obtain ⟨wellFormed, _, faults, _⟩ : _ ∧ _ ∧ _ ∧ _ := reached_wellFormed reached
  have balks : machine.Balks := ⟨by decide +kernel, by decide +kernel, by decide +kernel, by decide +kernel⟩
  exact ⟨wellFormed, (faults _).mpr ⟨balks, by decide +kernel⟩⟩

end Machine
end Befunge
