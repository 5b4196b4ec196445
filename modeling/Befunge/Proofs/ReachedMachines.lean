import Befunge.Proofs.SessionRuns
import Befunge.Proofs.StoredCells
import Befunge.Proofs.ToldFaults

/-! The machines that there can be. A machine is begun with accepted text or with a grid to
be typed in, and from then on its owner may make any call, run it on any channel and set it
up anew, in whatever order. All text is of a size that memory can hold. -/

namespace Befunge.Machine

def Call.Held : Call → Prop
  | .enter line => line.utf8ByteSize < 0x8000000000000000
  | _ => True

/-- All that can be done with a machine. -/
inductive Uses (machine : Machine) : Machine → Prop
  | setUp (policy : UnknownPolicy) (tracing : Tracing) (dice : Dice) : Uses machine { machine with policy, tracing, dice }
  | called (call : Call) (held : call.Held) : Uses machine (machine.call call).2
  | ran {σ : Type} [Channel σ] (channel : σ) (rounds : Nat)
      (held : ∀ line, Channel.Offers channel line → line.utf8ByteSize < 0x8000000000000000) :
      Uses machine (machine.run channel rounds).2.1

/-- A machine that can come about. -/
inductive Reached : Machine → Prop
  | loaded {dialect : Dialect} {rows : List String} {source : Source} (accepted : Source.ofLines dialect rows = .ok source)
      (held : Source.Held rows) (dice : Dice) (memory : Memory) : Reached (ofSource source dice memory)
  | typed (dialect : Dialect) (dice : Dice) (memory : Memory) : Reached (interactive dialect dice memory)
  | used {machine later : Machine} (reached : Reached machine) (uses : machine.Uses later) : Reached later

variable {machine later : Machine} {holds : Machine → Prop}

private theorem after_held (called : ∀ machine call, call.Held → holds machine → holds (machine.call call).2)
    {calls : List Call} (each : ∀ call ∈ calls, call.Held) (now : holds machine) : holds (machine.after calls) := by
  induction calls generalizing machine with
  | nil => exact now
  | cons call calls ih =>
    rw [List.forall_mem_cons] at each
    exact ih each.2 (called _ _ each.1 now)

theorem Uses.preserves (holds : Machine → Prop)
    (setUp : ∀ machine policy tracing dice, holds machine → holds { machine with policy, tracing, dice })
    (called : ∀ machine call, call.Held → holds machine → holds (machine.call call).2) (uses : machine.Uses later)
    (now : holds machine) : holds later := by
  cases uses with
  | setUp policy tracing dice => exact setUp _ _ _ _ now
  | called call held => exact called _ _ held now
  | ran channel rounds held =>
    obtain ⟨calls, same, lines⟩ := run_after (@Channel.Becomes.unused _ _ channel) machine rounds
    rw [same]
    apply after_held called _ now
    intro call member
    cases call with
    | enter line => exact held line (lines line member)
    | execute | enterNumber | enterChar | interrupt => trivial

theorem Reached.faults (reached : machine.Reached) : ∀ fault ∈ machine.faults, fault.kind ∈ FaultKind.ofEntry := by
  induction reached with
  | loaded | typed => nofun
  | used _ uses ih =>
    refine uses.preserves (fun machine => ∀ fault ∈ machine.faults, fault.kind ∈ FaultKind.ofEntry) ?_ ?_ ih
    · intro machine policy tracing dice waiting
      exact waiting
    · intro machine call _ waiting fault waits
      rcases call_faults machine call fault waits with before | kind
      · exact waiting fault before
      · exact kind

end Befunge.Machine
