import Befunge.Channel

/-! A session: a machine runs on a channel until it stops or something goes wrong. It
keeps running in rounds, and after each round the channel serves what the machine
has to tell. -/

namespace Befunge.Machine

def roundBudget : Nat := 5000

/-- How a session ends: the machine has stopped, a fault has come up, or there were
not rounds enough. -/
inductive Ending where
  | stopped
  | failed (fault : Fault)
  | unfinished
  deriving DecidableEq

/-- Goes on with what a channel gave, unless it failed. -/
def proceed (result : Except Fault α × σ) (next : α → Machine) : Except Ending Machine × σ :=
  match result with
  | (.ok given, channel) => (.ok (next given), channel)
  | (.error fault, channel) => (.error (.failed fault), channel)

/-- Serves an event. Gives the machine that is to go on, or how the session ends. Of
several faults the first one counts. -/
def serve [Channel σ] (machine : Machine) (event : Event) (channel : σ) :
    Except Ending Machine × σ :=
  match event with
  | .running => (.ok machine, channel)
  | .stopped => (.error .stopped, channel)
  | .print (.char c) => proceed (Channel.writeChar c channel) fun _ => machine
  | .print output => proceed (Channel.writeText output.text channel) fun _ => machine
  | .trace trace => proceed (Channel.writeTrace trace channel) fun _ => machine
  | .input .number => proceed (Channel.readNumber channel) machine.enterNumber
  | .input _ => proceed (Channel.readLine channel) machine.enter
  | .faults faults => (.error (.failed (faults.headD { kind := .internal })), channel)

/-- Runs for so many rounds at most. A machine whose session has failed can run on in
another one. -/
def run [Channel σ] (machine : Machine) (channel : σ) : Nat → Ending × Machine × σ
  | 0 => (.unfinished, machine, channel)
  | rounds + 1 =>
    let (event, machine) := machine.execute roundBudget
    match machine.serve event channel with
    | (.ok machine, channel) => machine.run channel rounds
    | (.error ending, channel) => (ending, machine, channel)

end Befunge.Machine
