import Befunge.CommandLine

/-! The command line. It runs a program file, or a grid that is typed in a row at a
time, and serves the machine from the terminal. -/

namespace Befunge.Main

def contents (path : String) : IO (Option ByteArray) := do
  try
    return some (← IO.FS.readBinFile path)
  catch
    | .noFileOrDirectory .. => return none
    | error => throw error

def load (options : CommandLine.Options) (dice : Dice) : IO (Except Fault Machine) := do
  match options.file, options.interactive with
  | some path, false =>
    let source := Source.ofFile options.dialect path (← contents path)
    return source.map (Machine.ofSource · dice)
  | _, _ => return .ok (Machine.interactive options.dialect dice)

/-- Runs until the machine has stopped, or the input ends. -/
partial def serve (cycles : Nat) (failed : Bool) (machine : Machine) : IO UInt32 := do
  let (event, machine) := machine.execute cycles
  match event with
  | .running => serve cycles failed machine
  | .stopped => return CommandLine.exitStatus failed machine
  | .print output =>
    IO.print output.text
    (← IO.getStdout).flush
    serve cycles failed machine
  | .trace trace =>
    IO.println trace.text
    serve cycles failed machine
  | .faults faults =>
    for fault in faults do
      IO.eprintln fault.text
    serve cycles (failed || machine.status == .halted) machine
  | .input request =>
    IO.print (CommandLine.prompt machine request)
    (← IO.getStdout).flush
    let line ← (← IO.getStdin).getLine
    if line.isEmpty && request != .row then return CommandLine.exitStatus failed machine
    serve cycles failed (machine.enter (CommandLine.chomp line))

end Befunge.Main

def main (arguments : List String) : IO UInt32 := do
  match Befunge.CommandLine.parse {} arguments with
  | .error message =>
    IO.eprintln message
    IO.eprintln Befunge.CommandLine.usage
    return 2
  | .ok options =>
    let seed ← match options.seed with
      | some seed => pure seed
      | none => IO.monoNanosNow
    match ← Befunge.Main.load options (Befunge.Dice.ofSeed (UInt64.ofNat seed)) with
    | .error fault =>
      IO.eprintln fault.text
      return 1
    | .ok machine =>
      Befunge.Main.serve options.cycles false { machine with tracing := .ofBool options.debug }
