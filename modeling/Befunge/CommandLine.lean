import Befunge.Machine.Entry

/-! What is asked for on the command line, and the words with which a machine at a
terminal asks for input. -/

namespace Befunge.CommandLine

structure Options where
  /-- The program file. Without one the grid is typed in. -/
  file : Option String := none
  dialect : Dialect := Dialect.standard
  debug : Bool := false
  /-- Whether the grid is typed in even though there is a file. -/
  interactive : Bool := false
  seed : Option Nat := none
  /-- The budget of each run of the machine. -/
  cycles : Nat := 5000
  deriving DecidableEq

def usage : String :=
  "usage: befunge [FILE] [--dialect NAME] [--debug] [--interactive] [--seed N] [--cycles N]"

/-- Takes in the arguments in turn. The last of several values counts. -/
def parse (options : Options) : List String → Except String Options
  | [] => .ok options
  | "--debug" :: rest => parse { options with debug := true } rest
  | "-i" :: rest => parse { options with interactive := true } rest
  | "--interactive" :: rest => parse { options with interactive := true } rest
  | "-d" :: name :: rest => chosen name rest
  | "--dialect" :: name :: rest => chosen name rest
  | "--seed" :: number :: rest =>
    match number.toNat? with
    | some seed => parse { options with seed := some seed } rest
    | none => .error ("invalid seed: " ++ number)
  | "--cycles" :: number :: rest =>
    match number.toNat? with
    | some (cycles + 1) => parse { options with cycles := cycles + 1 } rest
    | _ => .error ("invalid number of cycles: " ++ number)
  | argument :: rest =>
    if argument.startsWith "-" then .error ("unexpected argument: " ++ argument)
    else if options.file.isSome then .error ("unexpected argument: " ++ argument)
    else parse { options with file := some argument } rest
where
  chosen (name : String) (rest : List String) : Except String Options :=
    match Dialect.ofName? false name with
    | some dialect => parse { options with dialect } rest
    | none => .error (Dialect.unknownName name)

/-- What is shown before a line is typed: for a row, which one it will be. -/
def prompt (machine : Machine) : Request → String
  | .number => "& "
  | .char => "~ "
  | .row =>
    let number := toString (machine.space.height + 1)
    (if number.length < 2 then " " else "") ++ number ++ "| "

def chomp (line : String) : String :=
  match Text.lines line with
  | row :: _ => row
  | [] => ""

/-- The part of an exit code that a process can give back. -/
def exitStatus (failed : Bool) (machine : Machine) : UInt32 :=
  if failed then 1 else machine.exitCode.toUInt64.toUInt32

end Befunge.CommandLine
