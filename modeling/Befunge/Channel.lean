import Befunge.Machine.Entry

/-! Channels: where lines are read from and texts are written to. A channel has to
say how it reads a line and how it writes a text. Reading a number and writing a
character or a trace follow from these, but a channel may do them in its own way. -/

namespace Befunge

/-- What a use of a channel comes to, and the channel afterwards. -/
abbrev Channel.Use (σ α : Type) := σ → Except Fault α × σ

class Channel (σ : Type) where
  /-- The next line without its break. -/
  readLine : Channel.Use σ String
  writeText : String → Channel.Use σ Unit
  readNumber : Channel.Use σ Value := fun channel =>
    match readLine channel with
    | (.ok line, channel) => (Machine.readNumber line, channel)
    | (.error fault, channel) => (.error fault, channel)
  writeChar : Char → Channel.Use σ Unit := fun c => writeText (String.singleton c)
  writeTrace : Trace → Channel.Use σ Unit := fun trace => writeText (trace.text ++ "\n")

structure Buffer where
  input : List String
  output : String := ""
  deriving DecidableEq

namespace Buffer

def readLine : Channel.Use Buffer String
  | ⟨[], output⟩ => (.error { kind := .inputPastEnd }, ⟨[], output⟩)
  | ⟨line :: input, output⟩ => (.ok line, ⟨input, output⟩)

def writeText (text : String) (buffer : Buffer) : Except Fault Unit × Buffer :=
  (.ok (), { buffer with output := buffer.output ++ text })

def writeChar (c : Char) (buffer : Buffer) : Except Fault Unit × Buffer :=
  (.ok (), { buffer with output := buffer.output.push c })

instance : Channel Buffer where
  readLine := readLine
  writeText := writeText
  writeChar := writeChar

end Buffer

/-- Lines that wait to be read, and the texts that were written, each on its own. -/
structure Transcript where
  input : List String
  writes : Array String := #[]
  deriving DecidableEq

namespace Transcript

def readLine : Channel.Use Transcript String
  | ⟨[], writes⟩ => (.error { kind := .inputPastEnd }, ⟨[], writes⟩)
  | ⟨line :: input, writes⟩ => (.ok line, ⟨input, writes⟩)

def writeText (text : String) (transcript : Transcript) : Except Fault Unit × Transcript :=
  (.ok (), { transcript with writes := transcript.writes.push text })

instance : Channel Transcript where
  readLine := readLine
  writeText := writeText

end Transcript

end Befunge
