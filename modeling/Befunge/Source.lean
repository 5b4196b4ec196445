import Befunge.Dialect
import Befunge.Fault
import Befunge.Text.Lines

/-! Program text that a dialect accepts. Befunge-93 text is a rectangle of 80 by 25
bytes at most, without an empty row. Funge-98 text may be ragged and of any size,
as long as some row holds something. -/

namespace Befunge

/-- Where program text comes from: a file of the given name, or the given text. -/
inductive LoadMode where
  | file
  | text
  deriving DecidableEq

/-- A mode is chosen by a single letter. -/
def LoadMode.ofText (letter : String) : Except Fault LoadMode :=
  if letter = "f" then .ok .file
  else if letter = "s" then .ok .text
  else .error { kind := .wrongLoadMode, message := letter }

structure Source where
  dialect : Dialect
  rows : List String
  deriving DecidableEq

namespace Source

def rowWidth (row : String) : Nat :=
  row.utf8ByteSize

def height (source : Source) : Nat :=
  source.rows.length

def width (source : Source) : Nat :=
  (source.rows.map rowWidth).foldl max 0

/-- Rows are told to people by a number counted from one. -/
def rowNumber (index : Nat) : String :=
  "row " ++ toString (index + 1)

/-- What a torus finds wrong with rows, if anything. -/
def torusFault? (rows : List String) : Option Fault :=
  let width := (rows.head?.map rowWidth).getD 0
  if width = 0 then some { kind := .emptySource }
  else match rows.findIdx? (rowWidth · = 0) with
  | some index => some { kind := .emptySource, message := rowNumber index ++ " is empty" }
  | none =>
    if Dialect.torusHeight < rows.length ∨ Dialect.torusWidth < width then
      some { kind := .outOfBounds, message := toString width ++ "×" ++ toString rows.length }
    else match rows.findIdx? (rowWidth · ≠ width) with
    | some index => some { kind := .notRectangular, message := rowNumber index }
    | none => none

/-- What a growing space finds wrong with rows, if anything. -/
def growingFault? (rows : List String) : Option Fault :=
  if rows.all (rowWidth · = 0) then some { kind := .emptySource } else none

def ofLines (dialect : Dialect) (rows : List String) : Except Fault Source :=
  match if dialect.isTorus then torusFault? rows else growingFault? rows with
  | some fault => .error fault
  | none => .ok ⟨dialect, rows⟩

def ofText (dialect : Dialect) (text : String) : Except Fault Source :=
  ofLines dialect (Text.lines text)

/-- Program text from the contents of a file, which are missing if there is no
such file. -/
def ofFile (dialect : Dialect) (path : String) (contents : Option ByteArray) :
    Except Fault Source :=
  match contents with
  | none => .error { kind := .fileNotFound, message := path }
  | some bytes =>
    match String.fromUTF8? bytes with
    | some text => ofText dialect text
    | none => .error { kind := .internal, message := "stream did not contain valid UTF-8" }

/-- Program text named by a mode and a text. The contents of files are given. -/
def load (dialect : Dialect) (files : String → Option ByteArray) (mode : LoadMode)
    (text : String) : Except Fault Source :=
  match mode with
  | .file => ofFile dialect text (files text)
  | .text => ofText dialect text

end Source

end Befunge
