/-! The three dialects. Befunge-93 runs on a torus of at most 80 by 25 cells with a
single stack. The Funge-98 dialects, one on a line and one on a plane, add the
stack of stacks, a space that grows as it is written, and further instructions. -/

namespace Befunge

inductive Dialect where
  | befunge93
  | unefunge98
  | befunge98
  deriving DecidableEq

/-- What becomes of a byte that is no instruction: it stops the program with a
fault, or does nothing. -/
inductive UnknownPolicy where
  | halt
  | ignore
  deriving DecidableEq

namespace Dialect

def all : List Dialect :=
  [befunge93, unefunge98, befunge98]

def standard : Dialect :=
  befunge93

def dimension : Dialect → Nat
  | unefunge98 => 1
  | befunge93 | befunge98 => 2

/-- Whether the dialect has the instructions of Funge-98. -/
def isFunge98 : Dialect → Bool
  | befunge93 => false
  | unefunge98 | befunge98 => true

/-- Whether program space is a torus whose size the program text fixes. -/
def isTorus (dialect : Dialect) : Bool :=
  !dialect.isFunge98

def policy (dialect : Dialect) : UnknownPolicy :=
  if dialect.isFunge98 then .ignore else .halt

/-- The most rows a torus can have. -/
def torusHeight : Nat := 25

/-- The most bytes a row of a torus can have. -/
def torusWidth : Nat := 80

def title : Dialect → String
  | befunge93 => "Befunge-93"
  | unefunge98 => "Unefunge-98"
  | befunge98 => "Befunge-98"

def name : Dialect → String
  | befunge93 => "befunge93"
  | unefunge98 => "unefunge98"
  | befunge98 => "befunge98"

/-- The dialect of a given name. Only ASCII letters have two cases. -/
def ofName? (ignoreCase : Bool) (text : String) : Option Dialect :=
  all.find? fun dialect =>
    dialect.name.toList == text.toList.map fun c => if ignoreCase then c.toLower else c

def unknownName (text : String) : String :=
  "invalid variant: " ++ text

end Dialect

end Befunge
