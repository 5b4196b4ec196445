/-! Machine words. Every number that a program can hold is a signed word of 64
bits: what lies on a stack, what names a place, what counts. Sums, differences
and products wrap. Division rounds toward negative infinity, and dividing by zero
gives zero instead of stopping the program. -/

namespace Befunge

/-- A signed word of 64 bits. -/
abbrev Value := Int64

namespace Value

/-- The quotient rounded toward negative infinity. The machine truncates, so a
quotient that is not exact is one too large when the operands differ in sign. -/
def floorDiv (dividend divisor : Value) : Value :=
  if divisor = 0 then 0
  else if dividend % divisor ≠ 0 ∧ decide (dividend < 0) ≠ decide (divisor < 0) then
    dividend / divisor - 1
  else dividend / divisor

/-- The remainder that belongs to `floorDiv`: zero, or of the divisor's sign. -/
def floorMod (dividend divisor : Value) : Value :=
  if divisor = 0 then 0
  else
    let remainder := dividend % divisor
    if remainder ≠ 0 ∧ decide (remainder < 0) ≠ decide (divisor < 0) then remainder + divisor
    else remainder

def ofBool (truth : Bool) : Value :=
  if truth then 1 else 0

/-- One for zero, and zero for all else. -/
def logicalNot (value : Value) : Value :=
  ofBool (value == 0)

/-- One when the left operand is the larger, and zero otherwise. -/
def greater (left right : Value) : Value :=
  ofBool (decide (right < left))

/-- The low eight bits: what a cell keeps of a value. -/
def lowByte (value : Value) : UInt8 :=
  value.toUInt64.toUInt8

def ofByte (byte : UInt8) : Value :=
  Int64.ofNat byte.toNat

/-- The distance from zero, which for the least value is no value itself. -/
def magnitude (value : Value) : Nat :=
  value.toInt.natAbs

end Value

end Befunge
