import Befunge.Value

/-! Decimal numerals: how a value is written, and which texts are read as one. A
numeral is an optional sign and at least one ASCII digit, and names a number that
fits in a value. Leading zeros and a plus sign are read but never written. -/

namespace Befunge.Value

def text (value : Value) : String :=
  toString value.toInt

/-- The number that a non-empty row of ASCII digits names. -/
def digitsToNat? : List Char → Option Nat
  | [] => none
  | digits => if digits.all Char.isDigit then some (Nat.ofDigitChars 10 digits 0) else none

/-- The integer that a numeral names, of any size. -/
def numeralToInt? : List Char → Option Int
  | '-' :: digits => (digitsToNat? digits).map fun magnitude => -(magnitude : Int)
  | '+' :: digits => (digitsToNat? digits).map Int.ofNat
  | digits => (digitsToNat? digits).map Int.ofNat

def fits (number : Int) : Bool :=
  decide (Int64.minValue.toInt ≤ number ∧ number ≤ Int64.maxValue.toInt)

def ofText? (text : String) : Option Value :=
  match numeralToInt? text.toList with
  | some number => if fits number then some (Int64.ofInt number) else none
  | none => none

end Befunge.Value
