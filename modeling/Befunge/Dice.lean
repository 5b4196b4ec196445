/-! Random choices. A program's course is fixed once the dice are: each throw has its
face from the start, and the machine only counts how many throws it has made. -/

namespace Befunge

structure Dice where
  /-- The number that each throw shows, of any size. -/
  face : Nat → Nat
  thrown : Nat

namespace Dice

def throw (dice : Dice) (choices : Nat) : Nat × Dice :=
  (dice.face dice.thrown % choices, { dice with thrown := dice.thrown + 1 })

/-- Mixes the bits of a word, so that neighbouring words give unlike ones. -/
def mix (word : UInt64) : UInt64 :=
  let word := (word ^^^ (word >>> 30)) * 0xbf58476d1ce4e5b9
  let word := (word ^^^ (word >>> 27)) * 0x94d049bb133111eb
  word ^^^ (word >>> 31)

def ofSeed (seed : UInt64) : Dice where
  face index := (mix (seed + 0x9e3779b97f4a7c15 * UInt64.ofNat (index + 1))).toNat
  thrown := 0

end Dice

end Befunge
