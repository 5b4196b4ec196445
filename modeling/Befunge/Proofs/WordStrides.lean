import Befunge.Proofs.ExactLines
import Befunge.Proofs.WrappedReads

/-! Strides counted in words. A distance is a difference of words with twice the width, which
is read without its sign, divided, and cut to half its width. None of this loses anything, also
where an axis is wider than a value can say, so the counts are those of exact integers. -/

namespace Befunge

namespace Value

/-- The value in a word of twice the width. -/
def wide (value : Value) : BitVec 128 :=
  value.toBitVec.signExtend 128

/-- The distance from zero in such a word. A word without a sign has room for that of the
least value too. -/
def wideMagnitude (value : Value) : BitVec 128 :=
  value.toBitVec.abs.setWidth 128

theorem toInt_wide (value : Value) : value.wide.toInt = value.toInt :=
  BitVec.toInt_signExtend_of_le (by omega)

theorem toNat_wideMagnitude (value : Value) : value.wideMagnitude.toNat = value.magnitude := by
  have bound := value.toBitVec.isLt
  have signed : value.toInt = _ := value.toBitVec.toInt_eq_msb_cond
  rw [wideMagnitude, magnitude, BitVec.toNat_setWidth, BitVec.toNat_abs]
  cases sign : value.toBitVec.msb with
  | true =>
    rw [sign, if_pos rfl] at signed
    rw [if_pos rfl, Nat.mod_eq_of_lt (by omega)]
    omega
  | false =>
    rw [sign, if_neg Bool.false_ne_true] at signed
    rw [if_neg Bool.false_ne_true, Nat.mod_eq_of_lt (by omega)]
    omega

end Value

private theorem toNat_min (first second : UInt64) : (min first second).toNat = min first.toNat second.toNat := by
  show (if first ≤ second then first else second).toNat = _
  rw [Nat.min_def]
  simp only [UInt64.le_iff_toNat_le]
  split <;> rfl

namespace Span

variable {span : Span} {near far value stride : Value}

/-- How many whole strides lead from a value up to another, in words. -/
def wholeStrides (near far stride : Value) : UInt64 :=
  ⟨((far.wide - near.wide) / stride.wideMagnitude).setWidth 64⟩

def wordStrides (span : Span) (value stride : Value) : UInt64 × UInt64 :=
  let below := wholeStrides span.low value stride
  let above := wholeStrides value span.high stride
  if 0 < stride then (below, above) else (above, below)

/-- The numbers that the words stand for while whole strides are counted. The difference does
not wrap and has no sign to lose, nothing is divided by zero, and the quotient has no high half. -/
structure Lossless (near far stride : Value) : Prop where
  widened : near.wide.toInt = near.toInt ∧ far.wide.toInt = far.toInt
  difference : (far.wide - near.wide).toInt = far.toInt - near.toInt
  unsigned : ((far.wide - near.wide).toNat : Int) = (far.wide - near.wide).toInt
  divisor : stride.wideMagnitude.toNat = stride.magnitude ∧ stride.magnitude ≠ 0
  halved : (wholeStrides near far stride).toNat = ((far.wide - near.wide) / stride.wideMagnitude).toNat

theorem lossless (order : near.toInt ≤ far.toInt) (moving : stride ≠ 0) : Lossless near far stride := by
  have low := near.le_toInt
  have high := far.toInt_lt
  have above := far.le_toInt
  have below := near.toInt_lt
  have difference : (far.wide - near.wide).toInt = far.toInt - near.toInt := by
    rw [BitVec.toInt_sub, Value.toInt_wide, Value.toInt_wide]
    exact Int.bmod_eq_of_le (by omega) (by omega)
  -- The difference is not negative, so the bit that would be its sign is not set.
  have unsigned : ((far.wide - near.wide).toNat : Int) = (far.wide - near.wide).toInt := by
    have bound := (far.wide - near.wide).isLt
    have signed := (far.wide - near.wide).toInt_eq_toNat_cond
    split at signed <;> omega
  have nonzero : stride.magnitude ≠ 0 := by
    intro zero
    exact moving (Int64.toInt_inj.mp (Int.natAbs_eq_zero.mp zero))
  refine ⟨⟨near.toInt_wide, far.toInt_wide⟩, difference, unsigned, ⟨stride.toNat_wideMagnitude, nonzero⟩, ?_⟩
  have fewer := Nat.div_le_self (far.wide - near.wide).toNat stride.wideMagnitude.toNat
  rw [wholeStrides, UInt64.toNat_ofBitVec, BitVec.toNat_setWidth, BitVec.toNat_udiv]
  exact Nat.mod_eq_of_lt (by omega)

theorem Lossless.exact (lossless : Lossless near far stride) :
    (wholeStrides near far stride).toNat = (far.toInt - near.toInt).toNat / stride.magnitude := by
  have distance : (far.wide - near.wide).toNat = (far.toInt - near.toInt).toNat := by
    rw [← lossless.difference, ← lossless.unsigned, Int.toNat_natCast]
  rw [lossless.halved, BitVec.toNat_udiv, distance, lossless.divisor.1]

theorem wordStrides_exact (inside : span.contains value = true) (moving : stride ≠ 0) :
    ((span.wordStrides value stride).1.toNat, (span.wordStrides value stride).2.toNat) = span.strides value stride := by
  obtain ⟨least, greatest⟩ := contains_iff.mp inside
  have below := (lossless least moving).exact
  have above := (lossless greatest moving).exact
  have sign : stride < 0 ↔ ¬ 0 < stride := by
    have nonzero : stride.toInt ≠ 0 := fun zero => moving (Int64.toInt_inj.mp zero)
    simp only [Int64.lt_iff_toInt_lt, Int64.toInt_zero]
    omega
  simp only [wordStrides, strides, sign]
  by_cases positive : 0 < stride
  · rw [if_pos positive, if_neg (not_not_intro positive), below, above]
  · rw [if_neg positive, if_pos positive, below, above]

end Span

namespace Extent

variable {extent : Extent} {place stride : Vec}

def wordStridesAlong : List Span → List Value → List Value → UInt64 × UInt64
  | span :: spans, c :: cs, d :: ds =>
    let rest := wordStridesAlong spans cs ds
    if d = 0 then rest
    else
      let here := span.wordStrides c d
      (min here.1 rest.1, min here.2 rest.2)
  | _, _, _ => (0xffffffffffffffff, 0xffffffffffffffff)

def wordStrides? (extent : Extent) (place stride : Vec) : Option (UInt64 × UInt64) :=
  if stride.isZero || !extent.contains place then none
  else some (wordStridesAlong extent.spans place.components stride.components)

private theorem wordStridesAlong_exact {spans : List Span} {cs ds : List Value}
    (inside : List.Forall₂ (fun span c => span.contains c = true) spans cs) :
    ((wordStridesAlong spans cs ds).1.toNat, (wordStridesAlong spans cs ds).2.toNat) = stridesAlong spans cs ds := by
  induction inside generalizing ds with
  | nil => rfl
  | @cons span c spans cs here _ ih =>
    cases ds with
    | nil => rfl
    | cons d ds =>
      have rest := @ih ds
      simp only [wordStridesAlong, stridesAlong]
      split
      next => exact rest
      next moving =>
        have first := Span.wordStrides_exact here moving
        rw [← first, ← rest, toNat_min, toNat_min]

theorem wordStrides?_exact (inside : extent.contains place = true) (stride : Vec) :
    (extent.wordStrides? place stride).map (fun count => (count.1.toNat, count.2.toNat)) = extent.strides? place stride := by
  simp only [wordStrides?, strides?, inside]
  split
  · rfl
  · exact congrArg some (wordStridesAlong_exact (contains_iff.mp inside))

end Extent

namespace Space

/-- Counting strides is exact in every space, also in one that is wider than a value can say. As
many strides as are counted lead to places inside, backward and ahead, and not one more, and the
words in which they are counted lose nothing on the way. -/
theorem strides_counted (space : Space) (place stride : Vec) (inside : space.contains place = true)
    (axes : stride.dimension = space.dimension) (moving : stride.isZero = false) :
    ∃ back ahead : UInt64,
      space.extent.strides? place stride = some (back.toNat, ahead.toNat) ∧
      (∀ count : Nat,
        (space.extent.Holds (place.point stride count) ↔ count ≤ ahead.toNat) ∧
        (space.extent.Holds (place.point stride (-count)) ↔ count ≤ back.toNat)) ∧
      space.extent.wordStrides? place stride = some (back, ahead) ∧
      ∀ axis span, space.extent.spans[axis]? = some span → stride.get axis ≠ 0 →
        Span.Lossless span.low (place.get axis) (stride.get axis) ∧
        Span.Lossless (place.get axis) span.high (stride.get axis) := by
  have same : stride.dimension = place.dimension := axes.trans (Extent.dimension_of_contains inside).symm
  obtain ⟨behind, before, counted⟩ := Extent.strides?_some inside moving
  have words := Extent.wordStrides?_exact inside stride
  rw [counted, Option.map_eq_some_iff] at words
  obtain ⟨⟨back, ahead⟩, words, exact⟩ := words
  obtain ⟨rfl, rfl⟩ := Prod.mk.inj exact
  have line (count : Int) : space.extent.Holds (place.point stride count) ↔ -(back.toNat : Int) ≤ count ∧ count ≤ ahead.toNat :=
    Extent.strides?_exact same counted count
  refine ⟨back, ahead, counted, ?_, words, ?_⟩
  · intro count
    rw [line, line]
    omega
  · intro axis span found nonzero
    obtain ⟨bound, rfl⟩ := List.getElem?_eq_some_iff.mp found
    obtain ⟨least, greatest⟩ := Span.contains_iff.mp (Extent.contains_get inside bound)
    exact ⟨Span.lossless least nonzero, Span.lossless greatest nonzero⟩

/-- A line written at both of its ends, so that it has every value. From the first cell to the last
it is as many strides as can be counted, and from the last one only a single stride of the longest
stays inside. -/
theorem widest_line_counted :
    let space := ((load ⟨.unefunge98, ["@"]⟩).put ⟨[Int64.minValue]⟩ 0x61).put ⟨[Int64.maxValue]⟩ 0x7a
    space.extent.strides? ⟨[Int64.minValue]⟩ ⟨[1]⟩ = some (0, 0xffffffffffffffff) ∧
      space.extent.Holds (Vec.point ⟨[Int64.minValue]⟩ ⟨[1]⟩ 0xffffffffffffffff) ∧
      space.extent.Holds (Vec.point ⟨[Int64.maxValue]⟩ ⟨[Int64.minValue]⟩ 1) ∧
      ¬ space.extent.Holds (Vec.point ⟨[Int64.maxValue]⟩ ⟨[Int64.minValue]⟩ 2) := by
  intro space
  have all : space.extent.strides? ⟨[Int64.minValue]⟩ ⟨[1]⟩ = some (0, 0xffffffffffffffff) := by decide +kernel
  have one : space.extent.strides? ⟨[Int64.maxValue]⟩ ⟨[Int64.minValue]⟩ = some (0, 1) := by decide +kernel
  obtain ⟨_, ahead, counted, line, _⟩ := strides_counted space ⟨[Int64.minValue]⟩ ⟨[1]⟩
    (by decide +kernel) (by decide +kernel) (by decide)
  obtain ⟨_, longest, alsoCounted, across, _⟩ := strides_counted space ⟨[Int64.maxValue]⟩ ⟨[Int64.minValue]⟩
    (by decide +kernel) (by decide +kernel) (by decide)
  rw [all, Option.some.injEq, Prod.mk.injEq] at counted
  rw [one, Option.some.injEq, Prod.mk.injEq] at alsoCounted
  refine ⟨all, (line 0xffffffffffffffff).1.mpr (Nat.le_of_eq counted.2), (across 1).1.mpr (Nat.le_of_eq alsoCounted.2), ?_⟩
  intro twice
  have more := (across 2).1.mp twice
  omega

end Space
end Befunge
