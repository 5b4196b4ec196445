import Mathlib.Data.Rat.Floor
import Befunge.Instruction

/-! Division of machine words. The machine truncates and mends what it gets, once for the
quotient and once for the remainder. Both together are the division that rounds toward
negative infinity, and only the quotient of the least value by minus one does not fit. -/

namespace Befunge

namespace Value

variable {dividend divisor : Value}

/-- Where a remainder lies: between zero and the divisor, on the side of the divisor. -/
def Between (divisor remainder : Int) : Prop :=
  0 ≤ remainder ∧ remainder < divisor ∨ divisor < remainder ∧ remainder ≤ 0

theorem floor_eq {dividend divisor quotient remainder : Int} (sum : dividend = divisor * quotient + remainder)
    (between : Between divisor remainder) : ⌊(dividend : ℚ) / divisor⌋ = quotient := by
  have exact : (dividend : ℚ) = quotient * divisor + remainder := by
    rw [sum]
    push_cast
    ring
  rw [Int.floor_eq_iff, exact]
  obtain ⟨least, less⟩ | ⟨greater, most⟩ := between
  · have positive : (0 : ℚ) < divisor := by exact_mod_cast lt_of_le_of_lt least less
    rw [le_div_iff₀ positive, div_lt_iff₀ positive, add_mul, one_mul]
    constructor <;> norm_cast <;> omega
  · have negative : (divisor : ℚ) < 0 := by exact_mod_cast lt_of_lt_of_le greater most
    rw [le_div_iff_of_neg negative, div_lt_iff_of_neg negative, add_mul, one_mul]
    constructor <;> norm_cast <;> omega

theorem Between.sign {divisor remainder : Int} (between : Between divisor remainder) :
    (remainder = 0 ∨ remainder.sign = divisor.sign) ∧ remainder.natAbs < divisor.natAbs := by
  refine ⟨?_, by unfold Between at between; omega⟩
  by_cases zero : remainder = 0
  · exact .inl zero
  · right
    obtain ⟨least, less⟩ | ⟨greater, most⟩ := between
    · rw [Int.sign_eq_one_of_pos (by omega), Int.sign_eq_one_of_pos (by omega)]
    · rw [Int.sign_eq_neg_one_of_neg (by omega), Int.sign_eq_neg_one_of_neg (by omega)]

theorem truncated_remainder {dividend divisor : Int} (nonzero : divisor ≠ 0) :
    (dividend.tmod divisor).natAbs < divisor.natAbs ∧
      (0 ≤ dividend → 0 ≤ dividend.tmod divisor) ∧ (dividend ≤ 0 → dividend.tmod divisor ≤ 0) := by
  refine ⟨?_, Int.tmod_nonneg _, fun negative => ?_⟩
  · rw [Int.natAbs_tmod]
    exact Nat.mod_lt _ (Int.natAbs_pos.mpr nonzero)
  · have mirrored := Int.tmod_nonneg divisor (Int.neg_nonneg_of_nonpos negative)
    rw [Int.neg_tmod] at mirrored
    omega

theorem div_exact (dividend divisor : Value) : dividend / divisor = Int64.ofInt (dividend.toInt.tdiv divisor.toInt) := by
  rw [eq_comm, Int64.ofInt_eq_iff_bmod_eq_toInt, Int64.toInt_div]

theorem mod_eq_zero_iff : dividend % divisor = 0 ↔ dividend.toInt.tmod divisor.toInt = 0 := by
  rw [← Int64.toInt_inj, Int64.toInt_mod, Int64.toInt_zero]

theorem quotient_fits_iff {dividend divisor quotient remainder : Int} (sum : dividend = divisor * quotient + remainder)
    (between : Between divisor remainder) (least : -0x8000000000000000 ≤ dividend) (less : dividend < 0x8000000000000000) :
    -0x8000000000000000 ≤ quotient ∧ quotient < 0x8000000000000000 ↔
      ¬ (dividend = -0x8000000000000000 ∧ divisor = -1) := by
  unfold Between at between
  constructor
  · rintro ⟨_, fits⟩ ⟨rfl, rfl⟩
    omega
  · intro other
    by_contra wide
    -- The remainder is too small to make up for a product that lies outside.
    rcases between with ⟨_, _⟩ | ⟨_, _⟩
    · have low (below : quotient ≤ -0x8000000000000001) := Int.mul_le_mul_of_nonneg_left below (by omega : 0 ≤ divisor)
      have high (above : 0x8000000000000000 ≤ quotient) := Int.mul_le_mul_of_nonneg_left above (by omega : 0 ≤ divisor)
      omega
    · have low (below : quotient ≤ -0x8000000000000001) := Int.mul_le_mul_of_nonpos_left (by omega : divisor ≤ 0) below
      have high (above : 0x8000000000000000 ≤ quotient) := Int.mul_le_mul_of_nonpos_left (by omega : divisor ≤ 0) above
      omega

/-- Both corrections are made in the same cases, and what one takes from the quotient the other
adds to the remainder. -/
theorem floored (nonzero : divisor ≠ 0) :
    ∃ quotient : Int, dividend.floorDiv divisor = Int64.ofInt quotient ∧
      dividend.toInt = divisor.toInt * quotient + (dividend.floorMod divisor).toInt ∧
      Between divisor.toInt (dividend.floorMod divisor).toInt := by
  have apart : divisor.toInt ≠ 0 := by rwa [ne_eq, ← Int64.toInt_zero, Int64.toInt_inj]
  obtain ⟨nearer, above, below⟩ := @truncated_remainder dividend.toInt divisor.toInt apart
  have sum := Int.mul_tdiv_add_tmod dividend.toInt divisor.toInt
  have exact := Int64.toInt_mod dividend divisor
  have least := divisor.le_toInt
  have less := divisor.toInt_lt
  simp only [floorDiv, floorMod, nonzero, ↓reduceIte, ne_eq, decide_eq_decide, mod_eq_zero_iff, Int64.lt_iff_toInt_lt,
    Int64.toInt_zero, div_exact, exact, Between]
  -- The test for the remainder looks at what truncating leaves, the one for the quotient at the dividend.
  have tests : ¬ dividend.toInt.tmod divisor.toInt = 0 ∧ ¬ (dividend.toInt.tmod divisor.toInt < 0 ↔ divisor.toInt < 0) ↔
      ¬ dividend.toInt.tmod divisor.toInt = 0 ∧ ¬ (dividend.toInt < 0 ↔ divisor.toInt < 0) := by
    omega
  simp only [tests]
  by_cases mends : ¬ dividend.toInt.tmod divisor.toInt = 0 ∧ ¬ (dividend.toInt < 0 ↔ divisor.toInt < 0)
  · refine ⟨dividend.toInt.tdiv divisor.toInt - 1, ?_, ?_⟩
    · rw [if_pos mends, Int64.ofInt_sub]
      rfl
    · rw [if_pos mends, Int64.toInt_add, exact, Int.bmod_eq_of_le (by omega) (by omega), Int.mul_sub, Int.mul_one]
      omega
  · refine ⟨dividend.toInt.tdiv divisor.toInt, if_neg mends, ?_⟩
    rw [if_neg mends, exact]
    omega

end Value

/-- The quotient is the floor of the exact one, and the remainder is what it leaves. It lies on the
side of the divisor and is smaller. Only the least value divided by minus one wraps. Dividing by
zero gives zero. -/
theorem division_floors (dividend divisor : Value) :
    let quotient := Arithmetic.apply .div dividend divisor
    let remainder := Arithmetic.apply .mod dividend divisor
    let floor := ⌊(dividend.toInt : ℚ) / divisor.toInt⌋
    (divisor = 0 → quotient = 0 ∧ remainder = 0) ∧
      (divisor ≠ 0 →
        quotient.toInt = floor.bmod 0x10000000000000000 ∧
        (quotient.toInt = floor ↔ ¬ (dividend = Int64.minValue ∧ divisor = -1)) ∧
        remainder.toInt = dividend.toInt - divisor.toInt * floor ∧
        (remainder.toInt = 0 ∨ remainder.toInt.sign = divisor.toInt.sign) ∧
        remainder.toInt.natAbs < divisor.toInt.natAbs ∧
        Arithmetic.apply .add (Arithmetic.apply .mul divisor quotient) remainder = dividend) := by
  intro quotient remainder floor
  constructor
  · rintro rfl
    exact ⟨rfl, rfl⟩
  · intro nonzero
    obtain ⟨exact, wrapped, sum, between⟩ := @Value.floored dividend divisor nonzero
    have divided : quotient = Int64.ofInt exact := wrapped
    have left : dividend.toInt = divisor.toInt * exact + remainder.toInt := sum
    have floors : floor = exact := Value.floor_eq sum between
    obtain ⟨sided, nearer⟩ := between.sign
    have fits := Value.quotient_fits_iff sum between dividend.le_toInt dividend.toInt_lt
    rw [floors, divided]
    refine ⟨Int64.toInt_ofInt, ?_, by omega, sided, nearer, ?_⟩
    · rw [← Int64.toInt_inj, ← Int64.toInt_inj, show Int64.minValue.toInt = -0x8000000000000000 from rfl,
        show (-1 : Value).toInt = -1 from rfl, ← fits]
      constructor
      · intro same
        have := (Int64.ofInt exact).le_toInt
        have := (Int64.ofInt exact).toInt_lt
        omega
      · rintro ⟨least, less⟩
        exact Int64.toInt_ofInt_of_le least less
    · show divisor * Int64.ofInt exact + remainder = dividend
      rw [← Int64.ofInt_toInt dividend, left, Int64.ofInt_add, Int64.ofInt_mul, Int64.ofInt_toInt, Int64.ofInt_toInt]

/-- The one quotient that wraps, and one that is not exact and whose remainder is positive although
the dividend is negative. -/
theorem least_by_minus_one :
    (Arithmetic.apply .div Int64.minValue (-1)).toInt ≠ ⌊(Int64.minValue.toInt : ℚ) / (-1 : Value).toInt⌋ ∧
      Arithmetic.apply .add (Arithmetic.apply .mul (-1) (Arithmetic.apply .div Int64.minValue (-1)))
        (Arithmetic.apply .mod Int64.minValue (-1)) = Int64.minValue ∧
      (Arithmetic.apply .div (-9) 4).toInt = ⌊((-9 : Value).toInt : ℚ) / (4 : Value).toInt⌋ ∧
      (Arithmetic.apply .mod (-9) 4).toInt.sign = 1 := by
  obtain ⟨_, wraps, _, _, _, back⟩ := (division_floors Int64.minValue (-1)).2 (by decide)
  obtain ⟨_, exact, _, sided, _, _⟩ := (division_floors (-9) 4).2 (by decide)
  refine ⟨fun same => wraps.mp same ⟨rfl, rfl⟩, back, exact.mpr (by decide), sided.resolve_left (by decide)⟩

end Befunge
