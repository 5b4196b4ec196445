import Befunge.Span

/-! Spans as intervals of exact integers. Sizes and wrapped values are words, and
the conditions under which they mean what the integers mean are found here once. -/

namespace Befunge

private theorem ofInt_exact {number : Int} (least : -0x8000000000000000 ≤ number)
    (greatest : number < 0x8000000000000000) : (Int64.ofInt number).toInt = number :=
  Int64.toInt_ofInt_of_le least greatest

namespace Span

@[simp] theorem contains_iff {span : Span} {value : Value} :
    span.contains value = true ↔ span.low.toInt ≤ value.toInt ∧ value.toInt ≤ span.high.toInt := by
  simp [contains, Int64.le_iff_toInt_le]

/-- Some value says how many values the span holds. -/
def Fits (span : Span) : Prop :=
  span.high.toInt - span.low.toInt + 1 ≤ Int64.maxValue.toInt

instance (span : Span) : Decidable span.Fits :=
  inferInstanceAs (Decidable (_ ≤ _))

private theorem size_word (span : Span) :
    (span.high - span.low + 1).toInt = (span.high.toInt - span.low.toInt + 1).bmod 0x10000000000000000 := by
  simp [Int64.toInt_add, Int64.toInt_sub]

theorem size_eq_zero_iff {span : Span} (proper : span.low.toInt ≤ span.high.toInt) :
    span.size = 0 ↔ ¬ span.Fits := by
  have low := span.low.le_toInt
  have high := span.high.toInt_lt
  simp only [size, size_word, Fits, Int.bmod_def, Int64.toInt_maxValue]
  split <;> omega

private theorem size_lt (span : Span) : (span.size : Int) < 0x8000000000000000 := by
  have greatest := (span.high - span.low + 1).toInt_lt
  simp only [size]
  omega

theorem size_exact {span : Span} (sized : span.size ≠ 0) (proper : span.low.toInt ≤ span.high.toInt) :
    (span.size : Int) = span.high.toInt - span.low.toInt + 1 := by
  have fits : span.Fits := Classical.not_not.mp fun wide => sized ((size_eq_zero_iff proper).mpr wide)
  have low := span.low.le_toInt
  have high := span.high.toInt_lt
  simp only [Fits, Int64.toInt_maxValue] at fits
  simp only [size, size_word, Int.bmod_def]
  split <;> omega

theorem wrap_exact {span : Span} (sized : span.size ≠ 0) (proper : span.low.toInt ≤ span.high.toInt) (value : Value) :
    (span.wrap value).toInt = (value - span.low).toInt % span.size + span.low.toInt := by
  have size := size_exact sized proper
  have bound := size_lt span
  have low := span.low.le_toInt
  have high := span.high.toInt_lt
  have least := Int.emod_nonneg (value - span.low).toInt (by omega : (span.size : Int) ≠ 0)
  have less := Int.emod_lt_of_pos (value - span.low).toInt (by omega : 0 < (span.size : Int))
  simp only [wrap, sized, ↓reduceIte, Int64.toInt_add]
  rw [ofInt_exact (by omega) (by omega)]
  exact Int.bmod_eq_of_le (by omega) (by omega)

theorem wrap_contains {span : Span} (sized : span.size ≠ 0) (proper : span.low.toInt ≤ span.high.toInt)
    (value : Value) : span.contains (span.wrap value) = true := by
  have size := size_exact sized proper
  have least := Int.emod_nonneg (value - span.low).toInt (by omega : (span.size : Int) ≠ 0)
  have less := Int.emod_lt_of_pos (value - span.low).toInt (by omega : 0 < (span.size : Int))
  rw [contains_iff, wrap_exact sized proper]
  omega

theorem carry_exact {span : Span} (sized : span.size ≠ 0) (proper : span.low.toInt ≤ span.high.toInt)
    (value stride : Value) (count : Nat) :
    (span.carry value stride count).toInt =
      (value.toInt - span.low.toInt + (count : Int) % span.size * stride.toInt) % span.size + span.low.toInt := by
  have size := size_exact sized proper
  have low := span.low.le_toInt
  have high := span.high.toInt_lt
  simp only [carry]
  generalize value.toInt - span.low.toInt + (count : Int) % span.size * stride.toInt = moved
  have least := Int.emod_nonneg moved (by omega : (span.size : Int) ≠ 0)
  have less := Int.emod_lt_of_pos moved (by omega : 0 < (span.size : Int))
  exact ofInt_exact (by omega) (by omega)

theorem carry_contains {span : Span} (sized : span.size ≠ 0) (proper : span.low.toInt ≤ span.high.toInt)
    (value stride : Value) (count : Nat) : span.contains (span.carry value stride count) = true := by
  have size := size_exact sized proper
  rw [contains_iff, carry_exact sized proper]
  generalize value.toInt - span.low.toInt + (count : Int) % span.size * stride.toInt = moved
  have least := Int.emod_nonneg moved (by omega : (span.size : Int) ≠ 0)
  have less := Int.emod_lt_of_pos moved (by omega : 0 < (span.size : Int))
  omega

theorem last_exact {count : Nat} (held : count < 0x8000000000000000) :
    (Int64.ofNat count - 1).toInt = (count : Int) - 1 := by
  have exact : (Int64.ofNat count).toInt = count := Int64.toInt_ofNat_of_lt held
  rw [Int64.toInt_sub, exact, Int64.toInt_one, Int.bmod_eq_of_le (by omega) (by omega)]

theorem size_last {count : Nat} (held : count < 0x8000000000000000) :
    (⟨0, Int64.ofNat count - 1⟩ : Span).size = count := by
  have exact : (Int64.ofNat count).toInt = count := Int64.toInt_ofNat_of_lt held
  simp [size, exact]

theorem strides_exact {span : Span} {value stride : Value} (inside : span.contains value = true)
    (moving : stride ≠ 0) (count : Int) :
    (span.low.toInt ≤ value.toInt + count * stride.toInt ∧
        value.toInt + count * stride.toInt ≤ span.high.toInt) ↔
      (-((span.strides value stride).1 : Int) ≤ count ∧ count ≤ (span.strides value stride).2) := by
  obtain ⟨least, greatest⟩ := contains_iff.mp inside
  have nonzero : stride.toInt ≠ 0 := fun zero => moving (Int64.toInt_inj.mp zero)
  have below : ((value.toInt - span.low.toInt).toNat : Int) = value.toInt - span.low.toInt := by omega
  have above : ((span.high.toInt - value.toInt).toNat : Int) = span.high.toInt - value.toInt := by omega
  have positive : 0 < (stride.magnitude : Int) := by simp only [Value.magnitude]; omega
  have fewer (count total : Int) : count ≤ total / stride.magnitude ↔ count * stride.magnitude ≤ total :=
    Int.le_ediv_iff_mul_le positive
  have turned (least : Int) : -least ≤ count ↔ -count ≤ least := by omega
  -- Backward and ahead change places when the stride is negative.
  by_cases negative : stride < 0
  · have size : (stride.magnitude : Int) = -stride.toInt := by
      have sign : stride.toInt < 0 := by simpa using Int64.lt_iff_toInt_lt.mp negative
      simp only [Value.magnitude]
      omega
    simp only [strides, negative, ↓reduceIte, Int.natCast_ediv, below, above, turned, fewer]
    simp only [size, Int.mul_neg, Int.neg_mul, Int.neg_neg]
    omega
  · have size : (stride.magnitude : Int) = stride.toInt := by
      have sign := mt Int64.lt_iff_toInt_lt.mpr negative
      simp only [Int64.toInt_zero] at sign
      simp only [Value.magnitude]
      omega
    simp only [strides, negative, ↓reduceIte, Int.natCast_ediv, below, above, turned, fewer]
    simp only [size, Int.neg_mul]
    omega

end Span
end Befunge
