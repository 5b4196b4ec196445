import Mathlib.Logic.Function.Iterate
import Befunge.Proofs.MotionBounds

/-! Moves in a growing space go round along a line. From its last place a line begins anew
with its first one, so that where any number of moves lead is found by counting places. -/

namespace Befunge.Space

/-- Where a stride in a growing space goes along a line of which each place is known. -/
structure Lahey (space : Space) (place stride : Vec) : Prop extends Steady space place stride where
  growing : space.dialect.isTorus = false
  moving : stride.isZero = false

variable {space : Space} {place stride : Vec} {back ahead : Nat}

namespace Lahey

theorem fits (lahey : space.Lahey place stride) : space.extent.Fits :=
  (Extent.isEmpty_iff_fits (Extent.proper_of_contains lahey.inside)).mp lahey.sized

theorem counted (lahey : space.Lahey place stride) :
    ∃ back ahead, space.extent.strides? place stride = some (back, ahead) :=
  Extent.strides?_some lahey.inside lahey.moving

theorem along (lahey : space.Lahey place stride) {count : Int} (holds : space.extent.Holds (place.point stride count)) :
    space.Lahey (place.along stride count) stride where
  sized := lahey.sized
  inside := Extent.along_holds lahey.axes holds
  axes := by rw [lahey.axes, Vec.dimension_along]
  growing := lahey.growing
  moving := lahey.moving

theorem reversed (lahey : space.Lahey place stride) : space.Lahey place (-stride) where
  sized := lahey.sized
  inside := lahey.inside
  axes := by rw [Vec.dimension_neg, lahey.axes]
  growing := lahey.growing
  moving := by rw [Vec.isZero_neg, lahey.moving]

theorem counted_iff (lahey : space.Lahey place stride) :
    space.extent.strides? place stride = some (back, ahead) ↔
      ∀ index : Int, space.extent.Holds (place.point stride index) ↔ -(back : Int) ≤ index ∧ index ≤ ahead := by
  constructor
  · exact Extent.strides?_exact lahey.axes
  · intro line
    obtain ⟨behind, before, counted⟩ := lahey.counted
    have same (index : Int) := (Extent.strides?_exact lahey.axes counted index).symm.trans (line index)
    have first := same (-behind)
    have last := same before
    have below := same (-back)
    have above := same ahead
    obtain ⟨rfl, rfl⟩ : behind = back ∧ before = ahead := by omega
    exact counted

section Counted

variable (lahey : space.Lahey place stride) (counted : space.extent.strides? place stride = some (back, ahead))
include lahey counted

theorem counted_neg : space.extent.strides? place (-stride) = some (ahead, back) := by
  apply lahey.reversed.counted_iff.mpr
  intro index
  rw [Extent.holds_neg_iff lahey.fits lahey.inside lahey.axes, lahey.counted_iff.mp counted]
  omega

theorem counted_along {index : Int} (low : -(back : Int) ≤ index) (high : index ≤ ahead) :
    space.extent.strides? (place.along stride index) stride = some ((back + index).toNat, (ahead - index).toNat) := by
  have line := lahey.counted_iff.mp counted
  have holds := (line index).mpr ⟨low, high⟩
  apply (lahey.along holds).counted_iff.mpr
  intro more
  rw [Extent.point_along lahey.axes holds, line]
  omega

/-- A move leads one stride on, and from the last place of the line to the first. -/
theorem step_eq : space.step place stride = place.along stride (if 0 < ahead then 1 else -(back : Int)) := by
  have next : space.contains (place + stride) = true ↔ 0 < ahead := by
    rw [Space.contains, Extent.add_contains_iff lahey.fits lahey.inside lahey.axes, lahey.counted_iff.mp counted]
    omega
  simp only [step, lahey.sized, lahey.growing, counted, Bool.or_false, Bool.false_eq_true, ↓reduceIte]
  by_cases more : 0 < ahead
  · rw [if_pos (next.mpr more), if_pos more, Vec.add_eq_along lahey.axes]
  · rw [if_neg (fun inside => more (next.mp inside)), if_neg more]

theorem step_along {index : Int} (low : -(back : Int) ≤ index) (high : index ≤ ahead) :
    space.step (place.along stride index) stride =
      place.along stride (if index < ahead then index + 1 else -(back : Int)) := by
  have here := lahey.along ((lahey.counted_iff.mp counted index).mpr ⟨low, high⟩)
  rw [here.step_eq (lahey.counted_along counted low high), Vec.along_along]
  congr 1
  split <;> split <;> omega

theorem iterate_step (count : Nat) :
    (space.step · stride)^[count] place =
      place.along stride (((back + count) % (back + ahead + 1) : Nat) - (back : Int)) := by
  induction count with
  | zero =>
    rw [Nat.add_zero, Nat.mod_eq_of_lt (by omega), Int.sub_self, Vec.along_zero]
    rfl
  | succ count ih =>
    have less := Nat.mod_lt (back + count) (by omega : 0 < back + ahead + 1)
    have next : (back + (count + 1)) % (back + ahead + 1) =
        if (back + count) % (back + ahead + 1) < back + ahead then (back + count) % (back + ahead + 1) + 1 else 0 := by
      rw [← Nat.add_assoc, ← Nat.mod_add_mod]
      split
      · exact Nat.mod_eq_of_lt (by omega)
      · rw [show (back + count) % (back + ahead + 1) + 1 = back + ahead + 1 by omega, Nat.mod_self]
    rw [Function.iterate_succ_apply', ih, lahey.step_along counted (by omega) (by omega), next]
    congr 1
    split <;> split <;> omega

theorem walk_eq (count : Nat) :
    space.walk stride count place =
      place.along stride (((back + count) % (back + ahead + 1) : Nat) - (back : Int)) := by
  cases count with
  | zero =>
    rw [Nat.add_zero, Nat.mod_eq_of_lt (by omega), Int.sub_self, Vec.along_zero]
    rfl
  | succ count =>
    simp only [walk, lahey.moving, lahey.sized, lahey.growing, counted, Bool.false_eq_true, ↓reduceIte, Nat.add_assoc]

end Counted
end Lahey

end Befunge.Space
