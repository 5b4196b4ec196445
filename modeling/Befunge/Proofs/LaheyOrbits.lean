import Mathlib.Data.Nat.ModEq
import Mathlib.Dynamics.PeriodicPts.Lemmas
import Befunge.Proofs.LaheyLines
import Befunge.Space.Rows

/-! Orbits in a growing space. Moves along a stride meet every cell of a line before they come
back to where they began, so that the cells inside are permuted, and the stride turned around
undoes each move. -/

namespace Befunge

namespace Vec

variable {start stride : Vec}

theorem neg_neg (v : Vec) : -(-v) = v := by
  apply congrArg Vec.mk
  simp [Function.comp_def]

theorem point_inj (axes : stride.dimension = start.dimension) (moving : stride.isZero = false) {first second : Int} :
    start.point stride first = start.point stride second ↔ first = second := by
  refine ⟨fun same => ?_, fun same => same ▸ rfl⟩
  obtain ⟨axis, bound, shorter, nonzero⟩ := moving_axis axes moving
  have here := congrArg (fun point => point[axis]?) same
  simp only [point, List.getElem?_zipWith, List.getElem?_eq_getElem bound, List.getElem?_eq_getElem shorter,
    Option.some.injEq] at here
  exact Int.eq_of_mul_eq_mul_right (fun zero => nonzero (Int64.toInt_inj.mp zero)) (Int.add_left_cancel here)

end Vec

namespace Space

variable {space : Space} {place stride : Vec} {back ahead : Nat}

def interior (space : Space) : Set Vec :=
  {cell | space.contains cell = true}

namespace Lahey

section Counted

variable (lahey : space.Lahey place stride) (counted : space.extent.strides? place stride = some (back, ahead))
include lahey counted

theorem places_le : back + ahead + 1 ≤ Extent.countLimit := by
  have line := lahey.counted_iff.mp counted
  have first := (line (-back)).mpr (by omega)
  have last := (line (-back + (back + ahead))).mpr (by omega)
  rw [← Extent.point_along lahey.axes first] at last
  obtain ⟨span, member, within⟩ := Extent.holds_within (lahey.along first).inside (lahey.along first).axes lahey.moving last
  have fits := lahey.fits span member
  simp only [Span.Fits, Int64.toInt_maxValue] at fits
  simp only [Extent.countLimit]
  omega

theorem walkBound_eq : space.walkBound place stride = back + ahead + 1 := by
  simp only [walkBound, lahey.growing, counted]
  exact Nat.min_eq_left (lahey.places_le counted)

theorem exact_iterate (count : Nat) :
    ((space.step · stride)^[count] place).exact =
      place.point stride (((back + count) % (back + ahead + 1) : Nat) - (back : Int)) := by
  have less := Nat.mod_lt (back + count) (by omega : 0 < back + ahead + 1)
  rw [lahey.iterate_step counted]
  exact Extent.exact_along lahey.axes ((lahey.counted_iff.mp counted _).mpr (by omega))

theorem isPeriodicPt_iff (count : Nat) :
    Function.IsPeriodicPt (space.step · stride) count place ↔ back + ahead + 1 ∣ count := by
  have start : place.exact = place.point stride ((back % (back + ahead + 1) : Nat) - (back : Int)) :=
    lahey.exact_iterate counted 0
  rw [Function.IsPeriodicPt, Function.IsFixedPt, ← Vec.exact_inj, lahey.exact_iterate counted, start,
    Vec.point_inj lahey.axes lahey.moving, Int.sub_left_inj, Int.natCast_inj]
  exact Nat.add_modEq_left_iff

theorem minimalPeriod_eq : Function.minimalPeriod (space.step · stride) place = back + ahead + 1 := by
  apply Nat.dvd_antisymm
  · exact ((lahey.isPeriodicPt_iff counted _).mpr (dvd_refl _)).minimalPeriod_dvd
  · exact (lahey.isPeriodicPt_iff counted _).mp (Function.isPeriodicPt_minimalPeriod _ _)

theorem meets {index : Int} (holds : space.extent.Holds (place.point stride index)) :
    ∃! count, count < back + ahead + 1 ∧ ((space.step · stride)^[count] place).exact = place.point stride index := by
  obtain ⟨low, high⟩ := (lahey.counted_iff.mp counted index).mp holds
  obtain ⟨count, less, arrives⟩ : ∃ count < back + ahead + 1,
      (((back + count) % (back + ahead + 1) : Nat) : Int) - back = index := by
    -- What lies behind the start is met after the last place of the line.
    rcases Int.lt_or_le index 0 with behind | onward
    · refine ⟨(back + ahead + 1 + index).toNat, by omega, ?_⟩
      rw [show back + (back + ahead + 1 + index).toNat = (back + index).toNat + (back + ahead + 1) by omega,
        Nat.add_mod_right, Nat.mod_eq_of_lt (by omega)]
      omega
    · refine ⟨index.toNat, by omega, ?_⟩
      rw [Nat.mod_eq_of_lt (by omega)]
      omega
  have there := lahey.exact_iterate counted count
  rw [arrives] at there
  refine ⟨count, ⟨less, there⟩, ?_⟩
  rintro other ⟨fewer, also⟩
  rw [← lahey.minimalPeriod_eq counted] at less fewer
  exact Function.iterate_injOn_Iio_minimalPeriod fewer less (Vec.exact_inj.mp (also.trans there.symm))

/-- The stride turned around undoes a move, also where the least value stays as it is. -/
theorem step_neg : space.step (space.step place stride) (-stride) = place := by
  have line := lahey.counted_iff.mp counted
  rw [lahey.step_eq counted]
  split
  next more =>
    have there := lahey.along ((line 1).mpr (by omega))
    have recounted := there.counted_neg (lahey.counted_along counted (by omega) (by omega))
    rw [there.reversed.step_eq recounted, if_pos (by omega), Vec.along_neg there.axes, Vec.along_along]
    exact Vec.along_zero _ _
  next only =>
    have there := lahey.along ((line (-back)).mpr (by omega))
    have recounted := there.counted_neg (lahey.counted_along counted (by omega) (by omega))
    rw [there.reversed.step_eq recounted, if_neg (by omega), Vec.along_neg there.axes, Vec.along_along]
    convert Vec.along_zero _ _ using 2
    omega

end Counted

theorem mapsTo_step (growing : ∀ cell ∈ space.interior, space.Lahey cell stride) :
    Set.MapsTo (space.step · stride) space.interior space.interior := by
  intro cell inside
  exact (growing cell inside).toSteady.step

theorem leftInvOn_step (growing : ∀ cell ∈ space.interior, space.Lahey cell stride) :
    Set.LeftInvOn (space.step · (-stride)) (space.step · stride) space.interior := by
  intro cell inside
  obtain ⟨back, ahead, counted⟩ := (growing cell inside).counted
  exact (growing cell inside).step_neg counted

end Lahey

/-- Moves in a growing space go round on a line. From a place inside, the line has a number of
points inside behind the place and a number in front, each a whole number of strides away in
exact integers. A move leads to the next of them and from the last one to the first, each is
met once before the place is reached again, and the bound for walks is how many there are.
So a stride permutes the cells inside, and turned around it takes each of them back. -/
theorem growing_orbit (growing : space.dialect.isFunge98 = true) (sized : space.isEmpty = false)
    (inside : space.contains place = true) (axes : stride.dimension = space.dimension)
    (moving : stride.isZero = false) :
    (∃ back ahead : Nat,
      space.extent.strides? place stride = some (back, ahead) ∧
      space.walkBound place stride = back + ahead + 1 ∧
      Function.minimalPeriod (space.step · stride) place = back + ahead + 1 ∧
      (∀ index : Int, space.extent.Holds (place.point stride index) ↔ -(back : Int) ≤ index ∧ index ≤ ahead) ∧
      (∀ count, ((space.step · stride)^[count] place).exact =
        place.point stride (((back + count) % (back + ahead + 1) : Nat) - (back : Int))) ∧
      ∀ index : Int, space.extent.Holds (place.point stride index) →
        ∃! count, count < back + ahead + 1 ∧
          ((space.step · stride)^[count] place).exact = place.point stride index) ∧
    Set.BijOn (space.step · stride) space.interior space.interior ∧
    Set.InvOn (space.step · (-stride)) (space.step · stride) space.interior space.interior := by
  have lines (d : Vec) (same : d.dimension = space.dimension) (nonzero : d.isZero = false) :
      ∀ cell ∈ space.interior, space.Lahey cell d := by
    intro cell here
    refine ⟨⟨sized, here, same.trans (Extent.dimension_of_contains here).symm⟩, ?_, nonzero⟩
    rw [Dialect.isTorus, growing]
    rfl
  have onward := lines stride axes moving
  have backward := lines (-stride) (by rw [Vec.dimension_neg, axes]) (by rw [Vec.isZero_neg, moving])
  have inverse : Set.InvOn (space.step · (-stride)) (space.step · stride) space.interior space.interior := by
    refine ⟨Lahey.leftInvOn_step onward, ?_⟩
    have undone := Lahey.leftInvOn_step backward
    rwa [Vec.neg_neg] at undone
  refine ⟨?_, inverse.bijOn (Lahey.mapsTo_step onward) (Lahey.mapsTo_step backward), inverse⟩
  have lahey := onward place inside
  obtain ⟨back, ahead, counted⟩ := lahey.counted
  exact ⟨back, ahead, counted, lahey.walkBound_eq counted, lahey.minimalPeriod_eq counted, lahey.counted_iff.mp counted,
    lahey.exact_iterate counted, fun _ => lahey.meets counted⟩

/-- A knight comes back to its place after the four places of its line, and the stride that
negation leaves as it is permutes the cells too. -/
theorem knight_orbit :
    let board := load ⟨.befunge98, ["abcdefgh", "i", "j", "k"]⟩
    Function.minimalPeriod (board.step · ⟨[2, 1]⟩) ⟨[3, 1]⟩ = 4 ∧
      Set.BijOn (board.step · ⟨[Int64.minValue, 0]⟩) board.interior board.interior := by
  intro board
  constructor
  · obtain ⟨⟨back, ahead, counted, _, period, _⟩, _⟩ :=
      @growing_orbit board ⟨[3, 1]⟩ ⟨[2, 1]⟩ rfl (by decide +kernel) (by decide +kernel) (by decide +kernel) (by decide)
    have four : board.extent.strides? ⟨[3, 1]⟩ ⟨[2, 1]⟩ = some (1, 2) := by decide +kernel
    obtain ⟨rfl, rfl⟩ := Prod.mk.inj (Option.some.inj (counted.symm.trans four))
    exact period
  · obtain ⟨_, permuted, _⟩ :=
      @growing_orbit board ⟨[0, 0]⟩ ⟨[Int64.minValue, 0]⟩ rfl (by decide +kernel) (by decide +kernel) (by decide +kernel)
        (by decide)
    exact permuted

end Space
end Befunge
