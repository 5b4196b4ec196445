import Befunge.Cursor
import Befunge.Proofs.ExactLines

/-! Motion inside the extent. As long as every axis has a size, no move and no run of
moves leaves it, whatever the stride. Without a size a move is a plain sum. -/

namespace Befunge

namespace Space

/-- Moves of every kind start where they can be counted: inside, with a stride of as
many axes. -/
structure Steady (space : Space) (place stride : Vec) : Prop where
  sized : space.isEmpty = false
  inside : space.contains place = true
  axes : stride.dimension = place.dimension

variable {space : Space} {place stride : Vec}

private theorem Steady.wraps (steady : Steady space place stride) {next : Vec}
    (same : next.dimension = place.dimension) : space.contains (space.extent.wrap next) = true :=
  Extent.wrap_contains (Extent.proper_of_contains steady.inside) steady.sized
    (same.trans (Extent.dimension_of_contains steady.inside))

theorem Steady.step (steady : Steady space place stride) : space.contains (space.step place stride) = true := by
  have same : (place + stride).dimension = place.dimension := by
    rw [Vec.dimension_add, steady.axes, Nat.min_self]
  simp only [Space.step, steady.sized, Bool.or_false]
  split
  · assumption
  · split
    · exact steady.wraps same
    · split
      next back ahead counted =>
        exact Extent.along_contains steady.axes counted (Int.le_refl _) (by omega)
      · exact steady.wraps same

theorem Steady.step_still (steady : Steady space place stride) (still : stride.isZero = true) :
    space.step place stride = place := by
  simp only [Space.step, Vec.add_still steady.axes still, steady.inside, Bool.true_or, ↓reduceIte]

theorem Steady.stepped (steady : Steady space place stride) : Steady space (space.step place stride) stride where
  sized := steady.sized
  inside := steady.step
  axes := by
    rw [steady.axes, Extent.dimension_of_contains steady.inside, Extent.dimension_of_contains steady.step]

theorem Steady.walk (count : Nat) (steady : Steady space place stride) :
    space.contains (space.walk stride count place) = true := by
  induction count generalizing place with
  | zero => simpa only [Space.walk] using steady.inside
  | succ count ih =>
    simp only [Space.walk, steady.sized, Bool.false_eq_true, ↓reduceIte]
    split
    · exact steady.inside
    · split
      · exact Extent.carry_contains (Extent.proper_of_contains steady.inside) steady.sized
          (Extent.dimension_of_contains steady.inside) stride _
      · split
        next back ahead counted =>
          have less := Nat.mod_lt (back + count + 1) (by omega : 0 < back + ahead + 1)
          exact Extent.along_contains steady.axes counted (by omega) (by omega)
        · -- The strides cannot be counted, but a single move leads inside again.
          exact ih steady.stepped

theorem step_dimension (axes : stride.dimension = place.dimension) :
    (space.step place stride).dimension = place.dimension := by
  have same : (place + stride).dimension = place.dimension := by
    rw [Vec.dimension_add, axes, Nat.min_self]
  simp only [Space.step]
  split
  · exact same
  · split
    · rw [Extent.dimension_wrap, same]
    · split
      · exact Vec.dimension_along _ _ _
      · rw [Extent.dimension_wrap, same]

theorem walk_dimension (count : Nat) (axes : stride.dimension = place.dimension) :
    (space.walk stride count place).dimension = place.dimension := by
  induction count generalizing place with
  | zero => rfl
  | succ count ih =>
    simp only [Space.walk]
    split
    · rfl
    · split
      · exact Vec.dimension_along _ _ _
      · split
        · exact Extent.dimension_carry _ _ _ _
        · split
          · exact Vec.dimension_along _ _ _
          · rw [ih (by rw [step_dimension axes, axes]), step_dimension axes]

/-- Where no axis is too wide, a move leaves the extent under no stride; where one is,
it leads to the plain sum, inside or not. -/
theorem step_inside_iff (inside : space.contains place = true) (axes : stride.dimension = place.dimension) :
    space.contains (space.step place stride) = true ↔
      space.extent.Fits ∨ space.contains (place + stride) = true := by
  rw [← Extent.isEmpty_iff_fits (Extent.proper_of_contains inside)]
  by_cases sized : space.isEmpty = false
  · exact iff_of_true (Steady.step ⟨sized, inside, axes⟩) (Or.inl sized)
  · have summed : space.step place stride = place + stride := by
      simp [step, Bool.not_eq_false _ ▸ sized]
    rw [summed]
    exact ⟨Or.inr, fun either => either.resolve_left sized⟩

end Space

namespace Cursor

variable {space : Space}

abbrev Steady (cursor : Cursor) (space : Space) : Prop :=
  space.Steady cursor.position cursor.delta

theorem Steady.advance {cursor : Cursor} (steady : cursor.Steady space) : (cursor.advance space).Steady space :=
  Space.Steady.stepped steady

theorem Steady.seek {cursor : Cursor} (byte : UInt8) (moves : Nat) (steady : cursor.Steady space) :
    (cursor.seek byte space moves).Steady space := by
  induction moves generalizing cursor with
  | zero => exact steady
  | succ moves ih =>
    simp only [Cursor.seek]
    split
    · exact steady.advance
    · exact ih steady.advance

theorem Steady.jump {cursor : Cursor} (count : Value) (steady : cursor.Steady space) :
    space.contains (cursor.jump count space).position = true := by
  simp only [Cursor.jump]
  split
  · exact Space.Steady.walk _ ⟨steady.sized, steady.inside, by rw [Vec.dimension_neg, steady.axes]⟩
  · exact Space.Steady.walk _ steady

theorem jump_dimension {cursor : Cursor} (count : Value) (axes : cursor.delta.dimension = cursor.position.dimension) :
    (cursor.jump count space).position.dimension = cursor.position.dimension := by
  simp only [Cursor.jump]
  split
  · exact Space.walk_dimension _ (by rw [Vec.dimension_neg, axes])
  · exact Space.walk_dimension _ axes

theorem seek_dimension {cursor : Cursor} (byte : UInt8) (moves : Nat)
    (axes : cursor.delta.dimension = cursor.position.dimension) :
    (cursor.seek byte space moves).position.dimension = cursor.position.dimension := by
  induction moves generalizing cursor with
  | zero => rfl
  | succ moves ih =>
    have stepped : (cursor.advance space).position.dimension = cursor.position.dimension := Space.step_dimension axes
    simp only [Cursor.seek]
    split
    · exact stepped
    · have rest := @ih (cursor.advance space) (axes.trans stepped.symm)
      exact rest.trans stepped

@[simp] theorem seek_delta (cursor : Cursor) (byte : UInt8) (moves : Nat) :
    (cursor.seek byte space moves).delta = cursor.delta := by
  induction moves generalizing cursor with
  | zero => rfl
  | succ moves ih =>
    simp only [Cursor.seek]
    split
    · rfl
    · exact ih _

@[simp] theorem seek_offset (cursor : Cursor) (byte : UInt8) (moves : Nat) :
    (cursor.seek byte space moves).storageOffset = cursor.storageOffset := by
  induction moves generalizing cursor with
  | zero => rfl
  | succ moves ih =>
    simp only [Cursor.seek]
    split
    · rfl
    · exact ih _

end Cursor
end Befunge
