import Befunge.Proofs.SpaceGrowth
import Befunge.Space.Motion

/-! The torus while rows are typed in: a rectangle that begins at the origin, one row
longer with each row of text. -/

namespace Befunge.Space

/-- A torus of so many columns and rows. -/
structure Grid (space : Space) (width height : Nat) : Prop where
  dialect : space.dialect = .befunge93
  extent : space.extent = ⟨[⟨0, Int64.ofNat width - 1⟩, ⟨0, Int64.ofNat height - 1⟩]⟩
  wide : 0 < width ∧ width ≤ Dialect.torusWidth
  high : 0 < height ∧ height ≤ Dialect.torusHeight

variable {space after : Space} {width height : Nat} {row : String}

private theorem raise_beyond (low : Value) {high value : Value} (beyond : high < value) :
    (⟨low, high⟩ : Span).raise value = ⟨low, value⟩ := by
  simp [Span.raise, beyond]

private theorem raise_same (low high : Value) : (⟨low, high⟩ : Span).raise high = ⟨low, high⟩ := by
  simp [Span.raise]

namespace Grid

theorem columns (grid : space.Grid width height) : width ≤ 80 := grid.wide.2

theorem rows (grid : space.Grid width height) : height ≤ 80 := Nat.le_trans grid.high.2 (by decide)

theorem columns_held (grid : space.Grid width height) : width < 0x8000000000000000 :=
  Nat.lt_of_le_of_lt grid.columns (by decide)

theorem rows_held (grid : space.Grid width height) : height < 0x8000000000000000 :=
  Nat.lt_of_le_of_lt grid.rows (by decide)

theorem torus (grid : space.Grid width height) : space.dialect.isTorus = true := by
  rw [grid.dialect]
  rfl

theorem width_eq (grid : space.Grid width height) : space.width = width := by
  simp [Space.width, Extent.size, grid.extent, Span.size_last grid.columns_held]

theorem height_eq (grid : space.Grid width height) : space.height = height := by
  simp [Space.height, dimension, Extent.dimension, Extent.size, grid.extent, Span.size_last grid.rows_held]

theorem isEmpty (grid : space.Grid width height) : space.isEmpty = false := by
  have across := grid.wide.1
  have down := grid.high.1
  simp only [Space.isEmpty, Extent.isEmpty, grid.extent, List.any_cons, List.any_nil, Span.size_last grid.columns_held,
    Span.size_last grid.rows_held, Bool.or_false, Bool.or_eq_false_iff, beq_eq_false_iff_ne]
  omega

theorem put (grid : space.Grid width height) (place : Vec) (value : Value) :
    (space.put place value).Grid width height where
  dialect := (put_grows place value).dialect.trans grid.dialect
  extent := (put_torus grid.torus place value).trans grid.extent
  wide := grid.wide
  high := grid.high

theorem contains_iff (grid : space.Grid width height) {x y : Value} :
    space.contains ⟨[x, y]⟩ = true ↔
      (0 ≤ x.toInt ∧ x.toInt < width) ∧ 0 ≤ y.toInt ∧ y.toInt < height := by
  simp only [Space.contains, grid.extent, Extent.contains_iff, List.forall₂_cons, Span.contains_iff,
    Span.last_exact grid.columns_held, Span.last_exact grid.rows_held, Int64.toInt_zero, List.forall₂_nil_left_iff, and_true]
  omega

theorem below (grid : space.Grid width height) : space.extent.greatest.y + 1 = Int64.ofNat height := by
  simp [grid.extent, Extent.greatest, Vec.y, Vec.get]

theorem addRow (grid : space.Grid width height) (more : row.isEmpty = false) (accepted : space.addRow row = .ok after) :
    after.Grid width (height + 1) := by
  obtain ⟨_, sound, rfl⟩ := addRow_more more accepted
  obtain ⟨same, shorter, _⟩ := rowFault?_eq_none_iff.mp (sound grid.torus)
  have fewer : height + 1 ≤ 80 := by
    rw [← grid.height_eq]
    exact Nat.le_trans shorter (by decide)
  have next : space.extent.greatest.y + 1 = Int64.ofNat (height + 1) - 1 := by
    rw [grid.below, Int64.ofNat_add]
    exact (Int64.add_sub_cancel _ _).symm
  have below : Int64.ofNat height - 1 < Int64.ofNat (height + 1) - 1 := by
    rw [Int64.lt_iff_toInt_lt, Span.last_exact grid.rows_held, Span.last_exact (by omega)]
    omega
  refine ⟨(writeRow_dialect _).trans grid.dialect, ?_, grid.wide, Nat.succ_pos _, ?_⟩
  · rw [writeRow_plane grid.extent, grid.isEmpty, if_neg (by decide), next, same grid.isEmpty, grid.width_eq]
    rw [raise_same, raise_beyond 0 below]
  · rw [← grid.height_eq]
    exact shorter

theorem opened (torus : space.dialect = .befunge93) (blank : space.extent = Extent.empty 2) (more : row.isEmpty = false)
    (accepted : space.addRow row = .ok after) : after.Grid row.utf8ByteSize 1 := by
  obtain ⟨_, sound, rfl⟩ := addRow_more more accepted
  have single : space.dialect.isTorus = true := by
    rw [torus]
    rfl
  have unopened : space.isEmpty = true := by
    rw [Space.isEmpty, blank]
    decide
  obtain ⟨_, _, narrow⟩ := rowFault?_eq_none_iff.mp (sound single)
  have some := size_pos more
  have written : (space.writeRow 0 row).extent = _ := writeRow_plane (show space.extent = ⟨[Span.empty, Span.empty]⟩ from blank) 0
  have right : (-1 : Value) < Int64.ofNat row.utf8ByteSize - 1 := by
    rw [Int64.lt_iff_toInt_lt, Span.last_exact (Nat.lt_of_le_of_lt narrow (by decide))]
    simp
    omega
  refine ⟨(writeRow_dialect _).trans torus, ?_, ⟨some, narrow⟩, by decide, by decide⟩
  rw [unopened, if_pos rfl, written]
  rw [Span.empty, raise_beyond 0 right, raise_beyond 0 (by decide)]
  rfl

theorem first (more : row.isEmpty = false) (accepted : (interactive .befunge93).addRow row = .ok after) :
    after.Grid row.utf8ByteSize 1 :=
  opened rfl rfl more accepted

theorem step_south (grid : space.Grid width height) {x y : Value} (inside : space.contains ⟨[x, y]⟩ = true)
    (more : y.toInt + 1 < height) :
    space.step ⟨[x, y]⟩ ⟨[0, 1]⟩ = ⟨[x, y + 1]⟩ ∧ (y + 1).toInt = y.toInt + 1 ∧
      space.contains ⟨[x, y + 1]⟩ = true := by
  obtain ⟨across, down⟩ := grid.contains_iff.mp inside
  have rows := grid.rows
  have next : (y + 1).toInt = y.toInt + 1 := by
    rw [Int64.toInt_add, Int64.toInt_one, Int.bmod_eq_of_le (by omega) (by omega)]
  have lands : space.contains ⟨[x, y + 1]⟩ = true := by
    rw [grid.contains_iff, next]
    omega
  have summed : (⟨[x, y]⟩ : Vec) + ⟨[0, 1]⟩ = ⟨[x, y + 1]⟩ := by
    show (⟨[x + 0, y + 1]⟩ : Vec) = _
    rw [Int64.add_zero]
  refine ⟨?_, next, lands⟩
  rw [step, summed, lands]
  rfl

theorem step_south_single (grid : space.Grid width 1) :
    space.step (Vec.zero 2) ⟨[0, 1]⟩ = Vec.zero 2 := by
  have summed : Vec.zero 2 + ⟨[0, 1]⟩ = ⟨[0, 1]⟩ := rfl
  have outside : space.contains ⟨[0, 1]⟩ = false := by
    rw [Bool.eq_false_iff, ne_eq, grid.contains_iff]
    simp
  have wide := Span.size_last grid.columns_held
  have high := Span.size_last grid.rows_held
  simp only [step, summed, outside, grid.isEmpty, grid.torus, Bool.or_self, Bool.false_eq_true, ↓reduceIte,
    Extent.wrap, grid.extent, List.zipWith_cons_cons, List.zipWith_nil_left, Span.wrap, wide, high]
  simp [Vec.zero, Extent.dimension]

end Grid
end Befunge.Space
