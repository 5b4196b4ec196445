import Befunge.Heading
import Befunge.Proofs.TypedGrid
import Befunge.Proofs.TypedRows

/-! Moves by one cell on a grid. Where a torus wraps round, the line through the same
cells in a growing space begins anew, so that both lead to the same cell. -/

namespace Befunge

namespace Span

variable {count : Nat} {value stride : Value}

theorem contains_last (held : count < 0x8000000000000000) :
    (⟨0, Int64.ofNat count - 1⟩ : Span).contains value = true ↔ 0 ≤ value.toInt ∧ value.toInt < count := by
  rw [contains_iff, last_exact held, Int64.toInt_zero]
  omega

theorem wrap_last (held : count < 0x8000000000000000) (some : 0 < count) :
    (⟨0, Int64.ofNat count - 1⟩ : Span).wrap value = Int64.ofInt (value.toInt % count) := by
  simp [wrap, size_last held, Nat.ne_of_gt some]

theorem wrap_inside (held : count < 0x8000000000000000)
    (inside : (⟨0, Int64.ofNat count - 1⟩ : Span).contains value = true) :
    (⟨0, Int64.ofNat count - 1⟩ : Span).wrap value = value := by
  obtain ⟨least, less⟩ := (contains_last held).mp inside
  rw [wrap_last held (by omega), Int.emod_eq_of_lt least less, Int64.ofInt_toInt]

theorem wrap_unit (held : count < 0x8000000000000000)
    (inside : (⟨0, Int64.ofNat count - 1⟩ : Span).contains value = true) (unit : stride.magnitude = 1)
    (leaves : (⟨0, Int64.ofNat count - 1⟩ : Span).contains (value + stride) = false) :
    (⟨0, Int64.ofNat count - 1⟩ : Span).wrap (value + stride) =
      Int64.ofInt (value.toInt +
        -(((⟨0, Int64.ofNat count - 1⟩ : Span).strides value stride).1 : Int) * stride.toInt) := by
  obtain ⟨least, less⟩ := (contains_last held).mp inside
  have size : stride.toInt.natAbs = 1 := unit
  have next : (value + stride).toInt = value.toInt + stride.toInt := by
    rw [Int64.toInt_add, Int.bmod_eq_of_le (by omega) (by omega)]
  rw [Bool.eq_false_iff, ne_eq, contains_last held, next] at leaves
  rw [wrap_last held (by omega), next]
  simp only [strides, unit, last_exact held, Nat.div_one, Int64.lt_iff_toInt_lt, Int64.toInt_zero]
  congr 1
  -- A stride of one leaves only from an end, and all other values lie behind it.
  split
  next negative =>
    obtain ⟨first, west⟩ : value.toInt = 0 ∧ stride.toInt = -1 := by omega
    have round : (0 + -1 : Int) % count = count - 1 := by
      rw [← Int.add_emod_right, Int.emod_eq_of_lt (by omega) (by omega)]
      omega
    rw [first, west, round]
    omega
  next positive =>
    obtain ⟨last, east⟩ : value.toInt = count - 1 ∧ stride.toInt = 1 := by omega
    have round : ((count : Int) - 1 + 1) % count = 0 := by
      rw [Int.sub_add_cancel, Int.emod_self]
    rw [last, east, round]
    omega

theorem strides_le (span : Span) (value stride : Value) : (span.strides value stride).1 ≤ Extent.countLimit := by
  have below : (value.toInt - span.low.toInt).toNat / stride.magnitude ≤ _ := Nat.div_le_self _ _
  have above : (span.high.toInt - value.toInt).toNat / stride.magnitude ≤ _ := Nat.div_le_self _ _
  have least := value.le_toInt
  have less := value.toInt_lt
  have low := span.low.le_toInt
  have high := span.high.toInt_lt
  simp only [strides, Extent.countLimit]
  split <;> omega

end Span

namespace Space

/-- The same cells in a space of another dialect. -/
def under (space : Space) (dialect : Dialect) : Space :=
  { space with dialect }

variable {space : Space} {width height : Nat}

namespace Grid

theorem contains_spans (grid : space.Grid width height) (x y : Value) :
    space.contains ⟨[x, y]⟩ =
      ((⟨0, Int64.ofNat width - 1⟩ : Span).contains x && (⟨0, Int64.ofNat height - 1⟩ : Span).contains y) := by
  simp [contains, grid.extent, Extent.contains, Vec.dimension, Extent.dimension]

private theorem step_under (grid : space.Grid width height) {place stride : Vec} (inside : space.contains place = true)
    (moving : stride.isZero = false)
    (agree : space.contains (place + stride) = false →
      place.along stride (-((Extent.stridesAlong space.extent.spans place.components stride.components).1 : Int)) =
        space.extent.wrap (place + stride)) :
    (space.under .befunge98).step place stride = space.step place stride := by
  have counted : space.extent.strides? place stride =
      some (Extent.stridesAlong space.extent.spans place.components stride.components) := by
    simp [Extent.strides?, moving, show space.extent.contains place = true from inside]
  have growing : (space.under .befunge98).dialect.isTorus = false := rfl
  have same : (space.under .befunge98).contains (place + stride) = space.contains (place + stride) := rfl
  have sized : (space.under .befunge98).isEmpty = false := grid.isEmpty
  simp only [step, same, sized, grid.isEmpty, Bool.or_false, growing, grid.torus, Bool.false_eq_true, ↓reduceIte]
  split
  · rfl
  next leaves =>
    have again : (space.under .befunge98).extent.strides? place stride = _ := counted
    rw [again]
    exact agree (Bool.eq_false_iff.mpr leaves)

private theorem step_across (grid : space.Grid width height) {x y stride : Value}
    (inside : space.contains ⟨[x, y]⟩ = true) (unit : stride.magnitude = 1) :
    (space.under .befunge98).step ⟨[x, y]⟩ ⟨[stride, 0]⟩ = space.step ⟨[x, y]⟩ ⟨[stride, 0]⟩ := by
  have moving : stride ≠ 0 := by
    rintro rfl
    cases unit
  have summed : (⟨[x, y]⟩ : Vec) + ⟨[stride, 0]⟩ = ⟨[x + stride, y]⟩ := by
    show (⟨[x + stride, y + 0]⟩ : Vec) = _
    rw [Int64.add_zero]
  apply grid.step_under inside (by simp [Vec.isZero, moving])
  rw [summed, grid.contains_spans]
  rw [grid.contains_spans, Bool.and_eq_true] at inside
  intro leaves
  simp only [inside.2, Bool.and_true] at leaves
  simp only [Vec.along, Vec.onAxes, Vec.dimension, grid.extent, Extent.wrap, Extent.stridesAlong, moving, ↓reduceIte,
    List.length_cons, List.length_nil, List.take, List.zipWith_cons_cons]
  rw [Nat.min_eq_left (Span.strides_le ..), Span.wrap_unit grid.columns_held inside.1 unit leaves,
    Span.wrap_inside grid.rows_held inside.2]
  simp [Extent.dimension]

private theorem step_down (grid : space.Grid width height) {x y stride : Value}
    (inside : space.contains ⟨[x, y]⟩ = true) (unit : stride.magnitude = 1) :
    (space.under .befunge98).step ⟨[x, y]⟩ ⟨[0, stride]⟩ = space.step ⟨[x, y]⟩ ⟨[0, stride]⟩ := by
  have moving : stride ≠ 0 := by
    rintro rfl
    cases unit
  have summed : (⟨[x, y]⟩ : Vec) + ⟨[0, stride]⟩ = ⟨[x, y + stride]⟩ := by
    show (⟨[x + 0, y + stride]⟩ : Vec) = _
    rw [Int64.add_zero]
  apply grid.step_under inside (by simp [Vec.isZero, moving])
  rw [summed, grid.contains_spans]
  rw [grid.contains_spans, Bool.and_eq_true] at inside
  intro leaves
  simp only [inside.1, Bool.true_and] at leaves
  simp only [Vec.along, Vec.onAxes, Vec.dimension, grid.extent, Extent.wrap, Extent.stridesAlong, moving, ↓reduceIte,
    List.length_cons, List.length_nil, List.take, List.zipWith_cons_cons]
  rw [Nat.min_eq_left (Span.strides_le ..), Span.wrap_unit grid.rows_held inside.2 unit leaves,
    Span.wrap_inside grid.columns_held inside.1]
  simp [Extent.dimension]

theorem step_heading (grid : space.Grid width height) {place : Vec} (inside : space.contains place = true)
    (heading : Heading) : (space.under .befunge98).step place (heading.delta 2) = space.step place (heading.delta 2) := by
  have axes : place.components.length = 2 := by
    have same : place.dimension = space.extent.dimension := Extent.dimension_of_contains inside
    rw [grid.extent] at same
    exact same
  obtain ⟨components⟩ := place
  obtain ⟨x, y, rfl⟩ := List.length_eq_two.mp axes
  cases heading with
  | east | west => exact grid.step_across inside (by decide)
  | north | south => exact grid.step_down inside (by decide)

end Grid

variable {rows : List String} {source : Source}

theorem ofLines_rectangle (accepted : Source.ofLines .befunge93 rows = .ok source) :
    source = ⟨.befunge93, rows⟩ ∧ rows ≠ [] ∧ (∀ row ∈ rows, Source.rowWidth row ≠ 0) ∧ Source.Rectangle rows := by
  obtain ⟨rfl, _⟩ := ofLines_ok accepted
  have sound : Source.torusFault? rows = none := by
    cases found : Source.torusFault? rows with
    | none => rfl
    | some fault => simp [Source.ofLines, found, Dialect.isTorus, Dialect.isFunge98] at accepted
  exact ⟨rfl, Source.torusFault?_eq_none_iff.mp sound⟩

theorem load_grid (accepted : Source.ofLines .befunge93 rows = .ok source) :
    source = ⟨.befunge93, rows⟩ ∧ ∃ width height, (load source).Grid width height := by
  obtain ⟨rfl, some, filled, low, width, narrow, even⟩ := ofLines_rectangle accepted
  have columns : Source.width ⟨.befunge93, rows⟩ = width := Source.width_eq some even
  have held (row : String) (member : row ∈ rows) : row.utf8ByteSize < 0x8000000000000000 := by
    have same : row.utf8ByteSize = width := even row member
    exact Nat.lt_of_le_of_lt (same ▸ narrow) (by decide)
  have extent : (laid ⟨.befunge93, rows⟩).extent = _ := laid_plane rfl (Nat.lt_of_le_of_lt low (by decide)) held
  rw [columns] at extent
  refine ⟨rfl, width, rows.length, load_dialect _, ?_, ⟨?_, narrow⟩, List.length_pos_iff.mpr some, low⟩
  · rw [load_eq]
    exact extent
  · obtain ⟨row, rest, rfl⟩ := List.exists_cons_of_ne_nil some
    have nonzero := filled row List.mem_cons_self
    rw [even row List.mem_cons_self] at nonzero
    exact Nat.pos_of_ne_zero nonzero

private theorem setCells_under (space : Space) (dialect : Dialect) (place : Nat → Vec) (bytes : List UInt8) :
    (space.under dialect).setCells place bytes = (space.setCells place bytes).under dialect := by
  unfold setCells
  induction bytes.zipIdx generalizing space with
  | nil => rfl
  | cons cell cells ih => exact ih (space.setCell (place cell.2) cell.1)

theorem writeRow_under (space : Space) (dialect : Dialect) (y : Value) (row : String) :
    (space.under dialect).writeRow y row = (space.writeRow y row).under dialect := by
  have same : (space.under dialect).dimension = space.dimension := rfl
  simp only [writeRow, same, addToLine, addToPlane, setCells_under]
  split <;> rfl

theorem load_under (rows : List String) : load ⟨.befunge98, rows⟩ = (load ⟨.befunge93, rows⟩).under .befunge98 := by
  have filled (lines : List (String × Nat)) (space : Space) :
      lines.foldl (fun space line => space.writeRow (Int64.ofNat line.2) line.1) (space.under .befunge98) =
        (lines.foldl (fun space line => space.writeRow (Int64.ofNat line.2) line.1) space).under .befunge98 := by
    induction lines generalizing space with
    | nil => rfl
    | cons line lines ih =>
      simp only [List.foldl_cons, writeRow_under]
      exact ih _
  have start : interactive .befunge98 = (interactive .befunge93).under .befunge98 := rfl
  simp only [load_eq, laid, Dialect.dimension, Nat.reduceEqDiff, ↓reduceIte, start]
  rw [filled]
  rfl

end Space
end Befunge
