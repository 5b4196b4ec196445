import Befunge.Proofs.ExtentBounds
import Befunge.Space.Rows

/-! What writes and rows make of a space. Its extent only grows, and program text that
was accepted covers the origin. -/

namespace Befunge

namespace Span

/-- The span whose high end is raised to a value, unless it was there already. -/
def raise (span : Span) (value : Value) : Span :=
  { span with high := if span.high < value then value else span.high }

theorem raise_covers (span : Span) (value : Value) : (span.raise value).Covers span := by
  simp only [Covers, raise, Int64.lt_iff_toInt_lt]
  refine ⟨Int.le_refl _, ?_⟩
  split <;> omega

theorem raise_reaches (span : Span) (value : Value) : value.toInt ≤ (span.raise value).high.toInt := by
  simp only [raise, Int64.lt_iff_toInt_lt]
  split <;> omega

end Span

@[simp] theorem Extent.least_setHigh (extent : Extent) (axis : Nat) (high : Value) :
    (extent.setHigh axis high).least = extent.least := by
  apply congrArg Vec.mk
  apply List.ext_getElem
  · simp [setHigh]
  · intro other _ _
    simp only [setHigh, List.getElem_map, List.getElem_modify]
    split <;> rfl

theorem Dialect.dimension_cases (dialect : Dialect) : dialect.dimension = 1 ∨ dialect.dimension = 2 := by
  cases dialect <;> decide

theorem Dialect.isTorus_of_isFunge98 {dialect : Dialect} (growing : dialect.isFunge98 = true) :
    dialect.isTorus = false := by
  rw [isTorus, growing]
  rfl

theorem Dialect.eq_befunge93 {dialect : Dialect} (torus : dialect.isTorus = true) : dialect = .befunge93 := by
  cases dialect with
  | befunge93 => rfl
  | unefunge98 | befunge98 => cases torus

namespace Space

/-- Writes and rows keep the dialect and take no place away. -/
structure Grows (before after : Space) : Prop where
  dialect : after.dialect = before.dialect
  extent : Extent.Grows before.extent after.extent

theorem Grows.refl (space : Space) : Grows space space :=
  ⟨rfl, .refl _⟩

theorem Grows.trans {before between after : Space} (grows : Grows before between) (further : Grows between after) :
    Grows before after :=
  ⟨further.dialect.trans grows.dialect, grows.extent.trans further.extent⟩

variable {space after : Space} {row : String}

theorem put_grows (place : Vec) (value : Value) : Grows space (space.put place value) := by
  simp only [put]
  split
  · exact ⟨rfl, .refl _⟩
  · split
    · exact ⟨rfl, .refl _⟩
    · split
      next same => exact ⟨rfl, Extent.cover_grows same⟩
      · exact .refl _

theorem put_extent {place : Vec} (inside : space.contains place = true) (value : Value) :
    (space.put place value).extent = space.extent := by
  simp only [put, inside, ↓reduceIte]
  rfl

@[simp] theorem put_complete (place : Vec) (value : Value) : (space.put place value).complete = space.complete := by
  simp only [put]
  split
  · rfl
  · split
    · rfl
    · split <;> rfl

theorem put_torus (torus : space.dialect.isTorus = true) (place : Vec) (value : Value) :
    (space.put place value).extent = space.extent := by
  simp only [put, torus, ↓reduceIte]
  split <;> rfl

private theorem setCells_frame (space : Space) (place : Nat → Vec) (bytes : List UInt8) :
    ∃ cells, space.setCells place bytes = { space with cells } := by
  refine List.foldlRecOn (motive := fun filled : Space => ∃ cells, filled = { space with cells })
    _ _ ⟨space.cells, rfl⟩ ?_
  rintro _ ⟨cells, rfl⟩ ⟨byte, index⟩ _
  exact ⟨_, rfl⟩

@[simp] theorem length_bytes (row : String) : (Text.bytes row).length = row.utf8ByteSize := by
  simp [Text.bytes]

theorem writeRow_frame (space : Space) (y : Value) (row : String) :
    ∃ cells extent, space.writeRow y row = { space with cells, extent } := by
  simp only [writeRow, addToLine, addToPlane]
  split
  · obtain ⟨cells, filled⟩ := setCells_frame space
      (fun index => ⟨[space.extent.greatest.x + 1 + Int64.ofNat index]⟩) (Text.bytes row)
    exact ⟨cells, _, by rw [filled]⟩
  · obtain ⟨cells, filled⟩ := setCells_frame space (fun index => ⟨[Int64.ofNat index, y]⟩) (Text.bytes row)
    exact ⟨cells, _, by rw [filled]⟩

theorem writeRow_dialect (y : Value) : (space.writeRow y row).dialect = space.dialect := by
  obtain ⟨cells, extent, written⟩ := space.writeRow_frame y row
  rw [written]

theorem writeRow_complete (y : Value) : (space.writeRow y row).complete = space.complete := by
  obtain ⟨cells, extent, written⟩ := space.writeRow_frame y row
  rw [written]

/-- A row goes after the cells that are there, so that the least corner stays. -/
theorem writeRow_least (y : Value) : (space.writeRow y row).extent.least = space.extent.least := by
  simp only [writeRow, addToLine, addToPlane]
  split
  · obtain ⟨cells, filled⟩ := setCells_frame space
      (fun index => ⟨[space.extent.greatest.x + 1 + Int64.ofNat index]⟩) (Text.bytes row)
    simp only [filled, Extent.least_setHigh]
  · obtain ⟨cells, filled⟩ := setCells_frame space (fun index => ⟨[Int64.ofNat index, y]⟩) (Text.bytes row)
    simp only [filled, Extent.least_setHigh]

theorem writeRow_line {x : Span} (line : space.extent = ⟨[x]⟩) (y : Value) :
    (space.writeRow y row).extent = ⟨[{ x with high := x.high + 1 + Int64.ofNat row.utf8ByteSize - 1 }]⟩ := by
  obtain ⟨cells, filled⟩ := setCells_frame space
    (fun index => ⟨[space.extent.greatest.x + 1 + Int64.ofNat index]⟩) (Text.bytes row)
  have single : space.dimension = 1 := by simp [dimension, Extent.dimension, line]
  simp only [writeRow, single, ↓reduceIte, addToLine, filled, length_bytes]
  simp [line, Extent.setHigh, Extent.greatest, Vec.x, Vec.get]

theorem writeRow_plane {x y : Span} (plane : space.extent = ⟨[x, y]⟩) (below : Value) :
    (space.writeRow below row).extent = ⟨[x.raise (Int64.ofNat row.utf8ByteSize - 1), y.raise below]⟩ := by
  obtain ⟨cells, filled⟩ := setCells_frame space (fun index => ⟨[Int64.ofNat index, below]⟩) (Text.bytes row)
  have double : space.dimension ≠ 1 := by simp [dimension, Extent.dimension, plane]
  simp only [writeRow, double, ↓reduceIte, addToPlane, filled, length_bytes]
  simp [plane, Extent.setHigh, Extent.greatest, Vec.x, Vec.y, Vec.get, Span.raise]

theorem writeRow_grows (plane : space.extent.dimension = 2) (below : Value) :
    Grows space (space.writeRow below row) := by
  obtain ⟨x, y, spans⟩ := List.length_eq_two.mp plane
  have same : space.extent = ⟨[x, y]⟩ := congrArg Extent.mk spans
  refine ⟨writeRow_dialect below, ?_⟩
  rw [writeRow_plane same, same]
  exact .cons (x.raise_covers _) (.cons (y.raise_covers _) .nil)

theorem rowFault?_eq_none_iff :
    space.rowFault? row = none ↔
      (space.isEmpty = false → row.utf8ByteSize = space.width) ∧ space.height + 1 ≤ Dialect.torusHeight ∧
        row.utf8ByteSize ≤ Dialect.torusWidth := by
  simp only [rowFault?]
  split
  next uneven =>
    simp only [Bool.and_eq_true, Bool.not_eq_true', bne_iff_ne] at uneven
    exact iff_of_false nofun fun sound => uneven.2 (sound.1 uneven.1)
  next even =>
    simp only [Bool.and_eq_true, Bool.not_eq_true', bne_iff_ne, not_and, ne_eq, Classical.not_not] at even
    split
    next outside =>
      simp only [Source.rowWidth] at outside
      exact iff_of_false nofun fun sound => by omega
    next inside =>
      simp only [Source.rowWidth] at inside
      exact iff_of_true rfl ⟨even, by omega, by omega⟩

theorem addRow_last (last : row.isEmpty = true) (accepted : space.addRow row = .ok after) :
    space.complete = false ∧ space.isEmpty = false ∧ after = { space with complete := true } := by
  simp only [addRow, last, ↓reduceIte] at accepted
  split at accepted
  · cases accepted
  next incomplete =>
    simp only [finish, incomplete, ↓reduceIte, Bool.false_eq_true] at accepted
    split at accepted
    · cases accepted
    next known => exact ⟨Bool.eq_false_iff.mpr incomplete, Bool.eq_false_iff.mpr known, (Except.ok.inj accepted).symm⟩

theorem addRow_more (more : row.isEmpty = false) (accepted : space.addRow row = .ok after) :
    space.complete = false ∧ (space.dialect.isTorus = true → space.rowFault? row = none) ∧
      after = space.writeRow (if space.isEmpty then 0 else space.extent.greatest.y + 1) row := by
  simp only [addRow, more, Bool.false_eq_true, ↓reduceIte] at accepted
  split at accepted
  · cases accepted
  next incomplete =>
    split at accepted
    · cases accepted
    next sound =>
      refine ⟨Bool.eq_false_iff.mpr incomplete, ?_, (Except.ok.inj accepted).symm⟩
      intro torus
      rwa [if_pos torus] at sound

theorem addRow_incomplete (accepted : space.addRow row = .ok after) : space.complete = false := by
  cases more : row.isEmpty with
  | true => exact (addRow_last more accepted).1
  | false => exact (addRow_more more accepted).1

theorem addRow_dialect (accepted : space.addRow row = .ok after) : after.dialect = space.dialect := by
  cases more : row.isEmpty with
  | true => rw [(addRow_last more accepted).2.2]
  | false =>
    rw [(addRow_more more accepted).2.2]
    exact writeRow_dialect _

theorem addRow_grows (plane : space.extent.dimension = 2) (accepted : space.addRow row = .ok after) :
    Grows space after := by
  cases more : row.isEmpty with
  | true =>
    rw [(addRow_last more accepted).2.2]
    exact ⟨rfl, .refl _⟩
  | false =>
    rw [(addRow_more more accepted).2.2]
    exact writeRow_grows plane _

theorem size_pos (more : row.isEmpty = false) : 0 < row.utf8ByteSize := by
  apply Nat.pos_of_ne_zero
  intro zero
  exact Bool.eq_false_iff.mp more (String.isEmpty_iff.mpr (String.utf8ByteSize_eq_zero_iff.mp zero))

private theorem last_reached {size : Nat} (some : 0 < size) (held : size < 0x8000000000000000) :
    0 ≤ (Int64.ofNat size - 1).toInt := by
  rw [Span.last_exact held]
  omega

private theorem line_contains (space : Space) (line : space.extent = ⟨[Span.empty]⟩) (some : 0 < row.utf8ByteSize)
    (held : row.utf8ByteSize < 0x8000000000000000) : (space.writeRow 0 row).contains (Vec.zero 1) = true := by
  have reached := last_reached some held
  have written : (space.writeRow 0 row).extent = _ := writeRow_line line 0
  simp only [contains, written, Extent.contains_iff, Vec.zero, List.replicate_one]
  refine .cons (Span.contains_iff.mpr ⟨by simp [Span.empty], ?_⟩) .nil
  simpa [Span.empty] using reached

private theorem fold_reaches (rows : List (String × Nat)) {space : Space} {x y : Span}
    (plane : space.extent = ⟨[x, y]⟩) :
    ∃ x' y', (rows.foldl (fun space (row, y) => space.writeRow (Int64.ofNat y) row) space).extent = ⟨[x', y']⟩ ∧
      x'.Covers x ∧ y'.Covers y ∧ x'.low = x.low ∧ y'.low = y.low ∧
      ∀ row ∈ rows, (Int64.ofNat row.1.utf8ByteSize - 1).toInt ≤ x'.high.toInt ∧
        (Int64.ofNat row.2).toInt ≤ y'.high.toInt := by
  induction rows generalizing space x y with
  | nil => exact ⟨x, y, plane, ⟨Int.le_refl _, Int.le_refl _⟩, ⟨Int.le_refl _, Int.le_refl _⟩, rfl, rfl, by simp⟩
  | cons row rows ih =>
    obtain ⟨x', y', filled, wide, tall, left, top, reached⟩ := ih (writeRow_plane plane (Int64.ofNat row.2))
    have across := x.raise_covers (Int64.ofNat row.1.utf8ByteSize - 1)
    have down := y.raise_covers (Int64.ofNat row.2)
    refine ⟨x', y', filled, ?_, ?_, left, top, ?_⟩
    · exact ⟨Int.le_trans wide.1 across.1, Int.le_trans across.2 wide.2⟩
    · exact ⟨Int.le_trans tall.1 down.1, Int.le_trans down.2 tall.2⟩
    · intro other member
      rcases List.mem_cons.mp member with rfl | later
      · exact ⟨Int.le_trans (x.raise_reaches _) wide.2, Int.le_trans (y.raise_reaches _) tall.2⟩
      · exact reached other later

theorem join_size {rows : List String} (member : row ∈ rows) :
    row.utf8ByteSize ≤ (String.join rows).utf8ByteSize := by
  induction rows with
  | nil => cases member
  | cons first rest ih =>
    rw [String.join_cons, String.utf8ByteSize_append]
    rcases List.mem_cons.mp member with rfl | later
    · omega
    · have := ih later
      omega

theorem ofLines_ok {dialect : Dialect} {rows : List String} {source : Source}
    (accepted : Source.ofLines dialect rows = .ok source) :
    source = ⟨dialect, rows⟩ ∧ ∃ row ∈ rows, 0 < row.utf8ByteSize := by
  simp only [Source.ofLines] at accepted
  split at accepted
  · cases accepted
  next sound =>
    refine ⟨(Except.ok.inj accepted).symm, ?_⟩
    split at sound
    · cases rows with
      | nil => simp [Source.torusFault?] at sound
      | cons row rest =>
        refine ⟨row, List.mem_cons_self, Nat.pos_of_ne_zero fun zero => ?_⟩
        simp [Source.torusFault?, Source.rowWidth, zero] at sound
    · simp only [Source.growingFault?, ite_eq_right_iff, reduceCtorEq, imp_false, List.all_eq_true,
        not_forall, Source.rowWidth] at sound
      obtain ⟨row, member, wide⟩ := sound
      exact ⟨row, member, Nat.pos_of_ne_zero (by simpa using wide)⟩

theorem load_dialect (source : Source) : (load source).dialect = source.dialect := by
  simp only [load]
  split
  · exact writeRow_dialect _
  · exact List.foldlRecOn (motive := fun filled : Space => filled.dialect = source.dialect) _ _ rfl
      fun filled same row _ => (writeRow_dialect _).trans same

theorem interactive_line {dialect : Dialect} (line : dialect.dimension = 1) :
    (interactive dialect).extent = ⟨[Span.empty]⟩ := by
  simp [interactive, Extent.empty, line]

theorem interactive_plane {dialect : Dialect} (plane : dialect.dimension = 2) :
    (interactive dialect).extent = ⟨[Span.empty, Span.empty]⟩ := by
  simp [interactive, Extent.empty, plane]

theorem load_contains {dialect : Dialect} {rows : List String} {source : Source}
    (accepted : Source.ofLines dialect rows = .ok source) (held : (String.join rows).utf8ByteSize < 0x8000000000000000) :
    (load source).contains (Vec.zero dialect.dimension) = true := by
  obtain ⟨rfl, row, member, some⟩ := ofLines_ok accepted
  have wide := join_size member
  rcases dialect.dimension_cases with line | plane
  · have filled : (load ⟨dialect, rows⟩).extent = ((interactive dialect).writeRow 0 (String.join rows)).extent := by
      simp [load, interactive, dimension, Extent.dimension, Extent.empty, line]
    rw [contains, filled, line]
    exact line_contains (interactive dialect) (interactive_line line) (by omega) held
  · obtain ⟨x, y, filled, _, _, left, top, reached⟩ := fold_reaches rows.zipIdx (interactive_plane plane)
    have loaded : (load ⟨dialect, rows⟩).extent = ⟨[x, y]⟩ := by
      rw [← filled]
      simp [load, interactive, dimension, Extent.dimension, Extent.empty, plane]
    obtain ⟨index, bound, rfl⟩ := List.mem_iff_getElem.mp member
    have across := (reached (rows[index], index) (List.mk_mem_zipIdx_iff_getElem?.mpr (List.getElem?_eq_getElem bound))).1
    have down := (reached (rows[0], 0) (List.mk_mem_zipIdx_iff_getElem?.mpr (List.getElem?_eq_getElem (by omega)))).2
    have far := last_reached some (by omega)
    simp only [contains, loaded, Extent.contains_iff, plane, Vec.zero]
    refine .cons (Span.contains_iff.mpr ?_) (.cons (Span.contains_iff.mpr ?_) .nil)
    · rw [left]
      exact ⟨by decide, Int.le_trans far across⟩
    · rw [top]
      exact ⟨by decide, down⟩

@[simp] theorem interactive_isEmpty (dialect : Dialect) : (interactive dialect).isEmpty = true := by
  cases dialect <;> decide

theorem addRow_first {dialect : Dialect} (accepted : (interactive dialect).addRow row = .ok after)
    (held : row.utf8ByteSize < 0x8000000000000000) : after.contains (Vec.zero dialect.dimension) = true := by
  have more : row.isEmpty = false := by
    apply Bool.eq_false_iff.mpr
    intro last
    have known := (addRow_last last accepted).2.1
    rw [interactive_isEmpty] at known
    cases known
  have some := size_pos more
  rw [(addRow_more more accepted).2.2, interactive_isEmpty, if_pos rfl]
  rcases dialect.dimension_cases with line | plane
  · rw [line]
    exact line_contains (interactive dialect) (interactive_line line) some held
  · have written : ((interactive dialect).writeRow 0 row).extent = _ := writeRow_plane (interactive_plane plane) 0
    have far := last_reached some held
    simp only [contains, written, Extent.contains_iff, plane, Vec.zero]
    refine .cons (Span.contains_iff.mpr ⟨Int.le_refl _, ?_⟩)
      (.cons (Span.contains_iff.mpr ⟨Int.le_refl _, ?_⟩) .nil)
    · exact Int.le_trans far (Span.raise_reaches _ _)
    · exact Span.raise_reaches _ _

end Space
end Befunge
