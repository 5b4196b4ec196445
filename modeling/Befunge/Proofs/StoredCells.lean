import Befunge.Proofs.SpaceCells
import Befunge.Proofs.TypedRows

/-! Which cells are stored. A space is never stored, and every stored cell lies inside the
extent, on a line as well as on a plane. -/

namespace Befunge

structure Source.Held (rows : List String) : Prop where
  long : rows.length < 0x8000000000000000
  wide : (String.join rows).utf8ByteSize < 0x8000000000000000

theorem Source.Held.row {rows : List String} {row : String} (held : Held rows) (member : row ∈ rows) :
    row.utf8ByteSize < 0x8000000000000000 :=
  Nat.lt_of_le_of_lt (Space.join_size member) held.wide

namespace Space

variable {space after : Space} {dialect : Dialect} {rows : List String} {row : String} {place : Vec}

def Trimmed (space : Space) : Prop :=
  ∀ place : Vec, space.cells[place]? ≠ some blank

theorem Trimmed.stored (trimmed : space.Trimmed) (enclosed : space.Enclosed) {byte : UInt8}
    (stored : space.cells[place]? = some byte) : byte ≠ blank ∧ space.contains place = true := by
  have reads : space.peek place = byte := by
    rw [peek, Std.ExtTreeMap.getD_eq_getD_getElem?, stored, Option.getD_some]
  have filled : byte ≠ blank := by
    rintro rfl
    exact trimmed place stored
  exact ⟨filled, enclosed place (reads ▸ filled)⟩

theorem interactive_trimmed (dialect : Dialect) : (interactive dialect).Trimmed := by
  intro place
  simp [interactive]

theorem setCell_trimmed (trimmed : space.Trimmed) (place : Vec) (byte : UInt8) : (space.setCell place byte).Trimmed := by
  intro other
  simp only [setCell]
  by_cases erased : byte = blank
  · rw [if_pos erased, Std.ExtTreeMap.getElem?_erase]
    split
    · intro stored
      cases stored
    · exact trimmed other
  · rw [if_neg erased, Std.ExtTreeMap.getElem?_insert]
    split
    · simpa using erased
    · exact trimmed other

theorem put_trimmed (trimmed : space.Trimmed) (place : Vec) (value : Value) : (space.put place value).Trimmed := by
  simp only [put]
  split
  · exact setCell_trimmed trimmed _ _
  · split
    · exact setCell_trimmed trimmed _ _
    · split
      · have grown : Trimmed { space with extent := space.extent.cover place } := trimmed
        exact setCell_trimmed grown _ _
      · exact trimmed

theorem setCells_trimmed (trimmed : space.Trimmed) (place : Nat → Vec) (bytes : List UInt8) :
    (space.setCells place bytes).Trimmed := by
  induction bytes using List.reverseRecOn with
  | nil => exact trimmed
  | append_singleton bytes byte ih =>
    rw [setCells_snoc]
    exact setCell_trimmed ih _ _

theorem writeRow_trimmed (trimmed : space.Trimmed) (y : Value) (row : String) : (space.writeRow y row).Trimmed := by
  simp only [writeRow, addToLine, addToPlane]
  split
  · exact setCells_trimmed trimmed _ _
  · exact setCells_trimmed trimmed _ _

theorem addRow_trimmed (trimmed : space.Trimmed) (accepted : space.addRow row = .ok after) : after.Trimmed := by
  cases more : row.isEmpty with
  | true =>
    rw [(addRow_last more accepted).2.2]
    exact trimmed
  | false =>
    rw [(addRow_more more accepted).2.2]
    exact writeRow_trimmed trimmed _ _

theorem load_trimmed (source : Source) : (load source).Trimmed := by
  rw [load_eq]
  show (laid source).Trimmed
  simp only [laid]
  split
  · exact writeRow_trimmed (interactive_trimmed _) _ _
  · refine List.foldlRecOn (motive := Trimmed) _ _ (interactive_trimmed _) ?_
    intro filled trimmed row _
    exact writeRow_trimmed trimmed _ _

section Line

variable (line : dialect.dimension = 1)
include line

private theorem peek_addToLine (y : Value) (row : String) (place : Vec) :
    ((interactive dialect).writeRow y row).peek place =
      ((interactive dialect).setCells (fun index => ⟨[Int64.ofNat index]⟩) (Text.bytes row)).peek place := by
  have first : Span.empty.high + 1 = 0 := by decide
  simp only [writeRow_line_eq (interactive_line line), first, Int64.zero_add, peek]

theorem peek_line_away {y : Value} (away : ∀ index < row.utf8ByteSize, place ≠ ⟨[Int64.ofNat index]⟩) :
    ((interactive dialect).writeRow y row).peek place = blank := by
  rw [peek_addToLine line, peek_setCells_away (by simpa using away)]
  exact Std.ExtTreeMap.getD_empty

theorem peek_line_at (held : row.utf8ByteSize < 0x8000000000000000) (y : Value) {index : Nat}
    (bound : index < (Text.bytes row).length) :
    ((interactive dialect).writeRow y row).peek ⟨[Int64.ofNat index]⟩ = (Text.bytes row)[index] := by
  rw [peek_addToLine line]
  apply peek_setCells_at (fun index => ⟨[Int64.ofNat index]⟩) bound
  intro later less after same
  rw [length_bytes] at less
  simp only [Vec.mk.injEq, List.cons.injEq, and_true] at same
  have exact : (Int64.ofNat index).toInt = index := Int64.toInt_ofNat_of_lt (by omega)
  rw [same, Int64.toInt_ofNat_of_lt (by omega)] at exact
  omega

theorem line_enclosed (held : row.utf8ByteSize < 0x8000000000000000) (y : Value) :
    ((interactive dialect).writeRow y row).Enclosed := by
  intro place filled
  have written : ∃ index < row.utf8ByteSize, place = ⟨[Int64.ofNat index]⟩ := by
    by_contra away
    apply filled
    apply peek_line_away line
    intro index less same
    exact away ⟨index, less, same⟩
  obtain ⟨index, less, rfl⟩ := written
  have exact : (Int64.ofNat index).toInt = index := Int64.toInt_ofNat_of_lt (by omega)
  have last := Span.last_exact held
  simp only [contains, writeRow_line (interactive_line line), Extent.contains_iff]
  refine .cons (Span.contains_iff.mpr ?_) .nil
  have first : Span.empty.high + 1 = 0 := by decide
  simp only [first, Int64.zero_add, last, exact]
  exact ⟨Int.natCast_nonneg _, by omega⟩

end Line

theorem laid_enclosed (plane : dialect.dimension = 2) (long : rows.length < 0x8000000000000000)
    (wide : ∀ row ∈ rows, row.utf8ByteSize < 0x8000000000000000) : (laid ⟨dialect, rows⟩).Enclosed := by
  induction rows using List.reverseRecOn with
  | nil =>
    simp only [laid, plane, Nat.reduceEqDiff, ↓reduceIte, List.zipIdx_nil, List.foldl_nil]
    exact interactive_enclosed dialect
  | append_singleton rows row ih =>
    rw [List.length_append, List.length_singleton] at long
    have before (row : String) (member : row ∈ rows) := wide row (List.mem_append_left _ member)
    rw [laid_snoc]
    apply writeRow_enclosed (ih (by omega) before) (laid_plane plane (by omega) before) (Int.le_refl _)
    · rw [Int64.toInt_ofNat_of_lt (by omega)]
      exact Int.natCast_nonneg _
    · exact wide row (by simp)

theorem load_enclosed (held : Source.Held rows) : (load ⟨dialect, rows⟩).Enclosed := by
  rw [load_eq]
  show (laid ⟨dialect, rows⟩).Enclosed
  rcases dialect.dimension_cases with line | plane
  · simp only [laid, line, ↓reduceIte]
    exact line_enclosed line held.wide 0
  · exact laid_enclosed plane held.long fun _ => held.row

theorem first_enclosed (accepted : (interactive dialect).addRow row = .ok after)
    (held : row.utf8ByteSize < 0x8000000000000000) : after.Enclosed := by
  cases more : row.isEmpty with
  | true =>
    cases (interactive_isEmpty dialect).symm.trans (addRow_last more accepted).2.1
  | false =>
    rw [(addRow_more more accepted).2.2, interactive_isEmpty, if_pos rfl]
    rcases dialect.dimension_cases with line | plane
    · exact line_enclosed line held 0
    · exact writeRow_enclosed (interactive_enclosed dialect) (interactive_plane plane) (Int.le_refl _) (Int.le_refl _) held

end Space
end Befunge
