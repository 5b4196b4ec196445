import Mathlib.Data.List.Induction
import Befunge.Proofs.SpaceGrowth

/-! What the cells of a space read after some of them were written. A write shows at its own
place and nowhere else, and a row of text at the places of its bytes. Whatever is not
blank lies inside the extent. -/

namespace Befunge

namespace Span

theorem cover_contains (span : Span) (value : Value) : (span.cover value).contains value = true := by
  simp only [contains_iff, cover, Int64.lt_iff_toInt_lt]
  constructor <;> split <;> omega

end Span

namespace Extent

theorem cover_contains {extent : Extent} {place : Vec} (same : place.dimension = extent.dimension) :
    (extent.cover place).contains place = true := by
  obtain ⟨spans⟩ := extent
  obtain ⟨cs⟩ := place
  apply contains_iff.mpr
  simp only [cover, dimension, Vec.dimension] at *
  induction spans generalizing cs with
  | nil =>
    cases cs with
    | nil => exact .nil
    | cons c cs => cases same
  | cons span spans ih =>
    cases cs with
    | nil => cases same
    | cons c cs => exact .cons (span.cover_contains c) (ih cs (by simpa using same))

theorem least_contains {extent : Extent} (proper : extent.Proper) : extent.contains extent.least = true := by
  obtain ⟨spans⟩ := extent
  apply contains_iff.mpr
  simp only [least, List.forall₂_map_right_iff, List.forall₂_same]
  intro span member
  exact Span.contains_iff.mpr ⟨Int.le_refl _, proper span member⟩

end Extent

namespace Space

variable {space : Space} {place other : Vec} {row : String}

theorem peek_setCell (space : Space) (place other : Vec) (byte : UInt8) :
    (space.setCell place byte).peek other = if other = place then byte else space.peek other := by
  have same : compare place other = .eq ↔ other = place := Std.compare_eq_iff_eq.trans eq_comm
  simp only [peek, setCell]
  by_cases erased : byte = blank
  · rw [if_pos erased, Std.ExtTreeMap.getD_erase, erased]
    simp only [same]
  · rw [if_neg erased, Std.ExtTreeMap.getD_insert]
    simp only [same]

theorem peek_put (growing : space.dialect.isTorus = false) (axes : place.dimension = space.dimension) (value : Value) :
    (space.put place value).peek other = if other = place then value.lowByte else space.peek other := by
  simp only [put, growing, axes, Bool.false_eq_true, ↓reduceIte]
  split <;> exact peek_setCell _ _ _ _

theorem setCells_snoc (place : Nat → Vec) (bytes : List UInt8) (byte : UInt8) :
    space.setCells place (bytes ++ [byte]) = (space.setCells place bytes).setCell (place bytes.length) byte := by
  simp [setCells, List.zipIdx_append]

theorem peek_setCells_away {place : Nat → Vec} {bytes : List UInt8}
    (away : ∀ index < bytes.length, other ≠ place index) :
    (space.setCells place bytes).peek other = space.peek other := by
  induction bytes using List.reverseRecOn with
  | nil => rfl
  | append_singleton bytes byte ih =>
    rw [List.length_append, List.length_singleton] at away
    rw [setCells_snoc, peek_setCell, if_neg (away bytes.length (by omega))]
    apply ih
    intro index less
    exact away index (by omega)

theorem peek_setCells_at (place : Nat → Vec) {bytes : List UInt8} {index : Nat} (bound : index < bytes.length)
    (apart : ∀ later < bytes.length, index < later → place index ≠ place later) :
    (space.setCells place bytes).peek (place index) = bytes[index] := by
  induction bytes using List.reverseRecOn with
  | nil => cases bound
  | append_singleton bytes byte ih =>
    rw [List.length_append, List.length_singleton] at bound apart
    rw [setCells_snoc, peek_setCell]
    by_cases last : index = bytes.length
    · subst last
      simp
    · have earlier : index < bytes.length := by omega
      rw [if_neg (apart bytes.length (by omega) earlier), List.getElem_append_left earlier]
      apply ih earlier
      intro later less
      exact apart later (by omega)

def OnRow (y : Value) (count : Nat) (place : Vec) : Prop :=
  ∃ index < count, place = ⟨[Int64.ofNat index, y]⟩

private theorem column_injective {first second : Nat} (held : first < 0x8000000000000000)
    (also : second < 0x8000000000000000) (y : Value)
    (same : (⟨[Int64.ofNat first, y]⟩ : Vec) = ⟨[Int64.ofNat second, y]⟩) : first = second := by
  simp only [Vec.mk.injEq, List.cons.injEq, and_true] at same
  have exact : (Int64.ofNat first).toInt = first := Int64.toInt_ofNat_of_lt held
  rw [same, Int64.toInt_ofNat_of_lt also] at exact
  omega

private theorem peek_addToPlane (plane : space.extent.dimension = 2) (y : Value) (place : Vec) :
    (space.writeRow y row).peek place =
      (space.setCells (fun index => ⟨[Int64.ofNat index, y]⟩) (Text.bytes row)).peek place := by
  have double : space.dimension ≠ 1 := by simp [dimension, plane]
  simp only [writeRow, double, ↓reduceIte, addToPlane, peek]

theorem peek_writeRow_away (plane : space.extent.dimension = 2) {y : Value}
    (away : ¬ OnRow y row.utf8ByteSize place) : (space.writeRow y row).peek place = space.peek place := by
  rw [peek_addToPlane plane]
  apply peek_setCells_away
  intro index less same
  rw [length_bytes] at less
  exact away ⟨index, less, same⟩

theorem peek_writeRow_at (plane : space.extent.dimension = 2) (held : row.utf8ByteSize < 0x8000000000000000)
    (y : Value) {index : Nat} (bound : index < (Text.bytes row).length) :
    (space.writeRow y row).peek ⟨[Int64.ofNat index, y]⟩ = (Text.bytes row)[index] := by
  rw [peek_addToPlane plane]
  apply peek_setCells_at (fun index => ⟨[Int64.ofNat index, y]⟩) bound
  intro later less after same
  rw [length_bytes] at less
  have again := column_injective (by omega) (by omega) y same
  omega

/-- Every cell that is not blank lies inside the extent. -/
def Enclosed (space : Space) : Prop :=
  ∀ place, space.peek place ≠ blank → space.contains place = true

theorem interactive_enclosed (dialect : Dialect) : (interactive dialect).Enclosed := by
  intro place filled
  exact absurd Std.ExtTreeMap.getD_empty filled

private theorem setCell_enclosed (enclosed : space.Enclosed) (inside : space.contains place = true) (byte : UInt8) :
    (space.setCell place byte).Enclosed := by
  intro other filled
  rw [peek_setCell] at filled
  split at filled
  next same =>
    rw [same]
    exact inside
  next => exact enclosed other filled

theorem put_enclosed (enclosed : space.Enclosed) (proper : space.extent.Proper) (place : Vec) (value : Value) :
    (space.put place value).Enclosed := by
  simp only [put]
  split
  next inside => exact setCell_enclosed enclosed inside _
  next =>
    split
    · exact setCell_enclosed enclosed (Extent.least_contains proper) _
    · split
      next same =>
        have grown : Enclosed { space with extent := space.extent.cover place } := by
          intro other filled
          exact (Extent.cover_grows same).contains (enclosed other filled)
        exact setCell_enclosed grown (Extent.cover_contains same) _
      next => exact enclosed

theorem writeRow_contains {x y : Span} (plane : space.extent = ⟨[x, y]⟩) (left : x.low.toInt ≤ 0)
    {below : Value} (top : y.low.toInt ≤ below.toInt) (held : row.utf8ByteSize < 0x8000000000000000)
    (written : OnRow below row.utf8ByteSize place) : (space.writeRow below row).contains place = true := by
  obtain ⟨index, less, rfl⟩ := written
  have exact : (Int64.ofNat index).toInt = index := Int64.toInt_ofNat_of_lt (by omega)
  have far := x.raise_reaches (Int64.ofNat row.utf8ByteSize - 1)
  rw [Span.last_exact held] at far
  simp only [contains, writeRow_plane plane, Extent.contains_iff]
  refine .cons (Span.contains_iff.mpr ?_) (.cons (Span.contains_iff.mpr ⟨top, y.raise_reaches below⟩) .nil)
  rw [exact]
  exact ⟨Int.le_trans left (Int.natCast_nonneg index), by omega⟩

theorem writeRow_enclosed {x y : Span} (enclosed : space.Enclosed) (plane : space.extent = ⟨[x, y]⟩)
    (left : x.low.toInt ≤ 0) {below : Value} (top : y.low.toInt ≤ below.toInt)
    (held : row.utf8ByteSize < 0x8000000000000000) : (space.writeRow below row).Enclosed := by
  have double : space.extent.dimension = 2 := by simp [plane, Extent.dimension]
  intro place filled
  by_cases written : OnRow below row.utf8ByteSize place
  · exact writeRow_contains plane left top held written
  · rw [peek_writeRow_away double written] at filled
    exact (writeRow_grows double below).extent.contains (enclosed place filled)

end Space
end Befunge
