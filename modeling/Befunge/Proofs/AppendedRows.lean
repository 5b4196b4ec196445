import Befunge.Proofs.SpaceCells

/-! Rows that are added to a plane after cells of it were written. A row goes below
everything known as long as the extent has a size. An extent too wide for one counts as
empty, and then the row goes to the top of the program and over the text that is there. -/

namespace Befunge

/-- The least extent that has the places of another and some more. -/
structure Extent.Hull (before : Extent) (more : Vec → Prop) (after : Extent) : Prop where
  grows : Grows before after
  covers : ∀ place, more place → after.contains place = true
  least : ∀ other, Grows before other → (∀ place, more place → other.contains place = true) → Grows after other

namespace Space

/-- What can be done to a grid while it is typed in. -/
inductive Edit where
  | addRow (row : String)
  | put (place : Vec) (value : Value)
  deriving DecidableEq

def edit (space : Space) : Edit → Space
  | .addRow row =>
    match space.addRow row with
    | .ok after => after
    | .error _ => space
  | .put place value => space.put place value

def edited (space : Space) (edits : List Edit) : Space :=
  edits.foldl edit space

/-- A row of text that was put on row `y` and changed nothing else. -/
structure Placed (before : Space) (y : Value) (row : String) (after : Space) : Prop where
  reads : ∀ index (bound : index < (Text.bytes row).length),
    after.peek ⟨[Int64.ofNat index, y]⟩ = (Text.bytes row)[index]
  keeps : ∀ place, ¬ OnRow y row.utf8ByteSize place → after.peek place = before.peek place
  extent : before.extent.Hull (OnRow y row.utf8ByteSize) after.extent

structure Rooted (space : Space) : Prop where
  plane : space.extent.dimension = 2
  origin : space.contains (Vec.zero 2) = true

variable {space begun after : Space} {dialect : Dialect} {first row : String} {y : Value}

namespace Rooted

theorem grow (rooted : space.Rooted) (grows : Grows space after) : after.Rooted where
  plane := grows.extent.dimension.trans rooted.plane
  origin := grows.extent.contains rooted.origin

theorem edit (rooted : space.Rooted) (edit : Edit) : (space.edit edit).Rooted := by
  cases edit with
  | put place value => exact rooted.grow (put_grows place value)
  | addRow row =>
    simp only [Space.edit]
    split
    next after accepted => exact rooted.grow (addRow_grows rooted.plane accepted)
    next => exact rooted

theorem edited (rooted : space.Rooted) (edits : List Edit) : (space.edited edits).Rooted := by
  induction edits generalizing space with
  | nil => exact rooted
  | cons edit edits ih => exact ih (rooted.edit edit)

theorem spans (rooted : space.Rooted) : ∃ x y, space.extent = ⟨[x, y]⟩ ∧
    (x.low.toInt ≤ 0 ∧ 0 ≤ x.high.toInt) ∧ y.low.toInt ≤ 0 ∧ 0 ≤ y.high.toInt := by
  obtain ⟨x, y, components⟩ := List.length_eq_two.mp rooted.plane
  have plane : space.extent = ⟨[x, y]⟩ := congrArg Extent.mk components
  have origin := rooted.origin
  simp only [contains, plane, Extent.contains_iff, Vec.zero, List.replicate_succ, List.replicate_zero,
    List.forall₂_cons, Span.contains_iff, Int64.toInt_zero] at origin
  exact ⟨x, y, plane, origin.1, origin.2.1⟩

theorem place (rooted : space.Rooted) (more : row.isEmpty = false) (held : row.utf8ByteSize < 0x8000000000000000)
    (below : 0 ≤ y.toInt) : space.Placed y row (space.writeRow y row) := by
  obtain ⟨across, down, plane, left, top⟩ := rooted.spans
  have some := size_pos more
  refine ⟨?_, ?_, ?_, ?_, ?_⟩
  · intro index bound
    exact peek_writeRow_at rooted.plane held y bound
  · intro place away
    exact peek_writeRow_away rooted.plane away
  · exact (writeRow_grows rooted.plane y).extent
  · intro place written
    exact writeRow_contains plane left.1 (Int.le_trans top.1 below) held written
  · intro other grows covers
    -- The last cell of the row is as far to the right and as far down as it goes.
    have last := covers ⟨[Int64.ofNat (row.utf8ByteSize - 1), y]⟩ ⟨_, by omega, rfl⟩
    obtain ⟨others⟩ := other
    rw [Extent.Grows, plane] at grows
    rw [Extent.Grows, writeRow_plane plane]
    obtain ⟨wide, rest, wider, narrow, rfl⟩ := List.forall₂_cons_left_iff.mp grows
    obtain ⟨high, rest, higher, none, rfl⟩ := List.forall₂_cons_left_iff.mp narrow
    obtain rfl := List.forall₂_nil_left_iff.mp none
    simp only [Extent.contains_iff, List.forall₂_cons, Span.contains_iff] at last
    have exact : (Int64.ofNat (row.utf8ByteSize - 1)).toInt = (row.utf8ByteSize - 1 : Nat) :=
      Int64.toInt_ofNat_of_lt (by omega)
    rw [exact] at last
    refine .cons ⟨wider.1, ?_⟩ (.cons ⟨higher.1, ?_⟩ .nil)
    · have last := Span.last_exact held
      have reached := wider.2
      simp only [Span.raise, Int64.lt_iff_toInt_lt]
      split <;> omega
    · have reached := higher.2
      simp only [Span.raise]
      split
      · exact last.2.1.2
      · exact reached

end Rooted

theorem begun_rooted (plane : dialect.dimension = 2) (opened : (interactive dialect).addRow first = .ok begun)
    (held : first.utf8ByteSize < 0x8000000000000000) : begun.Rooted := by
  have origin := addRow_first opened held
  rw [plane] at origin
  exact ⟨(Extent.dimension_of_contains origin).symm, origin⟩

theorem addRow_next (rooted : space.Rooted) (more : row.isEmpty = false) (accepted : space.addRow row = .ok after) :
    ∃ y, after = space.writeRow y row ∧ 0 ≤ y.toInt ∧ (¬ space.extent.Fits → y = 0) ∧
      (space.extent.Fits → ∀ place, space.contains place = true → place.y < y) := by
  obtain ⟨across, down, plane, left, top⟩ := rooted.spans
  have sized : space.isEmpty = false ↔ space.extent.Fits :=
    Extent.isEmpty_iff_fits (Extent.proper_of_contains rooted.origin)
  refine ⟨_, (addRow_more more accepted).2.2, ?_⟩
  by_cases fits : space.extent.Fits
  · have greatest : space.extent.greatest.y = down.high := by simp [plane, Extent.greatest, Vec.y, Vec.get]
    have short : down.Fits := fits down (by simp [plane])
    simp only [Span.Fits, Int64.toInt_maxValue] at short
    have next : (down.high + 1).toInt = down.high.toInt + 1 := by
      have least := down.high.le_toInt
      rw [Int64.toInt_add, Int64.toInt_one, Int.bmod_eq_of_le (by omega) (by omega)]
    rw [sized.mpr fits, greatest, if_neg (by decide), next]
    refine ⟨by omega, absurd fits, ?_⟩
    intro _ place inside
    obtain ⟨components⟩ := place
    simp only [contains, plane, Extent.contains_iff, List.forall₂_cons_left_iff] at inside
    obtain ⟨x, _, _, ⟨y, _, within, _, rfl⟩, rfl⟩ := inside
    have low := (Span.contains_iff.mp within).2
    rw [Int64.lt_iff_toInt_lt, next]
    show y.toInt < _
    omega
  · have unsized : space.isEmpty = true := by
      rw [← Bool.not_eq_false, sized]
      exact fits
    rw [unsized, if_pos rfl]
    exact ⟨Int.le_refl _, fun _ => rfl, fun fitting => absurd fitting fits⟩

/-- Whatever was written and typed in before, a further row reads where it was put, the
rest of the plane is kept, and the extent grows by the row. It is put below all that was
known, and nothing known is lost, exactly when no axis is wider than the greatest value.
Otherwise it is put on row zero. -/
theorem row_below_iff_fits (dialect : Dialect) (plane : dialect.dimension = 2) (first : String)
    (opened : (interactive dialect).addRow first = .ok begun) (held : first.utf8ByteSize < 0x8000000000000000)
    (edits : List Edit) (row : String) (more : row.isEmpty = false) (fitting : row.utf8ByteSize < 0x8000000000000000)
    (accepted : (begun.edited edits).addRow row = .ok after) :
    let before := begun.edited edits
    ∃ y, Placed before y row after ∧ (¬ before.extent.Fits → y = 0) ∧
      ((∀ place, before.contains place = true → place.y < y ∧ after.peek place = before.peek place) ↔
        before.extent.Fits) := by
  intro before
  have rooted : before.Rooted := (begun_rooted plane opened held).edited edits
  obtain ⟨y, rfl, positive, top, below⟩ := addRow_next rooted more accepted
  have placed := rooted.place more fitting positive
  refine ⟨y, placed, top, ?_, ?_⟩
  · intro lower
    by_contra wide
    have above := (lower _ rooted.origin).1
    rw [top wide] at above
    exact absurd above (by decide)
  · intro fits place inside
    have above := below fits place inside
    refine ⟨above, placed.keeps place ?_⟩
    rintro ⟨index, _, rfl⟩
    exact Int64.lt_irrefl above

/-- A write at the greatest column makes the extent too wide, and the second row is put
over the first. -/
theorem row_over_first :
    let begun := (interactive .befunge98).edited [.addRow "ab", .put ⟨[Int64.maxValue, 0]⟩ 65]
    ∃ after, begun.addRow "xy" = .ok after ∧ begun.contains ⟨[0, 0]⟩ = true ∧ begun.peek ⟨[0, 0]⟩ = 97 ∧
      after.peek ⟨[0, 0]⟩ = 120 ∧ after.extent.greatest = ⟨[Int64.maxValue, 0]⟩ := by
  refine ⟨_, rfl, ?_⟩
  decide +kernel

/-- One column less leaves the extent a size, and all that was known is kept. -/
theorem row_below_first :
    let begun := (interactive .befunge98).writeRow 0 "ab"
    let before := begun.edited [.put ⟨[Int64.maxValue - 1, 0]⟩ 65]
    let after := before.writeRow 1 "xy"
    (interactive .befunge98).addRow "ab" = .ok begun ∧ before.addRow "xy" = .ok after ∧
      ∀ place, before.contains place = true → after.peek place = before.peek place := by
  intro begun before after
  have opened : (interactive .befunge98).addRow "ab" = .ok begun := rfl
  have accepted : before.addRow "xy" = .ok after := rfl
  obtain ⟨_, _, _, below⟩ := row_below_iff_fits .befunge98 rfl "ab" opened (by decide +kernel)
    [.put ⟨[Int64.maxValue - 1, 0]⟩ 65] "xy" (by decide +kernel) (by decide +kernel) accepted
  refine ⟨opened, accepted, ?_⟩
  intro place inside
  exact (below.mpr (by decide +kernel) place inside).2

end Space
end Befunge
