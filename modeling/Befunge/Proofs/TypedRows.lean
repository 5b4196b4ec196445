import Mathlib.Data.List.Induction
import Befunge.Proofs.SpaceGrowth

/-! Text that is typed in row by row. Each row is checked against the space as it is and
put below what that has grown to. Text that is loaded is checked as a whole and put
where its row numbers say. Both ways the same text is accepted and the same space made. -/

namespace Befunge

theorem Span.raise_last {count value : Nat} (held : count < 0x8000000000000000) (far : value < 0x8000000000000000) :
    (⟨0, Int64.ofNat count - 1⟩ : Span).raise (Int64.ofNat value - 1) = ⟨0, Int64.ofNat (max count value) - 1⟩ := by
  have further : Int64.ofNat count - 1 < Int64.ofNat value - 1 ↔ count < value := by
    rw [Int64.lt_iff_toInt_lt, last_exact held, last_exact far]
    omega
  simp only [raise, further, Nat.max_def]
  split
  next less => rw [if_pos (Nat.le_of_lt less)]
  next more =>
    split
    next same => rw [Nat.le_antisymm same (Nat.le_of_not_lt more)]
    next => rfl

namespace Source

variable {rows : List String}

/-- Rows of one width, within the limits of a torus. -/
def Rectangle (rows : List String) : Prop :=
  rows.length ≤ Dialect.torusHeight ∧ ∃ width ≤ Dialect.torusWidth, ∀ row ∈ rows, rowWidth row = width

theorem torusFault?_eq_none_iff :
    torusFault? rows = none ↔ rows ≠ [] ∧ (∀ row ∈ rows, rowWidth row ≠ 0) ∧ Rectangle rows := by
  cases rows with
  | nil => simp [torusFault?]
  | cons first rest =>
    have head : ((first :: rest).head?.map rowWidth).getD 0 = rowWidth first := rfl
    simp only [torusFault?, head, ne_eq, reduceCtorEq, not_false_eq_true, true_and, Rectangle]
    constructor
    · intro sound
      split at sound
      · cases sound
      · split at sound
        · cases sound
        next filled =>
          split at sound
          · cases sound
          next inside =>
            split at sound
            · cases sound
            next even =>
              simp only [List.findIdx?_eq_none_iff, decide_eq_false_iff_not, Classical.not_not] at filled even
              exact ⟨filled, by omega, _, by omega, even⟩
    · rintro ⟨filled, low, width, narrow, even⟩
      obtain rfl : rowWidth first = width := even first List.mem_cons_self
      have nonzero : rowWidth first ≠ 0 := filled first List.mem_cons_self
      have noneEmpty : (first :: rest).findIdx? (rowWidth · = 0) = none := by simpa using filled
      have noneOther : (first :: rest).findIdx? (rowWidth · ≠ rowWidth first) = none := by simpa using even
      have inside : ¬ (Dialect.torusHeight < (first :: rest).length ∨ Dialect.torusWidth < rowWidth first) := by omega
      rw [if_neg nonzero, noneEmpty]
      simp only [noneOther, if_neg inside]

theorem growingFault?_eq_none_iff : growingFault? rows = none ↔ ∃ row ∈ rows, rowWidth row ≠ 0 := by
  simp [growingFault?]

theorem width_snoc (dialect : Dialect) (rows : List String) (row : String) :
    width ⟨dialect, rows ++ [row]⟩ = max (width ⟨dialect, rows⟩) (rowWidth row) := by
  simp [width]

theorem width_lt {dialect : Dialect} {bound : Nat} (some : 0 < bound) (narrow : ∀ row ∈ rows, rowWidth row < bound) :
    width ⟨dialect, rows⟩ < bound := by
  induction rows using List.reverseRecOn with
  | nil => exact some
  | append_singleton rows row ih =>
    have before := ih fun row member => narrow row (List.mem_append_left _ member)
    rw [width_snoc]
    exact Nat.max_lt.mpr ⟨before, narrow row (by simp)⟩

theorem width_eq {dialect : Dialect} {common : Nat} (some : rows ≠ []) (same : ∀ row ∈ rows, rowWidth row = common) :
    width ⟨dialect, rows⟩ = common := by
  have most : width ⟨dialect, rows⟩ < common + 1 :=
    width_lt (Nat.succ_pos _) fun row member => Nat.lt_succ_of_le (Nat.le_of_eq (same row member))
  obtain ⟨before, row, rfl⟩ := (List.eq_nil_or_concat' rows).resolve_left some
  have last := same row (by simp)
  rw [width_snoc] at most ⊢
  omega

theorem ofLines_eq_ok_iff (dialect : Dialect) (source : Source) (filled : ∀ row ∈ rows, row.isEmpty = false) :
    ofLines dialect rows = .ok source ↔
      rows ≠ [] ∧ (dialect.isTorus = true → Rectangle rows) ∧ ⟨dialect, rows⟩ = source := by
  have wide (row : String) (member : row ∈ rows) : rowWidth row ≠ 0 :=
    Nat.ne_of_gt (Space.size_pos (filled row member))
  have sound : (if dialect.isTorus then torusFault? rows else growingFault? rows) = none ↔
      rows ≠ [] ∧ (dialect.isTorus = true → Rectangle rows) := by
    split
    next torus =>
      rw [torusFault?_eq_none_iff, and_iff_right (show ∀ row ∈ rows, rowWidth row ≠ 0 from wide)]
      simp [torus]
    next growing =>
      rw [growingFault?_eq_none_iff, ← List.length_pos_iff, List.length_pos_iff_exists_mem]
      simp only [growing, Bool.false_eq_true, false_implies, and_true]
      exact exists_congr fun row => and_iff_left_of_imp (wide row)
  rw [← and_assoc, ← sound, ofLines]
  split
  next fault found => simp [found]
  next none => simp [none]

end Source

namespace Space

variable {space : Space} {x : Span} {dialect : Dialect} {rows : List String} {row : String}

private theorem setCells_within (extent : Extent) (place : Nat → Vec) (bytes : List UInt8) :
    { space with extent }.setCells place bytes = { space.setCells place bytes with extent } := by
  unfold setCells
  induction bytes.zipIdx generalizing space with
  | nil => rfl
  | cons cell cells ih => exact @ih (space.setCell (place cell.2) cell.1)

private theorem setCells_append (place : Nat → Vec) (first second : List UInt8) :
    space.setCells place (first ++ second) =
      (space.setCells place first).setCells (fun index => place (first.length + index)) second := by
  have later : second.zipIdx first.length = second.zipIdx.map fun cell => (cell.1, first.length + cell.2) :=
    List.zipIdx_eq_map_add
  simp only [setCells, List.zipIdx_append, List.foldl_append, Nat.zero_add, later, List.foldl_map]

theorem writeRow_line_eq (line : space.extent = ⟨[x]⟩) (y : Value) (row : String) :
    space.writeRow y row =
      { space.setCells (fun index => ⟨[x.high + 1 + Int64.ofNat index]⟩) (Text.bytes row) with
        extent := ⟨[{ x with high := x.high + 1 + Int64.ofNat row.utf8ByteSize - 1 }]⟩ } := by
  have extent : (space.writeRow y row).extent = _ := writeRow_line line y
  have single : space.dimension = 1 := by simp [dimension, Extent.dimension, line]
  have high : space.extent.greatest.x = x.high := by simp [line, Extent.greatest, Vec.x, Vec.get]
  simp only [writeRow, single, ↓reduceIte, addToLine, high] at extent ⊢
  rw [← extent]

theorem writeRow_line_append (line : space.extent = ⟨[x]⟩) (y z : Value) (first second : String) :
    (space.writeRow y first).writeRow z second = space.writeRow y (first ++ second) := by
  have after : (space.writeRow y first).extent = _ := writeRow_line line y
  have bytes : Text.bytes (first ++ second) = Text.bytes first ++ Text.bytes second := by simp [Text.bytes]
  have further (index : Nat) : x.high + 1 + Int64.ofNat first.utf8ByteSize - 1 + 1 + Int64.ofNat index =
      x.high + 1 + Int64.ofNat (first.utf8ByteSize + index) := by
    rw [Int64.sub_add_cancel, Int64.ofNat_add, Int64.add_assoc]
  rw [writeRow_line_eq after, writeRow_line_eq line, writeRow_line_eq line, setCells_within, bytes, setCells_append]
  simp only [further, length_bytes, String.utf8ByteSize_append]

/-- The space that rows make as long as it is not complete. -/
def laid (source : Source) : Space :=
  let space := interactive source.dialect
  if source.dialect.dimension = 1 then space.writeRow 0 (String.join source.rows)
  else source.rows.zipIdx.foldl (fun space (row, y) => space.writeRow (Int64.ofNat y) row) space

theorem load_eq (source : Source) : load source = { laid source with complete := true } := by
  simp only [load, laid, interactive, dimension, Extent.dimension, Extent.empty, List.length_replicate]

theorem laid_snoc :
    laid ⟨dialect, rows ++ [row]⟩ = (laid ⟨dialect, rows⟩).writeRow (Int64.ofNat rows.length) row := by
  rcases dialect.dimension_cases with line | plane
  · have joined : String.join (rows ++ [row]) = String.join rows ++ row := by simp
    simp only [laid, line, ↓reduceIte, joined]
    rw [writeRow_line_append (interactive_line line)]
  · simp [laid, plane, List.zipIdx_append]

@[simp] theorem laid_dialect (source : Source) : (laid source).dialect = source.dialect := by
  rw [← load_dialect, load_eq]

theorem laid_line (line : dialect.dimension = 1) :
    (laid ⟨dialect, rows⟩).extent = ⟨[⟨0, Int64.ofNat (String.join rows).utf8ByteSize - 1⟩]⟩ := by
  simp only [laid, line, ↓reduceIte]
  rw [writeRow_line (interactive_line line)]
  simp [Span.empty]

theorem laid_plane (plane : dialect.dimension = 2) (long : rows.length < 0x8000000000000000)
    (wide : ∀ row ∈ rows, row.utf8ByteSize < 0x8000000000000000) :
    (laid ⟨dialect, rows⟩).extent =
      ⟨[⟨0, Int64.ofNat (Source.width ⟨dialect, rows⟩) - 1⟩, ⟨0, Int64.ofNat rows.length - 1⟩]⟩ := by
  induction rows using List.reverseRecOn with
  | nil =>
    simp only [laid, plane, Nat.reduceEqDiff, ↓reduceIte, List.zipIdx_nil, List.foldl_nil]
    exact interactive_plane plane
  | append_singleton rows row ih =>
    simp only [List.length_append, List.length_singleton] at long ⊢
    have before (row : String) (member : row ∈ rows) := wide row (List.mem_append_left _ member)
    have across : (⟨0, Int64.ofNat (Source.width ⟨dialect, rows⟩) - 1⟩ : Span).raise (Int64.ofNat row.utf8ByteSize - 1) =
        ⟨0, Int64.ofNat (max (Source.width ⟨dialect, rows⟩) row.utf8ByteSize) - 1⟩ :=
      Span.raise_last (Source.width_lt (by decide) before) (wide row (by simp))
    have down : (⟨0, Int64.ofNat rows.length - 1⟩ : Span).raise (Int64.ofNat (rows.length + 1) - 1) =
        ⟨0, Int64.ofNat (max rows.length (rows.length + 1)) - 1⟩ :=
      Span.raise_last (by omega) long
    have next : Int64.ofNat (rows.length + 1) - 1 = Int64.ofNat rows.length := by
      rw [Int64.ofNat_add]
      exact Int64.add_sub_cancel _ _
    rw [next, Nat.max_eq_right (Nat.le_succ _), next] at down
    rw [laid_snoc, writeRow_plane (ih (by omega) before), Source.width_snoc, across, down, next]
    rfl

@[simp] theorem laid_complete (source : Source) : (laid source).complete = false := by
  simp only [laid]
  split
  · exact writeRow_complete _
  · exact List.foldlRecOn (motive := fun filled : Space => filled.complete = false) _ _ rfl
      fun filled same row _ => (writeRow_complete _).trans same

private theorem length_le_join (filled : ∀ row ∈ rows, row.isEmpty = false) :
    rows.length ≤ (String.join rows).utf8ByteSize := by
  induction rows with
  | nil => exact Nat.zero_le _
  | cons first rest ih =>
    have some := size_pos (filled first List.mem_cons_self)
    have more := ih fun row member => filled row (List.mem_cons_of_mem _ member)
    rw [List.length_cons, String.join_cons, String.utf8ByteSize_append]
    omega

private theorem width_held (held : (String.join rows).utf8ByteSize < 0x8000000000000000) :
    Source.width ⟨dialect, rows⟩ < 0x8000000000000000 :=
  Source.width_lt (by decide) fun _ member => Nat.lt_of_le_of_lt (join_size member) held

section Filled

variable (filled : ∀ row ∈ rows, row.isEmpty = false) (held : (String.join rows).utf8ByteSize < 0x8000000000000000)
include filled held

private theorem length_held : rows.length < 0x8000000000000000 :=
  Nat.lt_of_le_of_lt (length_le_join filled) held

private theorem laid_filled (plane : dialect.dimension = 2) :
    (laid ⟨dialect, rows⟩).extent =
      ⟨[⟨0, Int64.ofNat (Source.width ⟨dialect, rows⟩) - 1⟩, ⟨0, Int64.ofNat rows.length - 1⟩]⟩ :=
  laid_plane plane (length_held filled held) fun _ member => Nat.lt_of_le_of_lt (join_size member) held

private theorem laid_width (plane : dialect.dimension = 2) :
    (laid ⟨dialect, rows⟩).width = Source.width ⟨dialect, rows⟩ := by
  simp [width, Extent.size, laid_filled filled held plane, Span.size_last (width_held held)]

private theorem laid_height (plane : dialect.dimension = 2) : (laid ⟨dialect, rows⟩).height = rows.length := by
  simp [height, dimension, Extent.dimension, Extent.size, laid_filled filled held plane,
    Span.size_last (length_held filled held)]

theorem laid_isEmpty : (laid ⟨dialect, rows⟩).isEmpty = rows.isEmpty := by
  rcases List.eq_nil_or_concat' rows with rfl | ⟨before, row, rfl⟩
  · cases dialect <;> decide
  have some := size_pos (filled row (by simp))
  have several : (before ++ [row]).isEmpty = false := by simp
  rw [several, isEmpty, Extent.isEmpty_iff]
  rcases dialect.dimension_cases with line | plane
  · have total : (String.join (before ++ [row])).utf8ByteSize = (String.join before).utf8ByteSize + row.utf8ByteSize := by
      simp
    simp only [laid_line line, List.mem_singleton, forall_eq, Span.size_last held]
    omega
  · have widest : row.utf8ByteSize ≤ Source.width ⟨dialect, before ++ [row]⟩ := by
      rw [Source.width_snoc]
      exact Nat.le_max_right _ _
    simp only [laid_filled filled held plane, List.mem_cons, List.not_mem_nil, or_false, forall_eq_or_imp, forall_eq]
    rw [Span.size_last (width_held held), Span.size_last (length_held filled held), List.length_append]
    exact ⟨by omega, Nat.succ_ne_zero _⟩

private theorem addRow_laid (more : row.isEmpty = false) :
    (laid ⟨dialect, rows⟩).addRow row =
      match if dialect.isTorus then (laid ⟨dialect, rows⟩).rowFault? row else none with
      | some fault => .error fault
      | none => .ok (laid ⟨dialect, rows ++ [row]⟩) := by
  have placed : (laid ⟨dialect, rows⟩).writeRow
      (if rows.isEmpty then 0 else (laid ⟨dialect, rows⟩).extent.greatest.y + 1) row =
        laid ⟨dialect, rows ++ [row]⟩ := by
    rw [laid_snoc]
    rcases dialect.dimension_cases with line | plane
    · rw [writeRow_line_eq (laid_line line), writeRow_line_eq (laid_line line)]
    · congr 1
      have last : (laid ⟨dialect, rows⟩).extent.greatest.y = Int64.ofNat rows.length - 1 := by
        simp [laid_filled filled held plane, Extent.greatest, Vec.y, Vec.get]
      rw [last, Int64.sub_add_cancel]
      split
      next none => simp [List.isEmpty_iff.mp none]
      next => rfl
  cases found : if dialect.isTorus then (laid ⟨dialect, rows⟩).rowFault? row else none with
  | none =>
    have empty : (laid ⟨dialect, rows⟩).isEmpty = rows.isEmpty := laid_isEmpty filled held
    simp only [addRow, laid_complete, more, laid_dialect, empty, placed, found, Bool.false_eq_true, ↓reduceIte]
  | some fault => simp only [addRow, laid_complete, more, laid_dialect, found, Bool.false_eq_true, ↓reduceIte]

end Filled

def typedIn (dialect : Dialect) (rows : List String) : Except Fault Space := do
  let space ← rows.foldlM addRow (interactive dialect)
  space.finish

private theorem rectangle_snoc (filled : ∀ row ∈ rows, row.isEmpty = false)
    (held : (String.join rows).utf8ByteSize < 0x8000000000000000) :
    Source.Rectangle (rows ++ [row]) ↔
      Source.Rectangle rows ∧ (laid ⟨.befunge93, rows⟩).rowFault? row = none := by
  rw [rowFault?_eq_none_iff, laid_isEmpty filled held, laid_width filled held rfl, laid_height filled held rfl]
  constructor
  · rintro ⟨low, common, narrow, same⟩
    rw [List.length_append, List.length_singleton] at low
    have before (row : String) (member : row ∈ rows) := same row (List.mem_append_left _ member)
    have last : row.utf8ByteSize = common := same row (by simp)
    refine ⟨⟨by omega, common, narrow, before⟩, ?_, low, by omega⟩
    intro several
    rw [last, Source.width_eq (by simpa using several) before]
  · rintro ⟨⟨_, common, narrow, before⟩, even, low, fits⟩
    refine ⟨by simpa using low, row.utf8ByteSize, fits, ?_⟩
    intro other member
    rcases List.mem_append.mp member with earlier | last
    · have several : rows ≠ [] := List.ne_nil_of_mem earlier
      rw [even (by simpa using several), Source.width_eq several before]
      exact before other earlier
    · rw [List.mem_singleton.mp last]
      rfl

/-- Rows are taken in one after the other as long as there is room for all of them, and
lie where they would lie in text that is loaded. -/
theorem addRows_eq_ok_iff (filled : ∀ row ∈ rows, row.isEmpty = false)
    (held : (String.join rows).utf8ByteSize < 0x8000000000000000) :
    rows.foldlM addRow (interactive dialect) = .ok space ↔
      (dialect.isTorus = true → Source.Rectangle rows) ∧ laid ⟨dialect, rows⟩ = space := by
  induction rows using List.reverseRecOn generalizing space with
  | nil =>
    have fits : Source.Rectangle [] := ⟨by decide, 0, by decide, nofun⟩
    have none : laid ⟨dialect, []⟩ = interactive dialect := by cases dialect <;> rfl
    simp [fits, none, pure, Except.pure]
  | append_singleton rows row ih =>
    have before (row : String) (member : row ∈ rows) := filled row (List.mem_append_left _ member)
    have shorter : (String.join rows).utf8ByteSize < 0x8000000000000000 := by
      simp only [String.join_append, String.utf8ByteSize_append] at held
      omega
    have further : (laid ⟨dialect, rows⟩).addRow row = _ := addRow_laid before shorter (filled row (by simp))
    have fitting : (dialect.isTorus = true → Source.Rectangle (rows ++ [row])) ↔
        (dialect.isTorus = true → Source.Rectangle rows) ∧
          (if dialect.isTorus then (laid ⟨dialect, rows⟩).rowFault? row else none) = none := by
      cases dialect with
      | befunge93 =>
        have torus : Dialect.befunge93.isTorus = true := rfl
        simpa [torus] using rectangle_snoc before shorter
      | unefunge98 | befunge98 => simp [Dialect.isTorus, Dialect.isFunge98]
    have next : (rows ++ [row]).foldlM addRow (interactive dialect) =
        rows.foldlM addRow (interactive dialect) >>= (·.addRow row) := by
      simp [List.foldlM_append]
    rw [next, fitting]
    cases taken : rows.foldlM addRow (interactive dialect) with
    | ok first =>
      obtain ⟨fits, rfl⟩ := (ih before shorter).mp taken
      show (laid ⟨dialect, rows⟩).addRow row = .ok space ↔ _
      rw [further, and_iff_right fits]
      split
      next fault found => simp [found]
      next none => simp [none]
    | error fault =>
      refine iff_of_false ?_ ?_
      · intro same
        cases same
      · rintro ⟨⟨fits, _⟩, _⟩
        cases taken.symm.trans ((ih before shorter).mpr ⟨fits, rfl⟩)

/-- Typing text in succeeds exactly when the text as a whole is accepted, and makes the
space that loading it makes, as long as the text is of a size that memory can hold. -/
theorem typedIn_iff_load (dialect : Dialect) (rows : List String) (filled : ∀ row ∈ rows, row.isEmpty = false)
    (held : (String.join rows).utf8ByteSize < 0x8000000000000000) (space : Space) :
    typedIn dialect rows = .ok space ↔
      ∃ source, Source.ofLines dialect rows = .ok source ∧ load source = space := by
  have finished : (laid ⟨dialect, rows⟩).finish =
      if rows.isEmpty then .error { kind := .gridNotDefined } else .ok (load ⟨dialect, rows⟩) := by
    simp only [finish, laid_complete, laid_isEmpty filled held, load_eq, Bool.false_eq_true, ↓reduceIte]
  have accepted (source : Source) := Source.ofLines_eq_ok_iff dialect source filled
  simp only [accepted, typedIn]
  cases taken : rows.foldlM addRow (interactive dialect) with
  | ok typed =>
    obtain ⟨fits, rfl⟩ := (addRows_eq_ok_iff filled held).mp taken
    show (laid ⟨dialect, rows⟩).finish = .ok space ↔ _
    rw [finished]
    constructor
    · intro complete
      split at complete
      · cases complete
      next some => exact ⟨_, ⟨by simpa using some, fits, rfl⟩, Except.ok.inj complete⟩
    · rintro ⟨_, ⟨some, _, rfl⟩, rfl⟩
      rw [if_neg (by simpa using some)]
  | error fault =>
    constructor
    · intro typed
      cases typed
    · rintro ⟨source, ⟨_, fits, _⟩, _⟩
      cases taken.symm.trans ((addRows_eq_ok_iff filled held).mpr ⟨fits, rfl⟩)

/-- Ragged text can be typed in and loaded where space grows, and neither on a torus. Its rows
lie below one another, each from the first column on. -/
theorem ragged_typedIn :
    (∃ space, typedIn .befunge98 [">v", "  @"] = .ok space ∧ space = load ⟨.befunge98, [">v", "  @"]⟩ ∧
      space.extent = ⟨[⟨0, 2⟩, ⟨0, 1⟩]⟩ ∧ space.row 0 = ">v " ∧ space.row 1 = "  @" ∧ space.peek ⟨[2, 1]⟩ = 0x40) ∧
      ∀ space, typedIn .befunge93 [">v", "  @"] ≠ .ok space := by
  have filled : ∀ row ∈ [">v", "  @"], row.isEmpty = false := by decide
  have held : (String.join [">v", "  @"]).utf8ByteSize < 0x8000000000000000 := by decide +kernel
  have typed := (typedIn_iff_load .befunge98 _ filled held _).mpr ⟨_, rfl, rfl⟩
  refine ⟨⟨_, typed, rfl, by decide +kernel, by decide +kernel, by decide +kernel, by decide +kernel⟩, ?_⟩
  intro space typed
  obtain ⟨source, accepted, _⟩ := (typedIn_iff_load .befunge93 _ filled held space).mp typed
  cases (show Source.ofLines .befunge93 [">v", "  @"] = .error { kind := .notRectangular, message := "row 2" } by
    decide +kernel).symm.trans accepted

end Space
end Befunge
