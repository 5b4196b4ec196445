import Befunge.Proofs.StoredCells

/-! Program text, from the check to the space it is loaded into. Each dialect accepts what it
has room for, and in the space every byte of accepted text stands where it stood in its row,
with spaces around. -/

namespace Befunge

namespace Text

private theorem encode_ascii {c : Char} (ascii : c.toNat < 128) : String.utf8EncodeChar c = [UInt8.ofNat c.toNat] := by
  have low : c.val.toNat ≤ 127 := Nat.le_of_lt_succ ascii
  simp only [String.utf8EncodeChar, if_pos low]
  rfl

private theorem ofUInt8_ascii {c : Char} (ascii : c.toNat < 128) : Char.ofUInt8 (UInt8.ofNat c.toNat) = c := by
  apply Char.ext
  apply UInt32.toNat_inj.mp
  have low : c.toNat % 256 = c.val.toNat := Nat.mod_eq_of_lt (Nat.lt_trans ascii (by decide))
  show (UInt8.ofNat c.toNat).toUInt32.toNat = c.val.toNat
  simpa using low

theorem ofBytes_bytes {text : String} (ascii : ∀ c ∈ text.toList, c.toNat < 128) : ofBytes (bytes text) = text := by
  have encoded : bytes (String.ofList text.toList) = text.toList.flatMap String.utf8EncodeChar := by
    rw [bytes, String.toUTF8_eq_toByteArray, String.toByteArray_ofList]
    simp [List.utf8Encode]
  have shown : (text.toList.flatMap String.utf8EncodeChar).map Char.ofUInt8 = text.toList := by
    generalize text.toList = characters at ascii
    induction characters with
    | nil => rfl
    | cons c rest ih =>
      rw [List.forall_mem_cons] at ascii
      rw [List.flatMap_cons, encode_ascii ascii.1, List.map_append, ih ascii.2, List.map_singleton, ofUInt8_ascii ascii.1]
      rfl
  rw [String.ofList_toList] at encoded
  rw [ofBytes, encoded, shown, String.ofList_toList]

@[simp] theorem bytes_empty : bytes "" = [] := by
  simp [bytes]

end Text

namespace Source

variable {rows : List String} {fault : Fault}

/-- What a dialect asks of program text. -/
def Acceptable (dialect : Dialect) (rows : List String) : Prop :=
  if dialect.isTorus then
    rows ≠ [] ∧ (∀ row ∈ rows, row ≠ "") ∧ rows.length ≤ 25 ∧ (rows.headD "").utf8ByteSize ≤ 80 ∧
      ∀ row ∈ rows, ∀ other ∈ rows, row.utf8ByteSize = other.utf8ByteSize
  else ∃ row ∈ rows, row ≠ ""

/-- Why a torus does not accept rows. -/
def rejection (rows : List String) : FaultKind :=
  if rows = [] ∨ "" ∈ rows then .emptySource
  else if 25 < rows.length ∨ 80 < (rows.headD "").utf8ByteSize then .outOfBounds
  else .notRectangular

private theorem rowWidth_ne_zero (row : String) : rowWidth row ≠ 0 ↔ row ≠ "" := by
  rw [rowWidth, ne_eq, String.utf8ByteSize_eq_zero_iff]

theorem rectangle_iff (some : rows ≠ []) :
    Rectangle rows ↔ rows.length ≤ 25 ∧ (rows.headD "").utf8ByteSize ≤ 80 ∧
      ∀ row ∈ rows, ∀ other ∈ rows, row.utf8ByteSize = other.utf8ByteSize := by
  obtain ⟨first, rest, rfl⟩ := List.exists_cons_of_ne_nil some
  refine and_congr_right fun _ => ?_
  constructor
  · rintro ⟨width, narrow, even⟩
    refine ⟨Nat.le_trans (Nat.le_of_eq (even first List.mem_cons_self)) narrow, ?_⟩
    intro row member other also
    exact (even row member).trans (even other also).symm
  · rintro ⟨narrow, even⟩
    refine ⟨first.utf8ByteSize, narrow, ?_⟩
    intro row member
    exact even row member first List.mem_cons_self

theorem ofLines_accepted_iff (dialect : Dialect) (rows : List String) :
    (∃ source, ofLines dialect rows = .ok source) ↔ Acceptable dialect rows := by
  have accepted : (∃ source, ofLines dialect rows = .ok source) ↔
      (if dialect.isTorus then torusFault? rows else growingFault? rows) = none := by
    simp only [ofLines]
    split
    next fault found => simp [found]
    next none => simp [none]
  rw [accepted, Acceptable]
  split
  · rw [torusFault?_eq_none_iff]
    refine and_congr_right fun some => ?_
    simp only [rowWidth_ne_zero, rectangle_iff some]
  · rw [growingFault?_eq_none_iff]
    simp only [rowWidth_ne_zero]

theorem torusFault?_kind (found : torusFault? rows = some fault) : fault.kind = rejection rows := by
  have width : (rows.head?.map rowWidth).getD 0 = (rows.headD "").utf8ByteSize := by
    cases rows <;> rfl
  simp only [torusFault?, width] at found
  split at found
  next empty =>
    cases found
    have lacking : rows = [] ∨ "" ∈ rows := by
      cases rows with
      | nil => exact .inl rfl
      | cons first rest =>
        obtain rfl : first = "" := String.utf8ByteSize_eq_zero_iff.mp empty
        exact .inr List.mem_cons_self
    rw [rejection, if_pos lacking]
  next some =>
    split at found
    next index place =>
      cases found
      obtain ⟨bound, empty, _⟩ := List.findIdx?_eq_some_iff_getElem.mp place
      have same : rows[index] = "" := String.utf8ByteSize_eq_zero_iff.mp (by simpa [rowWidth] using empty)
      have lacking : rows = [] ∨ "" ∈ rows := .inr (same ▸ List.getElem_mem bound)
      rw [rejection, if_pos lacking]
    next none =>
      have complete : ¬ (rows = [] ∨ "" ∈ rows) := by
        rintro (rfl | member)
        · exact some rfl
        · have filled := List.findIdx?_eq_none_iff.mp none "" member
          simp [rowWidth] at filled
      rw [rejection, if_neg complete]
      split at found
      next outside =>
        cases found
        exact (if_pos outside).symm
      next inside =>
        split at found
        · cases found
          exact (if_neg inside).symm
        · cases found

theorem ofLines_rejected (rejected : ofLines .befunge93 rows = .error fault) : fault.kind = rejection rows := by
  have torus : Dialect.befunge93.isTorus = true := rfl
  simp only [ofLines, torus, ↓reduceIte] at rejected
  split at rejected
  next found =>
    cases rejected
    exact torusFault?_kind found
  next => cases rejected

theorem rowWidth_le_width {dialect : Dialect} {row : String} (member : row ∈ rows) :
    row.utf8ByteSize ≤ width ⟨dialect, rows⟩ := by
  induction rows using List.reverseRecOn with
  | nil => cases member
  | append_singleton rows last ih =>
    rw [width_snoc]
    rcases List.mem_append.mp member with before | same
    · exact Nat.le_trans (ih before) (Nat.le_max_left _ _)
    · rw [List.mem_singleton.mp same]
      exact Nat.le_max_right _ _

end Source

namespace Space

variable {dialect : Dialect} {rows : List String} {source : Source}

/-- Rows of text on a plane, one below the other from the origin on. -/
structure OnPlane (source : Source) (space : Space) : Prop where
  least : space.extent.least = ⟨[0, 0]⟩
  greatest : space.extent.greatest = ⟨[Int64.ofNat source.width - 1, Int64.ofNat source.height - 1]⟩
  reads : ∀ x y : Value, space.peek ⟨[x, y]⟩ =
    if x < 0 ∨ y < 0 then blank else (Text.bytes (source.rows.getD y.toInt.toNat "")).getD x.toInt.toNat blank
  row : ∀ y (bound : y < source.rows.length),
    space.row (Int64.ofNat y) = Text.ofBytes ((Text.bytes source.rows[y]).rightpad source.width blank)

/-- Rows of text on a line, one after the other from the origin on. -/
structure OnLine (text : String) (space : Space) : Prop where
  least : space.extent.least = ⟨[0]⟩
  greatest : space.extent.greatest = ⟨[Int64.ofNat text.utf8ByteSize - 1]⟩
  reads : ∀ x : Value, space.peek ⟨[x]⟩ = if x < 0 then blank else (Text.bytes text).getD x.toInt.toNat blank
  row : space.row 0 = Text.ofBytes (Text.bytes text)
  plain : (∀ c ∈ text.toList, c.toNat < 128) → space.row 0 = text

private theorem ofNat_toNat {value : Value} (positive : ¬ value < 0) : Int64.ofNat value.toInt.toNat = value := by
  rw [Int64.lt_iff_toInt_lt, Int64.toInt_zero] at positive
  apply Int64.toInt_inj.mp
  have high := value.toInt_lt
  rw [Int64.toInt_ofNat_of_lt (by omega)]
  omega

private theorem held_before {row : String} (held : Source.Held (rows ++ [row])) : Source.Held rows := by
  obtain ⟨long, wide⟩ := held
  simp only [List.length_append, String.join_append, String.utf8ByteSize_append] at long wide
  exact ⟨by omega, by omega⟩

private theorem laid_dimension (plane : dialect.dimension = 2) (held : Source.Held rows) :
    (laid ⟨dialect, rows⟩).extent.dimension = 2 := by
  rw [laid_plane plane held.long fun _ => held.row]
  rfl

private theorem getD_snoc {row : String} {line column : Nat} (away : ¬ (line = rows.length ∧ column < row.utf8ByteSize)) :
    (Text.bytes ((rows ++ [row]).getD line "")).getD column blank = (Text.bytes (rows.getD line "")).getD column blank := by
  simp only [List.getD_eq_getElem?_getD]
  rcases Nat.lt_trichotomy line rows.length with before | rfl | beyond
  · rw [List.getElem?_append_left before]
  · have short : (Text.bytes row)[column]? = none := by
      rw [List.getElem?_eq_none_iff, length_bytes]
      omega
    simp only [List.getElem?_concat_length, Option.getD_some, short]
    simp
  · have past : (rows ++ [row])[line]? = none := by
      rw [List.getElem?_eq_none_iff, List.length_append, List.length_singleton]
      omega
    have also : rows[line]? = none := List.getElem?_eq_none (by omega)
    rw [past, also]

theorem laid_reads (plane : dialect.dimension = 2) (held : Source.Held rows) (x y : Value) :
    (laid ⟨dialect, rows⟩).peek ⟨[x, y]⟩ =
      if x < 0 ∨ y < 0 then blank else (Text.bytes (rows.getD y.toInt.toNat "")).getD x.toInt.toNat blank := by
  induction rows using List.reverseRecOn with
  | nil =>
    have nothing : (laid ⟨dialect, []⟩).peek ⟨[x, y]⟩ = blank := by
      simp only [laid, plane, Nat.reduceEqDiff, ↓reduceIte, List.zipIdx_nil, List.foldl_nil]
      exact Std.ExtTreeMap.getD_empty
    rw [nothing]
    split
    · rfl
    · simp
  | append_singleton rows row ih =>
    have before := held_before held
    have fits : row.utf8ByteSize < 0x8000000000000000 := held.row (by simp)
    have here : (Int64.ofNat rows.length).toInt = rows.length := Int64.toInt_ofNat_of_lt before.long
    have dimension := laid_dimension plane before
    rw [laid_snoc]
    by_cases written : OnRow (Int64.ofNat rows.length) row.utf8ByteSize ⟨[x, y]⟩
    · obtain ⟨index, less, same⟩ := written
      obtain ⟨rfl, rfl⟩ : x = Int64.ofNat index ∧ y = Int64.ofNat rows.length := by simpa using same
      have column : (Int64.ofNat index).toInt = index := Int64.toInt_ofNat_of_lt (by omega)
      have inside : ¬ (Int64.ofNat index < 0 ∨ Int64.ofNat rows.length < 0) := by
        simp only [Int64.lt_iff_toInt_lt, column, here, Int64.toInt_zero]
        omega
      have bound : index < (Text.bytes row).length := by simpa using less
      rw [if_neg inside, column, here, peek_writeRow_at dimension fits _ bound]
      simp [List.getElem?_eq_getElem bound]
    · rw [peek_writeRow_away dimension written, ih before]
      by_cases outside : x < 0 ∨ y < 0
      · rw [if_pos outside, if_pos outside]
      · rw [if_neg outside, if_neg outside]
        rw [not_or] at outside
        rw [getD_snoc]
        rintro ⟨last, less⟩
        apply written
        refine ⟨x.toInt.toNat, less, ?_⟩
        rw [ofNat_toNat outside.1, ← last, ofNat_toNat outside.2]

private theorem load_reads (plane : dialect.dimension = 2) (held : Source.Held rows) (x y : Value) :
    (load ⟨dialect, rows⟩).peek ⟨[x, y]⟩ =
      if x < 0 ∨ y < 0 then blank else (Text.bytes (rows.getD y.toInt.toNat "")).getD x.toInt.toNat blank := by
  rw [load_eq]
  exact laid_reads plane held x y

private theorem map_getD_range {bytes : List UInt8} {count : Nat} (short : bytes.length ≤ count) :
    (List.range count).map (bytes.getD · blank) = bytes.rightpad count blank := by
  apply List.ext_getElem?
  intro index
  simp only [List.rightpad, List.getElem?_map, List.getElem?_append, List.getD_eq_getElem?_getD]
  rcases Nat.lt_or_ge index count with inside | outside
  · rw [List.getElem?_range inside]
    split
    next less => simp [List.getElem?_eq_getElem less]
    next past =>
      rw [List.getElem?_replicate_of_lt (by omega)]
      simp [List.getElem?_eq_none (Nat.le_of_not_lt past)]
  · rw [List.getElem?_eq_none (by simpa using outside), if_neg (by omega), List.getElem?_eq_none (by simp; omega)]
    rfl

private theorem row_of_reads {space : Space} {y : Value} {bytes : List UInt8} {count : Nat}
    (left : space.extent.least.x = 0) (right : space.extent.greatest.x = Int64.ofNat count - 1)
    (held : count < 0x8000000000000000) (short : bytes.length ≤ count)
    (reads : ∀ index < count, space.peek (if space.dimension = 1 then ⟨[Int64.ofNat index]⟩ else ⟨[Int64.ofNat index, y]⟩) =
      bytes.getD index blank) :
    space.row y = Text.ofBytes (bytes.rightpad count blank) := by
  have across : (space.extent.greatest.x.toInt - Int64.toInt 0 + 1).toNat = count := by
    have last := Span.last_exact held
    rw [right, last, Int64.toInt_zero]
    omega
  simp only [row, left, Int64.zero_add]
  rw [across, ← map_getD_range short]
  congr 1
  apply List.map_congr_left
  intro index member
  exact reads index (List.mem_range.mp member)

theorem load_onPlane (plane : dialect.dimension = 2) (held : Source.Held rows) :
    OnPlane ⟨dialect, rows⟩ (load ⟨dialect, rows⟩) := by
  have extent : (load ⟨dialect, rows⟩).extent = _ :=
    (congrArg Space.extent (load_eq _)).trans (laid_plane plane held.long fun _ => held.row)
  have reads := load_reads plane held
  have width : Source.width ⟨dialect, rows⟩ < 0x8000000000000000 := Source.width_lt (by decide) fun _ => held.row
  refine ⟨?_, ?_, reads, ?_⟩
  · rw [extent]
    rfl
  · rw [extent]
    rfl
  · intro y bound
    have double : (load ⟨dialect, rows⟩).dimension ≠ 1 := by
      simp [dimension, extent, Extent.dimension]
    have here : (Int64.ofNat y).toInt = y := Int64.toInt_ofNat_of_lt (Nat.lt_trans bound held.long)
    apply row_of_reads
    · rw [extent]
      rfl
    · rw [extent]
      rfl
    · exact width
    · rw [length_bytes]
      exact Source.rowWidth_le_width (List.getElem_mem bound)
    · intro index less
      have column : (Int64.ofNat index).toInt = index := Int64.toInt_ofNat_of_lt (Nat.lt_trans less width)
      have inside : ¬ (Int64.ofNat index < 0 ∨ Int64.ofNat y < 0) := by
        simp only [Int64.lt_iff_toInt_lt, column, here, Int64.toInt_zero]
        omega
      rw [if_neg double, reads, if_neg inside, column, here]
      simp [List.getElem?_eq_getElem bound]

private theorem line_reads {row : String} (line : dialect.dimension = 1) (held : row.utf8ByteSize < 0x8000000000000000)
    (x : Value) :
    ((interactive dialect).writeRow 0 row).peek ⟨[x]⟩ =
      if x < 0 then blank else (Text.bytes row).getD x.toInt.toNat blank := by
  by_cases inside : ¬ x < 0 ∧ x.toInt.toNat < row.utf8ByteSize
  · have bound : x.toInt.toNat < (Text.bytes row).length := by
      rw [length_bytes]
      exact inside.2
    have reads := peek_line_at line held 0 bound
    rw [ofNat_toNat inside.1] at reads
    rw [if_neg inside.1, reads, List.getD_eq_getElem?_getD, List.getElem?_eq_getElem bound, Option.getD_some]
  · have away : ((interactive dialect).writeRow 0 row).peek ⟨[x]⟩ = blank := by
      apply peek_line_away line
      intro index less same
      obtain rfl : x = Int64.ofNat index := by simpa using same
      have column : (Int64.ofNat index).toInt = index := Int64.toInt_ofNat_of_lt (Nat.lt_trans less held)
      apply inside
      rw [Int64.lt_iff_toInt_lt, column, Int64.toInt_zero]
      exact ⟨by omega, less⟩
    rw [away]
    split
    · rfl
    next positive =>
      have past : (Text.bytes row)[x.toInt.toNat]? = none := by
        rw [List.getElem?_eq_none_iff, length_bytes]
        by_contra less
        exact inside ⟨positive, Nat.lt_of_not_le less⟩
      rw [List.getD_eq_getElem?_getD, past, Option.getD_none]

theorem load_onLine (line : dialect.dimension = 1) (held : Source.Held rows) :
    OnLine (String.join rows) (load ⟨dialect, rows⟩) := by
  have wide := held.wide
  have extent : (load ⟨dialect, rows⟩).extent = ⟨[⟨0, Int64.ofNat (String.join rows).utf8ByteSize - 1⟩]⟩ :=
    (congrArg Space.extent (load_eq _)).trans (laid_line line)
  have reads (x : Value) :
      (load ⟨dialect, rows⟩).peek ⟨[x]⟩ = if x < 0 then blank else (Text.bytes (String.join rows)).getD x.toInt.toNat blank := by
    rw [load_eq, ← line_reads line wide]
    simp only [laid, line, ↓reduceIte, peek]
  have row : (load ⟨dialect, rows⟩).row 0 = Text.ofBytes (Text.bytes (String.join rows)) := by
    have single : (load ⟨dialect, rows⟩).dimension = 1 := by
      simp [dimension, extent, Extent.dimension]
    have full : Text.bytes (String.join rows) =
        (Text.bytes (String.join rows)).rightpad (String.join rows).utf8ByteSize blank := by
      simp [List.rightpad]
    rw [full]
    apply row_of_reads
    · rw [extent]
      rfl
    · rw [extent]
      rfl
    · exact wide
    · simp
    · intro index less
      have column : (Int64.ofNat index).toInt = index := Int64.toInt_ofNat_of_lt (Nat.lt_trans less wide)
      have inside : ¬ Int64.ofNat index < 0 := by
        simp only [Int64.lt_iff_toInt_lt, column, Int64.toInt_zero]
        omega
      rw [if_pos single, reads, if_neg inside, column]
      rfl
  refine ⟨?_, ?_, reads, row, ?_⟩
  · rw [extent]
    rfl
  · rw [extent]
    rfl
  · intro ascii
    rw [row, Text.ofBytes_bytes ascii]

/-- A dialect accepts just the text that it has room for, and a torus says why it does not
accept other text. Text that is accepted and that memory can hold is loaded as a whole. On a
plane every byte stands in its row and column, on a line the rows follow one another, and
all around there are spaces. -/
theorem accepted_text_loads (dialect : Dialect) (rows : List String) :
    ((∃ source, Source.ofLines dialect rows = .ok source) ↔ Source.Acceptable dialect rows) ∧
      (∀ fault, Source.ofLines .befunge93 rows = .error fault → fault.kind = Source.rejection rows) ∧
      ∀ source, Source.ofLines dialect rows = .ok source → Source.Held rows →
        source = ⟨dialect, rows⟩ ∧ (load source).complete = true ∧
          (dialect.dimension = 2 → OnPlane source (load source)) ∧
          (dialect.dimension = 1 → OnLine (String.join rows) (load source)) := by
  refine ⟨Source.ofLines_accepted_iff dialect rows, fun _ => Source.ofLines_rejected, ?_⟩
  intro source accepted held
  obtain ⟨rfl, _⟩ := ofLines_ok accepted
  exact ⟨rfl, rfl, fun plane => load_onPlane plane held, fun line => load_onLine line held⟩

/-- A character of two bytes takes two cells, and rows below it are filled up to them. -/
theorem ragged_text_shows :
    let space := load ⟨.befunge98, [">é", "", "@"]⟩
    Source.ofLines .befunge98 [">é", "", "@"] = .ok ⟨.befunge98, [">é", "", "@"]⟩ ∧
      space.extent.greatest = ⟨[2, 2]⟩ ∧ space.row 0 = ">Ã©" ∧ space.row 2 = "@  " := by
  intro space
  have accepted : Source.ofLines .befunge98 [">é", "", "@"] = .ok ⟨.befunge98, [">é", "", "@"]⟩ := rfl
  have held : Source.Held [">é", "", "@"] := ⟨by decide, by decide +kernel⟩
  obtain ⟨_, _, loads⟩ : _ ∧ _ ∧ _ := accepted_text_loads .befunge98 [">é", "", "@"]
  have plane : OnPlane ⟨.befunge98, [">é", "", "@"]⟩ space := (loads _ accepted held).2.2.1 rfl
  refine ⟨accepted, plane.greatest, ?_, ?_⟩
  · exact (plane.row 0 (by decide)).trans (by decide +kernel)
  · exact (plane.row 2 (by decide)).trans (by decide +kernel)

end Space
end Befunge
