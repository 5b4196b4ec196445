import Befunge.Source

/-! Rows of text and what ends them. A text is split at its breaks, whichever way each of
them is written, and every other character stays in its row. So rows that are written with
breaks are found again, and every text is some rows with breaks and what follows the last. -/

namespace Befunge

namespace Text

/-- What ends a row of text: a line feed, alone or after a carriage return. -/
inductive RowBreak where
  | feed
  | returnFeed
  deriving DecidableEq

namespace RowBreak

def text : RowBreak → String
  | .feed => "\n"
  | .returnFeed => "\r\n"

/-- Whether the break ends the row just where the row stops. The row has no line feed of its
own, and no carriage return at its end that would fall to a line feed. A row without either
goes with both breaks. -/
def Ends (ending : RowBreak) (row : String) : Prop :=
  '\n' ∉ row.toList ∧ (ending = .feed → row.toList.getLast? ≠ some '\r')

instance (ending : RowBreak) (row : String) : Decidable (ending.Ends row) :=
  inferInstanceAs (Decidable (_ ∧ _))

theorem Ends.cons {ending : RowBreak} {row : String} {c : Char} (ends : ending.Ends row) (other : c ≠ '\n')
    (apart : ¬ (c = '\r' ∧ row = "" ∧ ending = .feed)) : ending.Ends (String.ofList (c :: row.toList)) := by
  obtain ⟨unbroken, whole⟩ := ends
  rw [Ends, String.toList_ofList, List.mem_cons, not_or]
  refine ⟨⟨Ne.symm other, unbroken⟩, ?_⟩
  intro alone last
  rw [List.getLast?_cons, Option.some.injEq] at last
  cases before : row.toList.getLast? with
  | none =>
    rw [before] at last
    have empty : row = "" := String.toList_eq_nil_iff.mp (List.getLast?_eq_none_iff.mp before)
    exact apart ⟨last, empty, alone⟩
  | some final =>
    rw [before] at last
    apply whole alone
    rw [before]
    exact congrArg some last

end RowBreak

/-- The text of rows, each of them followed by its break. -/
def withBreaks (rows : List (String × RowBreak)) : String :=
  String.join (rows.map fun (row, ending) => row ++ ending.text)

def extendFirst (row : List Char) : List (List Char) → List (List Char)
  | [] => if row = [] then [] else [row]
  | first :: rest => (row ++ first) :: rest

variable {row rest : List Char}

@[simp] theorem extendFirst_nil (rows : List (List Char)) : extendFirst [] rows = rows := by
  cases rows <;> rfl

theorem extendFirst_cons (c : Char) (row : List Char) (rows : List (List Char)) :
    extendFirst (c :: row) rows = extendFirst [c] (extendFirst row rows) := by
  cases rows with
  | nil => cases row <;> rfl
  | cons first rest => rfl

private theorem splitRows_cons {c : Char} (other : c ≠ '\n') (apart : c = '\r' → rest.head? ≠ some '\n') :
    splitRows (c :: rest) = extendFirst [c] (splitRows rest) := by
  rw [splitRows.eq_4 c rest other]
  · cases splitRows rest <;> rfl
  · rintro more rfl rfl
    exact apart rfl rfl

theorem splitRows_append (unbroken : '\n' ∉ row) (apart : row.getLast? = some '\r' → rest.head? ≠ some '\n') :
    splitRows (row ++ rest) = extendFirst row (splitRows rest) := by
  induction row with
  | nil => rw [List.nil_append, extendFirst_nil]
  | cons c row ih =>
    rw [List.mem_cons, not_or] at unbroken
    have later : row.getLast? = some '\r' → rest.head? ≠ some '\n' := by
      intro last
      apply apart
      rw [List.getLast?_cons, last, Option.getD_some]
    have here : c = '\r' → (row ++ rest).head? ≠ some '\n' := by
      rintro rfl
      cases row with
      | nil => exact apart rfl
      | cons next row =>
        intro same
        obtain rfl : next = '\n' := by simpa using same
        exact unbroken.2 List.mem_cons_self
    rw [List.cons_append, splitRows_cons (Ne.symm unbroken.1) here, ih unbroken.2 later]
    exact (extendFirst_cons c row _).symm

theorem lines_row {row : String} {ending : RowBreak} (ends : ending.Ends row) (rest : String) :
    lines (row ++ (ending.text ++ rest)) = row :: lines rest := by
  obtain ⟨unbroken, whole⟩ := ends
  have apart : row.toList.getLast? = some '\r' → (ending.text.toList ++ rest.toList).head? ≠ some '\n' := by
    intro last
    cases ending with
    | feed => exact absurd last (whole rfl)
    | returnFeed => simp [RowBreak.text]
  have broken : splitRows (ending.text.toList ++ rest.toList) = [] :: splitRows rest.toList := by
    cases ending <;> rfl
  have split : splitRows (row.toList ++ (ending.text.toList ++ rest.toList)) = row.toList :: splitRows rest.toList := by
    rw [splitRows_append unbroken apart, broken, extendFirst, List.append_nil]
  rw [lines, String.toList_append, String.toList_append, split, List.map_cons, String.ofList_toList, lines]

theorem lines_last {last : String} (unbroken : '\n' ∉ last.toList) : lines last = if last = "" then [] else [last] := by
  have split : splitRows last.toList = extendFirst last.toList [] := by
    have appended : splitRows (last.toList ++ []) = _ := splitRows_append unbroken (by simp)
    rwa [List.append_nil] at appended
  rw [lines, split, extendFirst]
  simp only [String.toList_eq_nil_iff]
  split
  next => rfl
  next => rw [List.map_singleton, String.ofList_toList]

private theorem withBreaks_cons (row : String) (ending : RowBreak) (rows : List (String × RowBreak)) :
    withBreaks ((row, ending) :: rows) = row ++ (ending.text ++ withBreaks rows) := by
  rw [withBreaks, List.map_cons, String.join_cons, String.append_assoc]
  rfl

theorem lines_withBreaks {rows : List (String × RowBreak)} {last : String} (ends : ∀ row ∈ rows, row.2.Ends row.1)
    (unbroken : '\n' ∉ last.toList) :
    lines (withBreaks rows ++ last) = rows.map Prod.fst ++ if last = "" then [] else [last] := by
  induction rows with
  | nil =>
    rw [← lines_last unbroken]
    exact congrArg lines (String.empty_append)
  | cons first rows ih =>
    rw [List.forall_mem_cons] at ends
    obtain ⟨row, ending⟩ := first
    rw [withBreaks_cons, String.append_assoc, String.append_assoc, lines_row ends.1, ih ends.2]
    rfl

/-- Each text is rows with breaks and a rest without one. -/
theorem exists_withBreaks (text : String) :
    ∃ rows last, (∀ row ∈ rows, row.2.Ends row.1) ∧ '\n' ∉ last.toList ∧ withBreaks rows ++ last = text := by
  suffices split : ∀ characters : List Char, ∃ rows last,
      (∀ row ∈ rows, row.2.Ends row.1) ∧ '\n' ∉ last.toList ∧ (withBreaks rows ++ last).toList = characters by
    obtain ⟨rows, last, ends, unbroken, same⟩ := split text.toList
    exact ⟨rows, last, ends, unbroken, String.toList_inj.mp same⟩
  intro characters
  induction characters with
  | nil => exact ⟨[], "", by simp, by simp, rfl⟩
  | cons c rest ih =>
    obtain ⟨rows, last, ends, unbroken, rfl⟩ := ih
    by_cases feed : c = '\n'
    · refine ⟨("", .feed) :: rows, last, List.forall_mem_cons.mpr ⟨by decide, ends⟩, unbroken, ?_⟩
      rw [feed, withBreaks_cons, String.append_assoc]
      simp [RowBreak.text]
    · cases rows with
      | nil =>
        refine ⟨[], String.ofList (c :: last.toList), ends, ?_, by simp [withBreaks]⟩
        rw [String.toList_ofList, List.mem_cons, not_or]
        exact ⟨Ne.symm feed, unbroken⟩
      | cons first rows =>
        obtain ⟨row, ending⟩ := first
        rw [List.forall_mem_cons] at ends
        -- Before a line feed that is a break a carriage return becomes part of the break.
        by_cases half : c = '\r' ∧ row = "" ∧ ending = .feed
        · obtain ⟨rfl, rfl, rfl⟩ := half
          refine ⟨("", .returnFeed) :: rows, last, List.forall_mem_cons.mpr ⟨by decide, ends.2⟩, unbroken, ?_⟩
          rw [withBreaks_cons, withBreaks_cons]
          simp [RowBreak.text]
        · refine ⟨(String.ofList (c :: row.toList), ending) :: rows, last, ?_, unbroken, ?_⟩
          · exact List.forall_mem_cons.mpr ⟨ends.1.cons feed half, ends.2⟩
          · rw [withBreaks_cons, withBreaks_cons]
            simp

end Text

namespace Source

/-- Rows that are written with breaks split back into the same rows, so that a dialect makes of
the text what it makes of the rows. What follows the last break is a row of its own unless it is
empty. Every text is of this form, so no carriage return but that of a break is lost. -/
theorem rows_split_back (dialect : Dialect) :
    (∀ (rows : List (String × Text.RowBreak)) (last : String), (∀ row ∈ rows, row.2.Ends row.1) → '\n' ∉ last.toList →
      ofText dialect (Text.withBreaks rows) = ofLines dialect (rows.map Prod.fst) ∧
      ofText dialect (Text.withBreaks rows ++ last) =
        ofLines dialect (rows.map Prod.fst ++ if last = "" then [] else [last])) ∧
    ∀ text, ∃ (rows : List (String × Text.RowBreak)) (last : String),
      (∀ row ∈ rows, row.2.Ends row.1) ∧ '\n' ∉ last.toList ∧ Text.withBreaks rows ++ last = text := by
  refine ⟨?_, Text.exists_withBreaks⟩
  intro rows last ends unbroken
  constructor
  · have ended : Text.lines (Text.withBreaks rows ++ "") = _ := Text.lines_withBreaks ends (by simp)
    rw [String.append_empty, if_pos rfl, List.append_nil] at ended
    rw [ofText, ended]
  · rw [ofText, Text.lines_withBreaks ends unbroken]

/-- Both breaks in one text, around rows that have carriage returns at either end. A torus tells
of the empty row among them. -/
theorem mixed_breaks_split :
    ofText .befunge98 "a\rb\n\r\nc\r\r\n\rd\r" = .ok ⟨.befunge98, ["a\rb", "", "c\r", "\rd\r"]⟩ ∧
      ofText .befunge93 "a\rb\n\r\nc\r\r\n\rd\r" = .error { kind := .emptySource, message := "row 2 is empty" } := by
  have ends : ∀ row ∈ [("a\rb", Text.RowBreak.feed), ("", .returnFeed), ("c\r", .returnFeed)], row.2.Ends row.1 := by
    decide
  have split (dialect : Dialect) := ((rows_split_back dialect).1 _ "\rd\r" ends (by decide)).2
  constructor
  · exact split .befunge98
  · exact (split .befunge93).trans rfl

end Source
end Befunge
