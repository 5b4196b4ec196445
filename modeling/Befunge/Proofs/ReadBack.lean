import Mathlib.Data.List.DropRight
import Mathlib.Data.Nat.Digits.Lemmas
import Befunge.Channel
import Befunge.Proofs.SkippedCells

/-! What is printed can be typed in again. A number is read where a line, the white space
around it aside, is a numeral that a value can hold, and nowhere else. Whoever reads it, the
machine or its channel, takes the same lines for the same numbers. Every character has a
number, and numbers that no character has are shown by a single one. -/

namespace Befunge

namespace Text

structure Trims (line text : List Char) : Prop where
  around : ∃ before after, line = before ++ text ++ after ∧ ∀ c ∈ before ++ after, isBlank c = true
  first : ∀ c ∈ text.head?, isBlank c = false
  last : ∀ c ∈ text.getLast?, isBlank c = false

private theorem dropWhile_blanks {before rest : List Char} (blank : ∀ c ∈ before, isBlank c = true)
    (first : ∀ c ∈ rest.head?, isBlank c = false) : (before ++ rest).dropWhile isBlank = rest := by
  rw [List.dropWhile_append_of_pos blank]
  cases rest with
  | nil => rfl
  | cons c rest => exact List.dropWhile_cons_of_neg (by simp [first c rfl])

theorem Trims.trimChars {line text : List Char} (trims : Trims line text) : trimChars line = text := by
  obtain ⟨⟨before, after, rfl, blank⟩, first, last⟩ := trims
  simp only [List.forall_mem_append] at blank
  cases text with
  | nil =>
    have all : ∀ c ∈ before ++ after, isBlank c = true := List.forall_mem_append.mpr blank
    rw [Text.trimChars, List.append_nil, List.dropWhile_eq_nil_iff.mpr all]
    rfl
  | cons c rest =>
    have start : (before ++ (c :: rest ++ after)).dropWhile isBlank = c :: rest ++ after := dropWhile_blanks blank.1 first
    have finish : ((c :: rest ++ after).reverse).dropWhile isBlank = (c :: rest).reverse := by
      rw [List.reverse_append]
      exact dropWhile_blanks (by simpa using blank.2) (by rwa [List.head?_reverse])
    rw [Text.trimChars, List.append_assoc, start, finish, List.reverse_reverse]

private theorem head?_dropWhile (line : List Char) : ∀ c ∈ (line.dropWhile isBlank).head?, isBlank c = false := by
  intro c some
  have first := List.head?_dropWhile_not isBlank line
  rwa [Option.mem_def.mp some] at first

theorem trims_trimChars (line : List Char) : Trims line (trimChars line) := by
  have outer := List.takeWhile_append_dropWhile (p := isBlank) (l := line)
  have first := head?_dropWhile line
  rw [trimChars]
  generalize line.dropWhile isBlank = inner at outer first
  have halves := List.takeWhile_append_dropWhile (p := isBlank) (l := inner.reverse)
  rw [← List.reverse_inj, List.reverse_append, List.reverse_reverse] at halves
  refine ⟨⟨line.takeWhile isBlank, (inner.reverse.takeWhile isBlank).reverse, ?_, ?_⟩, ?_, ?_⟩
  · rw [List.append_assoc, halves, outer]
  · simp only [List.forall_mem_append, List.mem_reverse]
    exact ⟨fun _ => List.mem_takeWhile_imp, fun _ => List.mem_takeWhile_imp⟩
  · intro c some
    apply first
    rw [← halves, List.head?_append, Option.mem_def.mp some]
    rfl
  · rw [List.getLast?_reverse]
    exact head?_dropWhile inner.reverse

end Text

namespace Value

def Digits (text : List Char) : Prop :=
  text ≠ [] ∧ ∀ digit ∈ text, digit.isDigit = true

/-- The number that digits name by their places. -/
def placed (digits : List Char) : Nat :=
  Nat.ofDigits 10 (digits.reverse.map fun digit => digit.toNat - '0'.toNat)

/-- The texts that name a number, of any size. -/
inductive Numeral : List Char → Int → Prop
  | unsigned {digits : List Char} (row : Digits digits) : Numeral digits (placed digits)
  | plus {digits : List Char} (row : Digits digits) : Numeral ('+' :: digits) (placed digits)
  | minus {digits : List Char} (row : Digits digits) : Numeral ('-' :: digits) (-placed digits)

theorem ofDigitChars_eq_placed (digits : List Char) : Nat.ofDigitChars 10 digits 0 = placed digits := by
  induction digits with
  | nil => rfl
  | cons digit digits ih =>
    rw [Nat.ofDigitChars_cons, Nat.ofDigitChars_eq_ofDigitChars_zero, ih]
    simp [placed, Nat.ofDigits_append]
    ring

theorem digitsToNat?_eq_some_iff {digits : List Char} {number : Nat} :
    digitsToNat? digits = some number ↔ Digits digits ∧ placed digits = number := by
  cases digits with
  | nil => exact iff_of_false nofun fun row => row.1.1 rfl
  | cons digit digits => simp [digitsToNat?, ofDigitChars_eq_placed, Digits]

private theorem map_digits {digits : List Char} {number : Int} {signed : Nat → Int} :
    (digitsToNat? digits).map signed = some number ↔ Digits digits ∧ signed (placed digits) = number := by
  simp [digitsToNat?_eq_some_iff]

private theorem numeralToInt?_minus (digits : List Char) :
    numeralToInt? ('-' :: digits) = (digitsToNat? digits).map fun magnitude => -Int.ofNat magnitude := by
  cases named : digitsToNat? digits <;> simp [numeralToInt?, named]

theorem numeralToInt?_eq_some_iff {text : List Char} {number : Int} : numeralToInt? text = some number ↔ Numeral text number := by
  have first {sign : Char} {digits : List Char} (row : Digits (sign :: digits)) : sign.isDigit = true :=
    row.2 sign List.mem_cons_self
  cases text using numeralToInt?.fun_cases with
  | case1 digits =>
    rw [numeralToInt?_minus, map_digits]
    constructor
    · rintro ⟨row, rfl⟩
      exact .minus row
    · intro numeral
      cases numeral with
      | unsigned row => cases first row
      | minus row => exact ⟨row, rfl⟩
  | case2 digits =>
    rw [numeralToInt?, map_digits]
    constructor
    · rintro ⟨row, rfl⟩
      exact .plus row
    · intro numeral
      cases numeral with
      | unsigned row => cases first row
      | plus row => exact ⟨row, rfl⟩
  | case3 digits negative positive =>
    rw [numeralToInt?, map_digits]
    · constructor
      · rintro ⟨row, rfl⟩
        exact .unsigned row
      · intro numeral
        cases numeral with
        | unsigned row => exact ⟨row, rfl⟩
        | plus row => exact absurd rfl (positive _)
        | minus row => exact absurd rfl (negative _)
    · exact negative
    · exact positive

theorem ofText?_eq_some_iff {text : String} {value : Value} : ofText? text = some value ↔ Numeral text.toList value.toInt := by
  rw [← numeralToInt?_eq_some_iff, ofText?]
  split
  next number named =>
    rw [named, Option.ite_none_right_eq_some, Option.some_inj, Option.some_inj, fits, decide_eq_true_eq]
    constructor
    · rintro ⟨⟨least, most⟩, rfl⟩
      exact (Int64.toInt_ofInt_of_le least (by rw [Int64.toInt_maxValue] at most; omega)).symm
    · rintro rfl
      exact ⟨⟨value.minValue_le_toInt, value.toInt_le⟩, Int64.ofInt_toInt value⟩
  next unnamed => simp [unnamed]

theorem numeral_text (value : Value) : Numeral value.text.toList value.toInt := by
  rw [text, Int.toString_eq_repr, Int.repr_eq_if]
  have digits (number : Nat) : Digits number.repr.toList ∧ placed number.repr.toList = number := by
    rw [Nat.toList_repr, ← ofDigitChars_eq_placed]
    exact ⟨⟨Nat.toDigits_ne_nil, fun digit member => Nat.isDigit_of_mem_toDigits (by decide) (by decide) member⟩, by simp⟩
  split
  next positive =>
    obtain ⟨row, named⟩ := digits value.toInt.toNat
    have numeral := Numeral.unsigned row
    rwa [named, Int.toNat_of_nonneg positive] at numeral
  next negative =>
    obtain ⟨row, named⟩ := digits (-value.toInt).toNat
    have numeral := Numeral.minus row
    rw [named, Int.toNat_of_nonneg (by omega), Int.neg_neg] at numeral
    simpa using numeral

theorem digit_unblank {c : Char} (digit : c.isDigit = true) : Text.isBlank c = false := by
  rw [Char.isDigit_iff_toNat] at digit
  rw [Bool.eq_false_iff]
  intro blank
  simp [Text.isBlank, Char.le_def, UInt32.le_iff_toNat_le, ← Char.toNat_inj] at blank digit
  omega

theorem Numeral.unblank {text : List Char} {number : Int} (numeral : Numeral text number) :
    ∀ c ∈ text, Text.isBlank c = false := by
  cases numeral with
  | unsigned row => exact fun c member => digit_unblank (row.2 c member)
  | plus row | minus row => exact List.forall_mem_cons.mpr ⟨rfl, fun c member => digit_unblank (row.2 c member)⟩

end Value

namespace Output

theorem charOf_scalar (c : Char) {value : Value} (same : value.toInt = c.toNat) : charOf value = c := by
  have valid : value.toInt.toNat.isValidChar := by
    rw [same]
    exact c.valid
  rw [charOf, if_pos ⟨by rw [Int64.le_iff_toInt_le, same]; exact Int.natCast_nonneg _, valid⟩, same]
  exact Char.ofNat_toNat c

theorem charOf_other {value : Value} (other : ∀ c : Char, value.toInt ≠ c.toNat) : charOf value = '\ufffd' := by
  rw [charOf, if_neg]
  rintro ⟨positive, valid⟩
  rw [Int64.le_iff_toInt_le, Int64.toInt_zero] at positive
  exact other (Char.ofNatAux _ valid) (Int.toNat_of_nonneg positive).symm

end Output

namespace Machine

variable {machine asking printer : Machine} {line : String}

/-- What it comes to when a text is read for a number: the number if it is a numeral that a value
can hold, and else a fault that says the text. -/
inductive Reads (text : String) : Except Fault Value → Prop
  | number {value : Value} (numeral : Value.Numeral text.toList value.toInt) : Reads text (.ok value)
  | refused (unnamed : ∀ value : Value, ¬ Value.Numeral text.toList value.toInt) :
      Reads text (.error { kind := .invalidNumber, message := text })

theorem readNumber_reads (line : String) : Reads (Text.trim line) (readNumber line) := by
  rw [readNumber]
  cases found : Value.ofText? (Text.trim line) with
  | some value => exact .number (Value.ofText?_eq_some_iff.mp found)
  | none =>
    refine .refused fun value numeral => ?_
    rw [Value.ofText?_eq_some_iff.mpr numeral] at found
    cases found

theorem readNumber_text (value : Value) : readNumber (Output.number value).text = .ok value := by
  have numeral := value.numeral_text
  have trims : Text.Trims (Output.number value).text.toList value.text.toList := by
    refine ⟨⟨[], [' '], String.toList_append, List.forall_mem_singleton.mpr rfl⟩, ?_, ?_⟩
    · exact fun c first => numeral.unblank c (List.mem_of_head? first)
    · exact fun c last => numeral.unblank c (List.mem_of_getLast? last)
  have printed : Text.trim (Output.number value).text = value.text := by
    rw [Text.trim, trims.trimChars, String.ofList_toList]
  rw [readNumber, printed, Value.ofText?_eq_some_iff.mpr numeral]

/-- Something was printed, and it took the top value off the active stack. -/
structure Printed (printer : Machine) (output : Output) (outcome : Option Event × Machine) : Prop where
  told : outcome.1 = some (.print output)
  loses : ∀ axes, printer.pile.Open axes → printer.pile.Loses outcome.2.pile

private theorem CarriesOut.printed {instruction : Instruction} {output : Value → Output}
    (emits : ∀ machine : Machine, machine.carryOut instruction = (.emit (output machine.pop.1), machine.pop.2))
    (carries : printer.CarriesOut instruction) :
    printer.Printed (output (printer.pile.toss.toList.getLastD 0)) printer.cycle := by
  obtain ⟨tracing, same⟩ := carries.cycle
  rw [same, emits, ← printer.pile.pop_value]
  exact ⟨rfl, fun _ opened => opened.pop_loses⟩

/-- What is printed is the top of the active stack, which goes, and what is read becomes its top. A
printed number is read back as that number, and a character that is typed in is printed again
under its number. No other number prints a character but the replacement character. Whatever is
typed for a number, the machine and a channel that reads numbers as channels do come to the same:
the number that the line names without the blanks around it, or the same fault, for which the
machine keeps asking. -/
theorem printed_reads_back :
    (∀ printer : Machine, printer.CarriesOut .printNumber →
      printer.Printed (.number (printer.pile.toss.toList.getLastD 0)) printer.cycle) ∧
    (∀ (asking : Machine) (value : Value), asking.status = .awaiting .number →
      asking.Answered value (asking.enter (Output.number value).text)) ∧
    (∀ (asking : Machine) (c : Char) (rest : String), asking.status = .awaiting .char →
      (Int64.ofNat c.toNat).toInt = c.toNat ∧
        asking.Answered (Int64.ofNat c.toNat) (asking.enterChar c) ∧
        asking.enter (String.singleton c ++ rest) = asking.enterChar c) ∧
    (∀ printer : Machine, printer.CarriesOut .printChar →
      ∃ c, printer.Printed (.char c) printer.cycle ∧ (Output.char c).text = String.singleton c ∧
        (∀ scalar : Char, (printer.pile.toss.toList.getLastD 0).toInt = scalar.toNat → c = scalar) ∧
        ((∀ scalar : Char, (printer.pile.toss.toList.getLastD 0).toInt ≠ scalar.toNat) → c = '\ufffd')) ∧
    ∀ line : String, ∃ text result, Text.Trims line.toList text.toList ∧ Reads text result ∧
      (∀ asking : Machine, asking.status = .awaiting .number →
        (∀ value, result = .ok value → asking.Answered value (asking.enter line)) ∧
        (∀ fault, result = .error fault → asking.enter line = { asking with faults := asking.faults ++ [fault] })) ∧
      ∀ {σ : Type} (readLine : Channel.Use σ String) (writeText : String → Channel.Use σ Unit)
        (writeChar : Char → Channel.Use σ Unit) (writeTrace : Trace → Channel.Use σ Unit) (channel left : σ),
        readLine channel = (.ok line, left) →
          @Channel.readNumber σ { readLine, writeText, writeChar, writeTrace } channel = (result, left) := by
  refine ⟨fun _ carries => carries.printed fun _ => rfl, ?_, ?_, ?_, ?_⟩
  · intro asking value asked
    simp only [enter, asked, readNumber_text, enterNumber, ↓reduceIte]
    exact asking.resume_answered value
  · intro asking c rest asked
    have small : c.toNat < 0x100000000 := c.val.toNat_lt
    refine ⟨Int64.toInt_ofNat_of_lt (by omega), ?_, ?_⟩
    · rw [enterChar, if_pos asked]
      exact asking.resume_answered _
    · simp only [enter, asked, String.toList_append, String.toList_singleton, List.singleton_append]
  · intro printer carries
    have printed := @CarriesOut.printed printer _ (.char ∘ Output.charOf) (fun _ => rfl) carries
    exact ⟨_, printed, rfl, fun scalar same => Output.charOf_scalar scalar same, Output.charOf_other⟩
  · intro line
    refine ⟨Text.trim line, readNumber line, ?_, readNumber_reads line, ?_, ?_⟩
    · rw [Text.trim, String.toList_ofList]
      exact Text.trims_trimChars _
    · intro asking asked
      constructor
      · intro value read
        simp only [enter, asked, read, enterNumber, ↓reduceIte]
        exact asking.resume_answered value
      · intro fault refused
        simp only [enter, asked, refused]
    · intro σ readLine writeText writeChar writeTrace channel left taken
      simp only [Channel.readNumber, taken]

/-- The least value is printed and read back, and so is a character beyond the first plane. A buffer
refuses a second sign. -/
theorem least_value_reads_back :
    let asking := (ofSource ⟨.befunge98, ["&.@"]⟩ (Dice.ofSeed 0)).after [.execute 1]
    let printer := asking.after [.enterNumber Int64.minValue, .execute 1]
    let listening := (ofSource ⟨.befunge98, ["~,@"]⟩ (Dice.ofSeed 0)).after [.execute 1]
    let speaker := listening.after [.enter "😀!", .execute 1]
    printer.cycle.1 = some (.print (.number Int64.minValue)) ∧ printer.cycle.2.pile.toss.toList = [] ∧
      (asking.enter (Output.number Int64.minValue).text).pile.toss.toList = [Int64.minValue] ∧
      (listening.enter "😀!").pile.toss.toList = [0x1f600] ∧
      speaker.cycle.1 = some (.print (.char '😀')) ∧
      Channel.readNumber (⟨[" +-7"], ""⟩ : Buffer) =
        (.error { kind := .invalidNumber, message := "+-7" }, ⟨[], ""⟩) := by
  intro asking printer listening speaker
  obtain ⟨prints, reads, listens, speaks, lines⟩ := printed_reads_back
  have single : asking.pile.Open 2 := ⟨_, _, StackStack.initial_shows 2 _⟩
  have also : listening.pile.Open 2 := ⟨_, _, StackStack.initial_shows 2 _⟩
  have least : printer.pile.toss.toList = [Int64.minValue] := by decide +kernel
  obtain ⟨told, loses⟩ := prints printer ⟨by decide +kernel, by decide +kernel, by decide +kernel⟩
  refine ⟨?_, ?_, ?_, ?_, ?_, ?_⟩
  · rw [told, least]
    rfl
  · rw [(loses 2 (single.setToss _)).active, least]
    rfl
  · rw [((reads asking _ (by decide +kernel)).gains 2 single).active]
    decide +kernel
  · obtain ⟨-, entered, same⟩ := listens listening '😀' "!" (by decide +kernel)
    have gained := (entered.gains 2 also).active
    rw [← same] at gained
    exact gained.trans (by decide +kernel)
  · have face : (speaker.pile.toss.toList.getLastD 0).toInt = '😀'.toNat := by decide +kernel
    obtain ⟨c, printed, -, scalar, -⟩ := speaks speaker ⟨by decide +kernel, by decide +kernel, by decide +kernel⟩
    rw [printed.told, scalar '😀' face]
  · obtain ⟨text, result, trims, found, -, channels⟩ := lines " +-7"
    have read := channels Buffer.readLine Buffer.writeText Buffer.writeChar
      (fun trace => Buffer.writeText (trace.text ++ "\n")) ⟨[" +-7"], ""⟩ ⟨[], ""⟩ rfl
    have trimmed : text = "+-7" := String.toList_inj.mp (trims.trimChars.symm.trans (by decide))
    subst trimmed
    cases found with
    | number numeral => cases Value.numeralToInt?_eq_some_iff.mpr numeral
    | refused => exact read

end Machine
end Befunge
