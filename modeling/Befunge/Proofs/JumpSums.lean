import Mathlib.Data.Int.ModEq
import Befunge.Proofs.WalkedSteps

/-! Jumps add up. A jump makes its moves at once, forward or backward, and both are counted on
the same cycle of places: the line of a growing space, or each axis of a torus on its own. -/

namespace Befunge

namespace Span

variable {span : Span} {value stride : Value}

/-- So many strides round the span, in exact integers. A negative count goes backward. -/
def shift (span : Span) (value stride : Value) (count : Int) : Value :=
  Int64.ofInt ((value.toInt - span.low.toInt + count * stride.toInt) % span.size + span.low.toInt)

theorem carry_eq_shift (value stride : Value) (count : Nat) : span.carry value stride count = span.shift value stride count := by
  simp only [carry, shift]
  congr 2
  rw [Int.add_emod, Int.mul_emod, Int.emod_emod, ← Int.mul_emod, ← Int.add_emod]

theorem shift_neg (other : stride ≠ Int64.minValue) (value : Value) (count : Int) :
    span.shift value (-stride) count = span.shift value stride (-count) := by
  have turned : (-stride).toInt = -stride.toInt := by
    refine (Span.neg_exact stride).resolve_right fun least => other ?_
    exact Int64.toInt_inj.mp least.1
  rw [shift, shift, turned, Int.mul_neg, Int.neg_mul]

section Sized

variable (sized : span.size ≠ 0) (proper : span.low.toInt ≤ span.high.toInt)
include sized proper

theorem shift_shift (value stride : Value) (first second : Int) :
    span.shift (span.shift value stride first) stride second = span.shift value stride (first + second) := by
  have size := size_exact sized proper
  have low := span.low.le_toInt
  have high := span.high.toInt_lt
  have least := Int.emod_nonneg (value.toInt - span.low.toInt + first * stride.toInt) (by omega : (span.size : Int) ≠ 0)
  have less := Int.emod_lt_of_pos (value.toInt - span.low.toInt + first * stride.toInt) (by omega : 0 < (span.size : Int))
  have exact : (span.shift value stride first).toInt = _ := Int64.toInt_ofInt_of_le (by omega) (by omega)
  rw [shift, exact, shift, Int.add_sub_cancel, Int.emod_add_emod, Int.add_mul, Int.add_assoc]

theorem shift_still (inside : span.contains value = true) {count : Int} (still : count * stride.toInt = 0) :
    span.shift value stride count = value := by
  have size := size_exact sized proper
  obtain ⟨least, greatest⟩ := contains_iff.mp inside
  rw [shift, still, Int.add_zero, Int.emod_eq_of_lt (by omega) (by omega), Int.sub_add_cancel, Int64.ofInt_toInt]

end Sized
end Span

namespace Extent

variable {extent : Extent} {place stride : Vec}

def shift (extent : Extent) (place stride : Vec) (count : Int) : Vec :=
  ⟨List.zipWith (fun span (c, d) => span.shift c d count) extent.spans (place.components.zip stride.components)⟩

theorem shift_neg (other : ∀ d ∈ stride.components, d ≠ Int64.minValue) (count : Int) :
    extent.shift place (-stride) count = extent.shift place stride (-count) := by
  apply congrArg Vec.mk
  apply List.ext_getElem
  · simp
  · intro axis _ _
    simp [Span.shift_neg (other _ (List.getElem_mem _))]

theorem carry_eq_shift (same : place.dimension = extent.dimension) (axes : stride.dimension = place.dimension) (count : Nat) :
    extent.carry place stride count = extent.shift place stride count := by
  have none : place.components.drop extent.dimension = [] := List.drop_eq_nil_of_le (Nat.le_of_eq same)
  simp only [carry, shift, none, List.append_nil, Vec.onAxes_self axes, Span.carry_eq_shift]

section Sized

variable (sized : extent.isEmpty = false)
include sized

theorem shift_shift (proper : extent.Proper) (place stride : Vec) (first second : Int) :
    extent.shift (extent.shift place stride first) stride second = extent.shift place stride (first + second) := by
  apply congrArg Vec.mk
  apply List.ext_getElem
  · simp [shift]
  · intro axis _ _
    simp [shift, Span.shift_shift (isEmpty_iff.mp sized _ (List.getElem_mem _)) (proper _ (List.getElem_mem _))]

theorem shift_still (inside : extent.contains place = true) (axes : stride.dimension = place.dimension) {count : Int}
    (still : ∀ d ∈ stride.components, count * d.toInt = 0) : extent.shift place stride count = place := by
  have same : place.components.length = extent.spans.length := dimension_of_contains inside
  have long : stride.components.length = place.components.length := axes
  have proper := proper_of_contains inside
  apply congrArg Vec.mk
  apply List.ext_getElem
  · simp [same, long]
  · intro axis _ bound
    have here := (contains_iff.mp inside).get (same ▸ bound) bound
    simp only [List.get_eq_getElem] at here
    simp only [List.getElem_zipWith, List.getElem_zip]
    exact Span.shift_still (isEmpty_iff.mp sized _ (List.getElem_mem _)) (proper _ (List.getElem_mem _)) here
      (still _ (List.getElem_mem _))

end Sized
end Extent

namespace Space

variable {space : Space} {place stride : Vec}

/-- So many moves from a place at once, in exact integers. A negative count goes backward. -/
def shift (space : Space) (stride : Vec) (count : Int) (place : Vec) : Vec :=
  if space.dialect.isTorus then space.extent.shift place stride count
  else
    match space.extent.strides? place stride with
    | some (back, ahead) => place.along stride ((back + count) % (back + ahead + 1) - back)
    | none => place

namespace Lahey

private theorem backward (back ahead : Nat) (count : Int) :
    -((ahead + count) % (ahead + back + 1) - ahead) = (back + -count) % (back + ahead + 1) - back := by
  have least := Int.emod_nonneg (ahead + count) (by omega : (ahead + back + 1 : Int) ≠ 0)
  have less := Int.emod_lt_of_pos (ahead + count) (by omega : (0 : Int) < ahead + back + 1)
  have whole : (ahead + back + 1 : Int) ∣ ahead + count - (ahead + count) % (ahead + back + 1) := Int.dvd_self_sub_emod
  generalize (ahead + count) % (ahead + back + 1 : Int) = index at least less whole ⊢
  have turned : (back + -count : Int) % (back + ahead + 1) = back + ahead - index := by
    rw [Int.emod_eq_iff (by omega)]
    refine ⟨by omega, by omega, ?_⟩
    convert whole using 1 <;> omega
  omega

variable {back ahead : Nat} (lahey : space.Lahey place stride)
  (counted : space.extent.strides? place stride = some (back, ahead))
include lahey counted

theorem shift_eq (count : Int) :
    space.shift stride count place = place.along stride ((back + count) % (back + ahead + 1) - back) := by
  simp only [shift, lahey.growing, counted, Bool.false_eq_true, ↓reduceIte]

theorem walk_eq_shift (count : Nat) : space.walk stride count place = space.shift stride count place := by
  rw [lahey.walk_eq counted, lahey.shift_eq counted]
  simp

theorem shift_neg (count : Int) : space.shift (-stride) count place = space.shift stride (-count) place := by
  rw [lahey.reversed.shift_eq (lahey.counted_neg counted), Vec.along_neg lahey.axes, lahey.shift_eq counted, backward]

theorem shift_shift (first second : Int) :
    space.shift stride second (space.shift stride first place) = space.shift stride (first + second) place := by
  have positive : (0 : Int) < back + ahead + 1 := by omega
  have least := Int.emod_nonneg (back + first) (Int.ne_of_gt positive)
  have less := Int.emod_lt_of_pos (back + first) positive
  generalize index : (back + first) % (back + ahead + 1 : Int) = reached at least less
  have there := lahey.along ((lahey.counted_iff.mp counted (reached - back)).mpr (by omega))
  have recounted : space.extent.strides? (place.along stride (reached - back)) stride =
      some ((back + (reached - back)).toNat, (ahead - (reached - back)).toNat) :=
    lahey.counted_along counted (by omega) (by omega)
  have total : (back + (first + second) : Int) % (back + ahead + 1) = (reached + second) % (back + ahead + 1) := by
    rw [← index, Int.emod_add_emod]
    congr 1
    omega
  have behind : (back + (reached - back) : Int) = reached := by omega
  have before : (reached + (ahead - (reached - back)) + 1 : Int) = back + ahead + 1 := by omega
  rw [lahey.shift_eq counted first, index, there.shift_eq recounted, Vec.along_along, lahey.shift_eq counted, total,
    Int.toNat_of_nonneg (by omega), Int.toNat_of_nonneg (by omega), behind, before]
  congr 1
  omega

end Lahey

theorem Steady.walk_eq_shift (steady : space.Steady place stride) (count : Nat) :
    space.walk stride count place = space.shift stride count place := by
  cases torus : space.dialect.isTorus with
  | true =>
    have still : (∀ d ∈ stride.components, (count : Int) * d.toInt = 0) → place = space.extent.shift place stride count :=
      fun still => (Extent.shift_still steady.sized steady.inside steady.axes still).symm
    have carried := Extent.carry_eq_shift (Extent.dimension_of_contains steady.inside) steady.axes count
    simp only [shift, torus, ↓reduceIte]
    cases count with
    | zero => exact still (by simp)
    | succ count =>
      simp only [Space.walk, steady.sized, torus, Bool.false_eq_true, ↓reduceIte]
      split
      next none =>
        apply still
        intro d member
        have zero : d = 0 := by simpa using List.all_eq_true.mp none d member
        rw [zero, Int64.toInt_zero, Int.mul_zero]
      next => exact carried
  | false =>
    cases moving : stride.isZero with
    | true =>
      have uncounted : space.extent.strides? place stride = none := by simp [Extent.strides?, moving]
      simp only [shift, torus, uncounted, Bool.false_eq_true, ↓reduceIte]
      cases count with
      | zero => rfl
      | succ count => simp only [Space.walk, moving, ↓reduceIte]
    | false =>
      have lahey : space.Lahey place stride := ⟨steady, torus, moving⟩
      obtain ⟨back, ahead, counted⟩ := lahey.counted
      exact lahey.walk_eq_shift counted count

/-- The stride turned around leads backward, on a torus unless negation leaves an axis as it is. -/
theorem Steady.shift_neg (steady : space.Steady place stride)
    (turns : space.dialect.isTorus = true → ∀ d ∈ stride.components, d ≠ Int64.minValue) (count : Int) :
    space.shift (-stride) count place = space.shift stride (-count) place := by
  cases torus : space.dialect.isTorus with
  | true =>
    simp only [shift, torus, ↓reduceIte]
    exact Extent.shift_neg (turns torus) count
  | false =>
    cases moving : stride.isZero with
    | true =>
      have uncounted (d : Vec) (none : d.isZero = true) : space.extent.strides? place d = Option.none := by
        simp [Extent.strides?, none]
      simp only [shift, torus, uncounted stride moving, uncounted (-stride) (by rw [Vec.isZero_neg, moving]),
        Bool.false_eq_true, ↓reduceIte]
    | false =>
      have lahey : space.Lahey place stride := ⟨steady, torus, moving⟩
      obtain ⟨back, ahead, counted⟩ := lahey.counted
      exact lahey.shift_neg counted count

theorem Steady.shift_shift (steady : space.Steady place stride) (first second : Int) :
    space.shift stride second (space.shift stride first place) = space.shift stride (first + second) place := by
  cases torus : space.dialect.isTorus with
  | true =>
    simp only [shift, torus, ↓reduceIte]
    exact Extent.shift_shift steady.sized (Extent.proper_of_contains steady.inside) place stride first second
  | false =>
    cases moving : stride.isZero with
    | true =>
      have uncounted : space.extent.strides? place stride = none := by simp [Extent.strides?, moving]
      simp only [shift, torus, uncounted, Bool.false_eq_true, ↓reduceIte]
    | false =>
      have lahey : space.Lahey place stride := ⟨steady, torus, moving⟩
      obtain ⟨back, ahead, counted⟩ := lahey.counted
      exact lahey.shift_shift counted first second

end Space

namespace Cursor

variable {space : Space} {cursor : Cursor}

theorem Steady.jump_eq (steady : cursor.Steady space)
    (turns : space.dialect.isTorus = true → ∀ d ∈ cursor.delta.components, d ≠ Int64.minValue) (count : Value) :
    cursor.jump count space = { cursor with position := space.shift cursor.delta count.toInt cursor.position } := by
  simp only [Cursor.jump, Int64.lt_iff_toInt_lt, Int64.toInt_zero, Value.magnitude]
  congr 1
  split
  next negative =>
    have turned : Space.Steady space cursor.position (-cursor.delta) :=
      ⟨steady.sized, steady.inside, by rw [Vec.dimension_neg, steady.axes]⟩
    rw [turned.walk_eq_shift, Space.Steady.shift_neg steady turns]
    congr 1
    omega
  next =>
    rw [Space.Steady.walk_eq_shift steady]
    congr 1
    omega

theorem Steady.jump_one (steady : cursor.Steady space) (growing : space.dialect.isTorus = false) :
    cursor.jump 1 space = cursor.advance space := by
  refine congrArg (fun position => { cursor with position }) ?_
  show space.walk cursor.delta 1 cursor.position = space.step cursor.position cursor.delta
  cases moving : cursor.delta.isZero with
  | true =>
    rw [Space.Steady.step_still steady moving]
    simp only [Space.walk, moving, ↓reduceIte]
  | false => exact Space.walk_growing growing moving steady.axes 1

/-- Jumping twice is jumping once by the sum, as long as a value holds the sum. So a jump by
zero leads nowhere, and every jump is undone by the opposite one. On a torus no part of the
delta may be the least value, which has no opposite. In a growing space a jump by one is a
move, so that every jump is made up of moves. -/
theorem jumps_add_up (sized : space.isEmpty = false) (inside : space.contains cursor.position = true)
    (axes : cursor.delta.dimension = space.dimension)
    (turns : space.dialect = .befunge93 → ∀ d ∈ cursor.delta.components, d ≠ Int64.minValue) :
    (∀ first second : Value, Int64.minValue.toInt ≤ first.toInt + second.toInt →
      first.toInt + second.toInt ≤ Int64.maxValue.toInt →
        (cursor.jump first space).jump second space = cursor.jump (first + second) space) ∧
    cursor.jump 0 space = cursor ∧
    (∀ count : Value, count ≠ Int64.minValue → (cursor.jump count space).jump (-count) space = cursor) ∧
    (space.dialect.isFunge98 = true → cursor.jump 1 space = cursor.advance space) := by
  have steady : cursor.Steady space := ⟨sized, inside, axes.trans (Extent.dimension_of_contains inside).symm⟩
  have onTorus (torus : space.dialect.isTorus = true) : ∀ d ∈ cursor.delta.components, d ≠ Int64.minValue :=
    turns (Dialect.eq_befunge93 torus)
  have sums (first second : Value) (least : Int64.minValue.toInt ≤ first.toInt + second.toInt)
      (greatest : first.toInt + second.toInt ≤ Int64.maxValue.toInt) :
      (cursor.jump first space).jump second space = cursor.jump (first + second) space := by
    have landed : space.contains (cursor.jump first space).position = true := Steady.jump first steady
    have there : (cursor.jump first space).Steady space :=
      ⟨sized, landed, axes.trans (Extent.dimension_of_contains landed).symm⟩
    have exact : (first + second).toInt = first.toInt + second.toInt := by
      simp only [Int64.toInt_minValue, Int64.toInt_maxValue] at least greatest
      rw [Int64.toInt_add, Int.bmod_eq_of_le (by omega) (by omega)]
    rw [there.jump_eq onTorus, steady.jump_eq onTorus (first + second), steady.jump_eq onTorus first, exact,
      ← Space.Steady.shift_shift steady]
  have none : cursor.jump 0 space = cursor := rfl
  refine ⟨sums, none, ?_, ?_⟩
  · intro count other
    have opposite : (-count).toInt = -count.toInt :=
      (Span.neg_exact count).resolve_right fun turned => other (Int64.toInt_inj.mp turned.1)
    have level : count.toInt + (-count).toInt = 0 := by rw [opposite, Int.add_right_neg]
    rw [sums count (-count) (level ▸ by decide) (level ▸ by decide), Int64.add_right_neg, none]
  · intro growing
    exact steady.jump_one (Dialect.isTorus_of_isFunge98 growing)

/-- Jumps over the whole range of values on a knight's line of four cells come to one move back,
and a jump round a torus is undone. -/
theorem longest_jumps_add_up :
    let board := Space.load ⟨.befunge98, ["abcdefgh", "i", "j", "k"]⟩
    let knight : Cursor := ⟨⟨[3, 1]⟩, ⟨[2, 1]⟩, false, Vec.zero 2⟩
    let torus := Space.load ⟨.befunge93, ["abc", "def"]⟩
    let slanted : Cursor := ⟨⟨[2, 0]⟩, ⟨[-5, 7]⟩, false, Vec.zero 2⟩
    ((knight.jump Int64.maxValue board).jump Int64.minValue board).position = ⟨[1, 0]⟩ ∧
      (slanted.jump Int64.maxValue torus).jump (-Int64.maxValue) torus = slanted := by
  intro board knight torus slanted
  constructor
  · obtain ⟨sums, _⟩ : _ ∧ _ :=
      @jumps_add_up board knight (by decide +kernel) (by decide +kernel) (by decide +kernel) nofun
    rw [sums Int64.maxValue Int64.minValue (by decide) (by decide)]
    decide +kernel
  · have turns : ∀ d ∈ slanted.delta.components, d ≠ Int64.minValue := by
      simp only [slanted, List.forall_mem_cons]
      exact ⟨by decide, by decide, nofun⟩
    obtain ⟨_, _, undone, _⟩ : _ ∧ _ ∧ _ ∧ _ :=
      @jumps_add_up torus slanted (by decide +kernel) (by decide +kernel) (by decide +kernel) (fun _ => turns)
    exact undone Int64.maxValue (by decide)

end Cursor
end Befunge
