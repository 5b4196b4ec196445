import Mathlib.Data.Int.ModEq
import Befunge.Proofs.BuiltSpaces

/-! Reads outside the extent. A read goes round each axis to a cell inside. How far the place
lies from the least corner is a difference of words. Where it is too great for a word, the cell
is the right one only on an axis whose size divides the number of words. -/

namespace Befunge

namespace Span

variable {span : Span} {value other : Value}

theorem proper_of_low (low : span.low.toInt ≤ 0) (sized : span.size ≠ 0) : span.low.toInt ≤ span.high.toInt := by
  have least := span.low.le_toInt
  have lowest := span.high.le_toInt
  by_contra improper
  apply sized
  simp only [size, Int64.toInt_add, Int64.toInt_sub, Int64.toInt_one, Int.bmod_add_bmod]
  rw [Int.bmod_eq_of_le (by omega) (by omega)]
  omega

theorem eq_of_congruent (inside : span.contains value = true) (also : span.contains other = true)
    (sized : span.size ≠ 0) (congruent : value.toInt ≡ other.toInt [ZMOD span.size]) : value = other := by
  rw [contains_iff] at inside also
  have size := size_exact sized (Int.le_trans inside.1 inside.2)
  have moved : (value.toInt - span.low.toInt) % span.size = (other.toInt - span.low.toInt) % span.size :=
    congruent.sub_right _
  rw [Int.emod_eq_of_lt (by omega) (by omega), Int.emod_eq_of_lt (by omega) (by omega)] at moved
  exact Int64.toInt_inj.mp (by omega)

theorem carry_congruent (sized : span.size ≠ 0) (proper : span.low.toInt ≤ span.high.toInt) (value stride : Value) :
    (span.carry value stride 0).toInt ≡ value.toInt [ZMOD span.size] := by
  rw [carry_exact sized proper, Int.natCast_zero, Int.zero_emod, Int.zero_mul, Int.add_zero]
  have exact := (Int.mod_modEq (value.toInt - span.low.toInt) span.size).add_right span.low.toInt
  rwa [Int.sub_add_cancel] at exact

/-- The distance that wrapping goes by is the exact one, or less than that by the number of words. -/
theorem wrap_congruent_iff (low : span.low.toInt ≤ 0) (sized : span.size ≠ 0) (value : Value) :
    (span.wrap value).toInt ≡ value.toInt [ZMOD span.size] ↔
      value.toInt - span.low.toInt ≤ Int64.maxValue.toInt ∨ span.size ∣ 0x10000000000000000 := by
  have limit : Int64.maxValue.toInt = 0x7fffffffffffffff := rfl
  have least := value.le_toInt
  have greatest := value.toInt_lt
  have lowest := span.low.le_toInt
  have moved : (span.wrap value).toInt ≡ (value - span.low).toInt + span.low.toInt [ZMOD span.size] := by
    rw [wrap_exact sized (proper_of_low low sized)]
    exact (Int.mod_modEq _ _).add_right _
  rw [limit]
  by_cases far : value.toInt - span.low.toInt ≤ 0x7fffffffffffffff
  · have exact : (value - span.low).toInt = value.toInt - span.low.toInt := by
      rw [Int64.toInt_sub, Int.bmod_eq_of_le (by omega) (by omega)]
    rw [exact, Int.sub_add_cancel] at moved
    exact iff_of_true moved (.inl far)
  · have short : (value - span.low).toInt = value.toInt - span.low.toInt - 0x10000000000000000 := by
      rw [Int64.toInt_sub, Int.bmod_def]
      split <;> omega
    have behind : value.toInt - span.low.toInt - 0x10000000000000000 + span.low.toInt =
        value.toInt - 0x10000000000000000 := by omega
    rw [short, behind] at moved
    rw [or_iff_right far]
    calc (span.wrap value).toInt ≡ value.toInt [ZMOD span.size]
        ↔ value.toInt - 0x10000000000000000 ≡ value.toInt [ZMOD span.size] := ⟨moved.symm.trans, moved.trans⟩
      _ ↔ (span.size : Int) ∣ (0x10000000000000000 : Nat) := by
        rw [Int.modEq_iff_dvd, Int.sub_sub_self]
        rfl
      _ ↔ span.size ∣ 0x10000000000000000 := Int.natCast_dvd_natCast

end Span

theorem Vec.get_of_lt {v : Vec} {axis : Nat} (bound : axis < v.components.length) : v.get axis = v.components[axis] := by
  simp [get, bound]

namespace Extent

variable {extent : Extent} {place other : Vec} {axis : Nat}

/-- On every axis the places lie apart by a multiple of its size. -/
def Congruent (extent : Extent) (place other : Vec) : Prop :=
  ∀ axis < extent.dimension, (place.get axis).toInt ≡ (other.get axis).toInt [ZMOD extent.size axis]

/-- On every axis a word says how far the place lies from the least corner, or says it well enough
because the size of the axis divides the number of words. -/
def Measures (extent : Extent) (place : Vec) : Prop :=
  ∀ axis < extent.dimension,
    (place.get axis).toInt - (extent.least.get axis).toInt ≤ Int64.maxValue.toInt ∨
      extent.size axis ∣ 0x10000000000000000

instance (extent : Extent) (place other : Vec) : Decidable (extent.Congruent place other) :=
  inferInstanceAs (Decidable (∀ axis < extent.dimension, _))

instance (extent : Extent) (place : Vec) : Decidable (extent.Measures place) :=
  inferInstanceAs (Decidable (∀ axis < extent.dimension, _))

theorem size_of_lt (bound : axis < extent.spans.length) : extent.size axis = extent.spans[axis].size := by
  simp [size, bound]

theorem least_of_lt (bound : axis < extent.spans.length) : extent.least.get axis = extent.spans[axis].low := by
  simp [least, Vec.get, bound]

theorem contains_get (inside : extent.contains place = true) (bound : axis < extent.spans.length) :
    extent.spans[axis].contains (place.get axis) = true := by
  have here := contains_iff.mp inside
  have within : axis < place.components.length := Nat.lt_of_lt_of_eq bound here.length_eq
  rw [Vec.get_of_lt within]
  exact here.get bound within

def Anchored (extent : Extent) : Prop :=
  ∀ span ∈ extent.spans, span.low.toInt ≤ 0

theorem Anchored.proper (anchored : extent.Anchored) (sized : extent.isEmpty = false) : extent.Proper :=
  fun span member => Span.proper_of_low (anchored span member) (isEmpty_iff.mp sized span member)

theorem Anchored.grows {after : Extent} (anchored : extent.Anchored) (grows : extent.Grows after) : after.Anchored := by
  intro outer member
  obtain ⟨inner, present, low, _⟩ := grows.covered member
  exact Int.le_trans low (anchored inner present)

theorem Anchored.of_least {after : Extent} (anchored : extent.Anchored) (same : after.least = extent.least) : after.Anchored := by
  intro span member
  have corner : span.low ∈ after.least.components := List.mem_map_of_mem member
  rw [same] at corner
  obtain ⟨before, present, low⟩ := List.mem_map.mp corner
  rw [← low]
  exact anchored before present

theorem empty_anchored (dimension : Nat) : (empty dimension).Anchored := by
  intro span member
  obtain rfl := List.eq_of_mem_replicate member
  decide

theorem eq_of_congruent (sized : extent.isEmpty = false) (inside : extent.contains place = true)
    (also : extent.contains other = true) (congruent : extent.Congruent place other) : place = other := by
  have here := dimension_of_contains inside
  have there := dimension_of_contains also
  apply congrArg Vec.mk
  apply List.ext_getElem (here.trans there.symm)
  intro axis within beyond
  have bound : axis < extent.spans.length := Nat.lt_of_lt_of_eq within here
  have same := congruent axis bound
  rw [size_of_lt bound] at same
  rw [← Vec.get_of_lt within, ← Vec.get_of_lt beyond]
  exact Span.eq_of_congruent (contains_get inside bound) (contains_get also bound)
    (isEmpty_iff.mp sized _ (List.getElem_mem bound)) same

section Axes

variable (axes : place.dimension = extent.dimension)
include axes

theorem wrap_get (bound : axis < extent.spans.length) :
    (extent.wrap place).get axis = extent.spans[axis].wrap (place.get axis) := by
  have none : place.components.drop extent.dimension = [] := List.drop_eq_nil_of_le (Nat.le_of_eq axes)
  have within : axis < place.components.length := Nat.lt_of_lt_of_eq bound axes.symm
  simp [wrap, none, Vec.get, bound, within]

theorem carry_get (stride : Vec) (count : Nat) (bound : axis < extent.spans.length) :
    ∃ move, (extent.carry place stride count).get axis = extent.spans[axis].carry (place.get axis) move count := by
  have none : place.components.drop extent.dimension = [] := List.drop_eq_nil_of_le (Nat.le_of_eq axes)
  have within : axis < place.components.length := Nat.lt_of_lt_of_eq bound axes.symm
  have paired : axis < (place.components.zip (stride.onAxes place.dimension)).length := by
    rw [List.length_zip, Vec.length_onAxes]
    exact Nat.lt_min.mpr ⟨within, within⟩
  refine ⟨(place.components.zip (stride.onAxes place.dimension))[axis].2, ?_⟩
  simp [carry, none, Vec.get, List.getElem?_zipWith, List.getElem?_eq_getElem bound, List.getElem?_eq_getElem paired, within]

variable (anchored : extent.Anchored) (sized : extent.isEmpty = false)
include anchored sized

theorem carry_congruent : extent.Congruent (extent.carry place (Vec.zero extent.dimension) 0) place := by
  intro axis bound
  obtain ⟨move, carried⟩ := carry_get axes (Vec.zero extent.dimension) 0 bound
  rw [size_of_lt bound, carried]
  exact Span.carry_congruent (isEmpty_iff.mp sized _ (List.getElem_mem bound))
    (anchored.proper sized _ (List.getElem_mem bound)) _ _

theorem wrap_congruent_iff : extent.Congruent (extent.wrap place) place ↔ extent.Measures place := by
  refine forall₂_congr fun axis bound => ?_
  rw [size_of_lt bound, least_of_lt bound, wrap_get axes bound]
  exact Span.wrap_congruent_iff (anchored _ (List.getElem_mem bound)) (isEmpty_iff.mp sized _ (List.getElem_mem bound)) _

end Axes

theorem measures_inside (sized : extent.isEmpty = false) (inside : extent.contains place = true) :
    extent.Measures place := by
  have fits := (isEmpty_iff_fits (proper_of_contains inside)).mp sized
  intro axis bound
  have value := contains_get inside bound
  have wide := fits _ (List.getElem_mem bound)
  rw [least_of_lt bound]
  simp only [Span.contains_iff, Span.Fits] at value wide
  exact .inl (by omega)

theorem wrap_inside (anchored : extent.Anchored) (sized : extent.isEmpty = false) (inside : extent.contains place = true) :
    extent.wrap place = place := by
  have axes := dimension_of_contains inside
  apply eq_of_congruent sized (wrap_contains (anchored.proper sized) sized axes) inside
  exact (wrap_congruent_iff axes anchored sized).mpr (measures_inside sized inside)

theorem Congruent.trans {between : Vec} (congruent : extent.Congruent place between) (further : extent.Congruent between other) :
    extent.Congruent place other :=
  fun axis bound => (congruent axis bound).trans (further axis bound)

theorem Congruent.symm (congruent : extent.Congruent place other) : extent.Congruent other place :=
  fun axis bound => (congruent axis bound).symm

end Extent

namespace Space

variable {space : Space} {place : Vec}

theorem load_least (source : Source) : (load source).extent.least = (interactive source.dialect).extent.least := by
  simp only [load]
  split
  · exact writeRow_least _
  · exact List.foldlRecOn (motive := fun filled : Space => filled.extent.least = (interactive source.dialect).extent.least)
      _ _ rfl fun filled same row _ => (writeRow_least _).trans same

theorem Built.anchored (built : space.Built) : space.extent.Anchored := by
  induction built with
  | @loaded dialect rows source accepted =>
    exact (Extent.empty_anchored source.dialect.dimension).of_least (load_least source)
  | begun dialect => exact Extent.empty_anchored dialect.dimension
  | @added space after built row accepted ih =>
    cases more : row.isEmpty with
    | true =>
      rw [(addRow_last more accepted).2.2]
      exact ih
    | false =>
      rw [(addRow_more more accepted).2.2]
      exact ih.of_least (writeRow_least _)
  | @written space built place value ih => exact ih.grows (put_grows place value).extent
  | finished built accepted ih =>
    obtain rfl := finish_eq accepted
    exact ih

theorem Built.get_eq_peek_wrap (built : space.Built) (sized : space.isEmpty = false) (place : Vec) :
    space.get place = space.peek (space.extent.wrap place) := by
  simp only [get]
  split
  next inside => rw [Extent.wrap_inside built.anchored sized inside]
  next => rfl

/-- A read goes to the one place inside that is congruent to the given one, as far as words measure
how far off that is, and to another place inside otherwise. Places that are congruent and measured
read the same. -/
theorem Built.get_wraps_iff (built : space.Built) (sized : space.isEmpty = false)
    (axes : place.dimension = space.dimension) :
    ∃ inner, (∀ other, space.contains other = true ∧ space.extent.Congruent other place ↔ other = inner) ∧
      space.get place = space.peek (space.extent.wrap place) ∧ space.contains (space.extent.wrap place) = true ∧
      (space.extent.wrap place = inner ↔ space.extent.Measures place) ∧
      (space.extent.Measures place → space.get place = space.peek inner ∧
        ∀ other : Vec, other.dimension = space.dimension → space.extent.Congruent other place →
          space.extent.Measures other → space.get other = space.get place) := by
  have proper := built.anchored.proper sized
  have inside : space.contains (space.extent.wrap place) = true := Extent.wrap_contains proper sized axes
  have home : space.contains (space.extent.carry place (Vec.zero space.dimension) 0) = true :=
    Extent.carry_contains proper sized axes _ _
  have congruent := Extent.carry_congruent axes built.anchored sized
  have only {other : Vec} (also : space.contains other = true) (same : space.extent.Congruent other place) :
      other = space.extent.carry place (Vec.zero space.dimension) 0 :=
    Extent.eq_of_congruent sized also home (same.trans congruent.symm)
  have wraps : space.extent.wrap place = _ ↔ space.extent.Measures place :=
    Iff.trans ⟨fun same => same ▸ congruent, only inside⟩ (Extent.wrap_congruent_iff axes built.anchored sized)
  have reads := built.get_eq_peek_wrap sized place
  refine ⟨_, fun other => ⟨fun both => only both.1 both.2, ?_⟩, reads, inside, wraps, fun measured => ⟨?_, ?_⟩⟩
  · rintro rfl
    exact ⟨home, congruent⟩
  · rw [reads, wraps.mpr measured]
  · intro other also same near
    have alike : space.extent.Congruent (space.extent.wrap other) place :=
      ((Extent.wrap_congruent_iff also built.anchored sized).mpr near).trans same
    rw [built.get_eq_peek_wrap sized other, reads, wraps.mpr measured,
      only (Extent.wrap_contains proper sized also) alike]

/-- With a column before the origin, the greatest value lies further off than a word says. Three columns
do not divide the number of words, and the read goes one column too far to the left. -/
theorem far_read_goes_elsewhere :
    let space := (load ⟨.befunge98, ["ab"]⟩).put ⟨[-1, 0]⟩ 99
    Source.ofLines .befunge98 ["ab"] = .ok ⟨.befunge98, ["ab"]⟩ ∧ space.isEmpty = false ∧
      space.contains ⟨[1, 0]⟩ = true ∧ space.extent.Congruent ⟨[1, 0]⟩ ⟨[Int64.maxValue, 0]⟩ ∧
      space.peek ⟨[1, 0]⟩ = 98 ∧ space.get ⟨[Int64.maxValue, 0]⟩ = 97 := by
  decide +kernel

/-- One column less is measured, and is read where it is congruent. -/
theorem near_read_wraps :
    let space := (load ⟨.befunge98, ["ab"]⟩).put ⟨[-1, 0]⟩ 99
    space.get ⟨[Int64.maxValue - 1, 0]⟩ = space.peek ⟨[0, 0]⟩ := by
  intro space
  have built : space.Built := .written (.loaded (show Source.ofLines .befunge98 ["ab"] = _ by rfl)) _ _
  obtain ⟨inner, only, _, _, _, reads⟩ :=
    built.get_wraps_iff (by decide +kernel) (show Vec.dimension ⟨[Int64.maxValue - 1, 0]⟩ = space.dimension by decide +kernel)
  have origin : (⟨[0, 0]⟩ : Vec) = inner := (only _).mp ⟨by decide +kernel, by decide +kernel⟩
  rw [origin]
  exact (reads (by decide +kernel)).1

end Space

end Befunge
