import Befunge.Proofs.ExtentBounds

/-! The line along which a cursor moves, in exact integers. The strides that are counted are
exactly those that stay inside the extent. Where every axis has a size, a sum of words does
not come to lie inside by having wrapped. -/

namespace Befunge

namespace Span

def Holds (span : Span) (number : Int) : Prop :=
  span.low.toInt ≤ number ∧ number ≤ span.high.toInt

variable {span : Span} {value stride : Value}

theorem add_contains_iff (fits : span.Fits) (inside : span.contains value = true) :
    span.contains (value + stride) = true ↔ span.Holds (value.toInt + 1 * stride.toInt) := by
  rw [contains_iff] at inside ⊢
  have low := span.low.le_toInt
  have high := span.high.toInt_lt
  have least := stride.le_toInt
  have greatest := stride.toInt_lt
  simp only [Fits, Int64.toInt_maxValue] at fits
  simp only [Holds, Int.one_mul, Int64.toInt_add, Int.bmod_def]
  split <;> omega

theorem neg_exact (value : Value) :
    (-value).toInt = -value.toInt ∨ value.toInt = -0x8000000000000000 ∧ (-value).toInt = -0x8000000000000000 := by
  have least := value.le_toInt
  have greatest := value.toInt_lt
  simp only [Int64.toInt_neg, Int.bmod_def]
  split <;> omega

/-- The least stride is not turned around by negation, but it leads out of a span with a
size either way. -/
theorem holds_neg_iff (fits : span.Fits) (inside : span.contains value = true) (count : Int) :
    span.Holds (value.toInt + count * (-stride).toInt) ↔ span.Holds (value.toInt + -count * stride.toInt) := by
  rw [contains_iff] at inside
  simp only [Fits, Int64.toInt_maxValue] at fits
  obtain turned | ⟨least, same⟩ := neg_exact stride
  · rw [turned, Int.mul_neg, Int.neg_mul]
  · simp only [Holds, least, same]
    omega

theorem holds_within {count : Int} (moving : stride ≠ 0) (inside : span.contains value = true)
    (holds : span.Holds (value.toInt + count * stride.toInt)) :
    (count.natAbs : Int) ≤ span.high.toInt - span.low.toInt := by
  rw [contains_iff] at inside
  have nonzero : 1 ≤ stride.toInt.natAbs := Int.natAbs_pos.mpr fun zero => moving (Int64.toInt_inj.mp zero)
  have further : count.natAbs ≤ (count * stride.toInt).natAbs := by
    rw [Int.natAbs_mul]
    exact Nat.le_mul_of_pos_right _ nonzero
  simp only [Holds] at holds
  omega

end Span

namespace Vec

/-- The components as integers. -/
def exact (v : Vec) : List Int :=
  v.components.map Int64.toInt

/-- Where so many strides from a start lead, in exact integers. -/
def point (start stride : Vec) (count : Int) : List Int :=
  List.zipWith (fun c d => c.toInt + count * d.toInt) start.components stride.components

variable {start stride : Vec}

theorem exact_inj {v w : Vec} : v.exact = w.exact ↔ v = w := by
  constructor
  · intro same
    obtain ⟨cs⟩ := v
    obtain ⟨ds⟩ := w
    exact congrArg Vec.mk (List.map_injective_iff.mpr (fun _ _ => Int64.toInt_inj.mp) same)
  · intro same
    rw [same]

@[simp] theorem components_add (v w : Vec) :
    (v + w).components = List.zipWith (· + ·) v.components w.components := rfl

@[simp] theorem components_neg (v : Vec) : (-v).components = v.components.map (- ·) := rfl

@[simp] theorem isZero_neg (v : Vec) : (-v).isZero = v.isZero := by
  have still (c : Value) : (-c == 0) = (c == 0) := by
    rw [Bool.eq_iff_iff, beq_iff_eq, beq_iff_eq, ← Int64.neg_inj (a := c), Int64.neg_zero]
  simp only [isZero, components_neg, List.all_map, Function.comp_def, still]

@[simp] theorem along_zero (start stride : Vec) : start.along stride 0 = start := by
  apply congrArg Vec.mk
  apply List.ext_getElem
  · simp [dimension]
  · simp

theorem along_along (start stride : Vec) (first second : Int) :
    (start.along stride first).along stride second = start.along stride (first + second) := by
  have axes : (start.along stride first).dimension = start.dimension := dimension_along _ _ _
  apply congrArg Vec.mk
  rw [axes]
  apply List.ext_getElem
  · simp [along, dimension]
  · intro axis _ _
    simp [along, Int.add_mul, Int64.add_assoc]

section Axes

variable (axes : stride.dimension = start.dimension)
include axes

theorem moving_axis (moving : stride.isZero = false) :
    ∃ (axis : Nat) (bound : axis < stride.components.length),
      axis < start.components.length ∧ stride.components[axis] ≠ 0 := by
  obtain ⟨d, member, nonzero⟩ : ∃ d ∈ stride.components, d ≠ 0 := by
    simpa [isZero] using moving
  obtain ⟨axis, bound, rfl⟩ := List.mem_iff_getElem.mp member
  exact ⟨axis, bound, Nat.lt_of_lt_of_eq bound axes, nonzero⟩

theorem add_eq_along : start + stride = start.along stride 1 := by
  apply congrArg Vec.mk
  rw [onAxes_self axes]
  apply List.ext_getElem
  · simp
  · intro axis _ _
    simp

theorem add_still (still : stride.isZero = true) : start + stride = start := by
  apply congrArg Vec.mk
  apply List.ext_getElem
  · show (start + stride).dimension = start.dimension
    rw [dimension_add, axes, Nat.min_self]
  · intro axis _ bound
    have within : axis < stride.components.length := Nat.lt_of_lt_of_eq bound axes.symm
    have zero : stride.components[axis] = 0 := by
      simpa using List.all_eq_true.mp still _ (List.getElem_mem within)
    simp [zero]

theorem along_neg (count : Int) : start.along (-stride) count = start.along stride (-count) := by
  have turned : (-stride).dimension = start.dimension := (dimension_neg stride).trans axes
  apply congrArg Vec.mk
  rw [onAxes_self axes, onAxes_self turned]
  apply List.ext_getElem
  · simp
  · intro axis _ _
    simp only [List.getElem_zipWith, components_neg, List.getElem_map, Int64.ofInt_add, Int64.ofInt_mul, Int64.ofInt_neg,
      Int64.ofInt_toInt, Int64.neg_mul, Int64.mul_neg]

end Axes

end Vec

namespace Extent

def Holds (extent : Extent) (point : List Int) : Prop :=
  List.Forall₂ Span.Holds extent.spans point

variable {extent : Extent} {place stride : Vec} {count : Int}

theorem contains_iff_holds : extent.contains place = true ↔ extent.Holds place.exact := by
  rw [contains_iff, Holds, Vec.exact, List.forall₂_map_right_iff]
  simp only [Span.contains_iff, Span.Holds]

private theorem axes_congr {P : Span → α → Prop} {Q : Span → β → Prop} {f : Value → Value → α} {g : Value → Value → β}
    {spans : List Span} {cs ds : List Value} (inside : List.Forall₂ (fun span c => span.contains c = true) spans cs)
    (same : ds.length = cs.length)
    (each : ∀ span ∈ spans, ∀ c d, span.contains c = true → (P span (f c d) ↔ Q span (g c d))) :
    List.Forall₂ P spans (List.zipWith f cs ds) ↔ List.Forall₂ Q spans (List.zipWith g cs ds) := by
  induction inside generalizing ds with
  | nil => simp
  | @cons span c spans cs here _ ih =>
    cases ds with
    | nil => cases same
    | cons d ds =>
      rw [List.forall_mem_cons] at each
      simp only [List.zipWith_cons_cons, List.forall₂_cons]
      rw [each.1 c d here, ih (by simpa using same) each.2]

theorem add_contains_iff (fits : extent.Fits) (inside : extent.contains place = true)
    (axes : stride.dimension = place.dimension) :
    extent.contains (place + stride) = true ↔ extent.Holds (place.point stride 1) := by
  rw [contains_iff] at inside ⊢
  exact axes_congr inside axes fun span member _ _ here => Span.add_contains_iff (fits span member) here

theorem holds_neg_iff (fits : extent.Fits) (inside : extent.contains place = true)
    (axes : stride.dimension = place.dimension) (count : Int) :
    extent.Holds (place.point (-stride) count) ↔ extent.Holds (place.point stride (-count)) := by
  rw [contains_iff] at inside
  rw [Holds, Vec.point, Vec.components_neg, List.zipWith_map_right]
  exact axes_congr inside axes fun span member _ _ here => Span.holds_neg_iff (fits span member) here count

private theorem stridesAlong_exact {spans : List Span} {cs ds : List Value}
    (inside : List.Forall₂ (fun span c => span.contains c = true) spans cs) (same : ds.length = cs.length) (count : Int) :
    (-(stridesAlong spans cs ds).1 ≤ count ∧ count ≤ (stridesAlong spans cs ds).2) ↔
      count.natAbs ≤ countLimit ∧
        List.Forall₂ Span.Holds spans (List.zipWith (fun c d => c.toInt + count * d.toInt) cs ds) := by
  induction inside generalizing ds with
  | nil =>
    simp only [stridesAlong, List.zipWith_nil_left, List.Forall₂.nil, and_true]
    omega
  | @cons span c spans cs here _ ih =>
    cases ds with
    | nil => cases same
    | cons d ds =>
      have rest := @ih ds (by simpa using same)
      simp only [stridesAlong, List.zipWith_cons_cons, List.forall₂_cons]
      split
      next still =>
        have holds : span.Holds (c.toInt + count * d.toInt) := by
          simpa [still, Span.Holds] using here
        rw [rest]
        simp [holds]
      next moving =>
        have exact : span.Holds _ ↔ _ := Span.strides_exact here moving count
        rw [exact, ← and_assoc, and_comm (b := _ ∧ _), and_assoc, ← rest]
        omega

theorem holds_within (inside : extent.contains place = true) (axes : stride.dimension = place.dimension)
    (moving : stride.isZero = false) (holds : extent.Holds (place.point stride count)) :
    ∃ span ∈ extent.spans, (count.natAbs : Int) ≤ span.high.toInt - span.low.toInt := by
  obtain ⟨axis, bound, shorter, nonzero⟩ := Vec.moving_axis axes moving
  rw [contains_iff] at inside
  have long : axis < extent.spans.length := inside.length_eq ▸ shorter
  have here := inside.get long shorter
  have there := List.Forall₂.get holds long (holds.length_eq ▸ long)
  simp only [List.get_eq_getElem, Vec.point, List.getElem_zipWith] at here there
  exact ⟨_, List.getElem_mem long, Span.holds_within nonzero here there⟩

/-- The strides counted are exactly those that stay inside, in exact integers. -/
theorem strides?_exact {back ahead : Nat} (axes : stride.dimension = place.dimension)
    (counted : extent.strides? place stride = some (back, ahead)) (count : Int) :
    extent.Holds (place.point stride count) ↔ -(back : Int) ≤ count ∧ count ≤ ahead := by
  simp only [strides?] at counted
  split at counted
  · cases counted
  next possible =>
    simp only [Bool.or_eq_true, Bool.not_eq_true', not_or, Bool.not_eq_false, Bool.not_eq_true] at possible
    obtain ⟨moving, inside⟩ := possible
    have exact := stridesAlong_exact (contains_iff.mp inside) axes count
    rw [Option.some.inj counted] at exact
    rw [exact]
    refine ⟨fun holds => ⟨?_, holds⟩, And.right⟩
    obtain ⟨span, _, within⟩ := holds_within inside axes moving holds
    have low := span.low.le_toInt
    have high := span.high.toInt_lt
    simp only [countLimit]
    omega

theorem strides?_some (inside : extent.contains place = true) (moving : stride.isZero = false) :
    ∃ back ahead, extent.strides? place stride = some (back, ahead) := by
  simp only [strides?, inside, moving, Bool.not_true, Bool.or_self, Bool.false_eq_true, ↓reduceIte]
  exact ⟨_, _, rfl⟩

theorem Holds.exact {point : List Int} (holds : extent.Holds point) : (point.map Int64.ofInt).map Int64.toInt = point := by
  obtain ⟨spans⟩ := extent
  simp only [Holds] at holds
  induction holds with
  | nil => rfl
  | @cons span number _ _ here _ ih =>
    have low := span.low.le_toInt
    have high := span.high.toInt_lt
    rw [List.map_cons, List.map_cons, ih, Int64.toInt_ofInt_of_le (by have := here.1; omega) (by have := here.2; omega)]

theorem exact_along (axes : stride.dimension = place.dimension) (holds : extent.Holds (place.point stride count)) :
    (place.along stride count).exact = place.point stride count := by
  have cut : (place.along stride count).components = (place.point stride count).map Int64.ofInt := by
    rw [Vec.along, Vec.onAxes_self axes, Vec.point, List.map_zipWith]
  rw [Vec.exact, cut, holds.exact]

theorem along_holds (axes : stride.dimension = place.dimension) (holds : extent.Holds (place.point stride count)) :
    extent.contains (place.along stride count) = true := by
  rw [contains_iff_holds, exact_along axes holds]
  exact holds

theorem Grows.holds {after : Extent} (grows : extent.Grows after) (axes : stride.dimension = place.dimension) {count : Int}
    (holds : extent.Holds (place.point stride count)) : after.Holds (place.point stride count) := by
  rw [← exact_along axes holds, ← contains_iff_holds]
  exact grows.contains (along_holds axes holds)

theorem along_contains {back ahead : Nat} (axes : stride.dimension = place.dimension)
    (counted : extent.strides? place stride = some (back, ahead)) (notBelow : -(back : Int) ≤ count)
    (notAbove : count ≤ ahead) : extent.contains (place.along stride count) = true :=
  along_holds axes ((strides?_exact axes counted count).mpr ⟨notBelow, notAbove⟩)

theorem point_along (axes : stride.dimension = place.dimension) (holds : extent.Holds (place.point stride count))
    (more : Int) : (place.along stride count).point stride more = place.point stride (count + more) := by
  have exact : List.zipWith (fun c d => c + more * d.toInt) (place.along stride count).exact stride.components =
      List.zipWith (fun c d => c + more * d.toInt) (place.point stride count) stride.components := by
    rw [exact_along axes holds]
  rw [Vec.exact, List.zipWith_map_left] at exact
  rw [Vec.point, exact]
  apply List.ext_getElem
  · simp [Vec.point]
  · intro axis _ _
    simp [Vec.point, Int.add_mul, Int.add_assoc]

end Extent

end Befunge
