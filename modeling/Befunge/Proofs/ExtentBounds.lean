import Mathlib.Data.List.Forall2
import Befunge.Extent
import Befunge.Proofs.SpanBounds

/-! Places inside an extent, axis by axis. An extent only ever grows, and what grows
keeps the places that it had. -/

namespace Befunge

private theorem forall₂_relay {R : α → β → Prop} {S : β → γ → Prop} {T : α → γ → Prop}
    (relay : ∀ a b c, R a b → S b c → T a c) : ∀ {xs ys zs},
    List.Forall₂ R xs ys → List.Forall₂ S ys zs → List.Forall₂ T xs zs
  | _, _, _, .nil, .nil => .nil
  | _, _, _, .cons here rest, .cons there more => .cons (relay _ _ _ here there) (forall₂_relay relay rest more)

namespace Vec

@[simp] theorem dimension_add (v w : Vec) : (v + w).dimension = min v.dimension w.dimension :=
  List.length_zipWith

@[simp] theorem dimension_neg (v : Vec) : (-v).dimension = v.dimension :=
  List.length_map _

theorem onAxes_self {v : Vec} {axes : Nat} (same : v.dimension = axes) : v.onAxes axes = v.components := by
  subst axes
  simp [onAxes, dimension]

@[simp] theorem length_onAxes (v : Vec) (axes : Nat) : (v.onAxes axes).length = axes := by
  simp only [onAxes, dimension, List.length_append, List.length_take, List.length_replicate]
  omega

@[simp] theorem dimension_along (start stride : Vec) (count : Int) :
    (start.along stride count).dimension = start.dimension := by
  simp [along, dimension, List.length_zipWith]

@[simp] theorem dimension_turnLeft (v : Vec) : v.turnLeft.dimension = v.dimension := by
  unfold turnLeft
  split <;> rfl

@[simp] theorem dimension_turnRight (v : Vec) : v.turnRight.dimension = v.dimension := by
  unfold turnRight
  split <;> rfl

@[simp] theorem dimension_zero (dimension : Nat) : (zero dimension).dimension = dimension :=
  List.length_replicate

@[simp] theorem dimension_unit (dimension axis : Nat) (negative : Bool) :
    (unit dimension axis negative).dimension = dimension := by
  simp [unit, Vec.dimension]

end Vec

namespace Span

def Covers (outer inner : Span) : Prop :=
  outer.low.toInt ≤ inner.low.toInt ∧ inner.high.toInt ≤ outer.high.toInt

theorem cover_covers (span : Span) (value : Value) : (span.cover value).Covers span := by
  simp only [Covers, cover, Int64.lt_iff_toInt_lt]
  constructor <;> split <;> omega

end Span

namespace Extent

theorem contains_iff {extent : Extent} {place : Vec} :
    extent.contains place = true ↔
      List.Forall₂ (fun span c => span.contains c = true) extent.spans place.components := by
  simp only [contains, Bool.and_eq_true, beq_iff_eq, List.forall₂_iff_zip, List.all_eq_true, Prod.forall,
    dimension, Vec.dimension]
  exact and_congr_left fun _ => eq_comm

def Proper (extent : Extent) : Prop :=
  ∀ span ∈ extent.spans, span.low.toInt ≤ span.high.toInt

/-- No axis holds more values than a value can count. -/
def Fits (extent : Extent) : Prop :=
  ∀ span ∈ extent.spans, span.Fits

instance (extent : Extent) : Decidable extent.Fits :=
  inferInstanceAs (Decidable (∀ span ∈ extent.spans, _))

theorem isEmpty_iff {extent : Extent} :
    extent.isEmpty = false ↔ ∀ span ∈ extent.spans, span.size ≠ 0 := by
  simp [isEmpty]

theorem isEmpty_iff_fits {extent : Extent} (proper : extent.Proper) :
    extent.isEmpty = false ↔ extent.Fits := by
  rw [isEmpty_iff]
  refine forall₂_congr fun span member => ?_
  rw [ne_eq, Span.size_eq_zero_iff (proper span member), Classical.not_not]

@[simp] theorem dimension_wrap (extent : Extent) (place : Vec) : (extent.wrap place).dimension = place.dimension := by
  simp only [wrap, dimension, Vec.dimension, List.length_append, List.length_zipWith, List.length_drop]
  omega

@[simp] theorem dimension_carry (extent : Extent) (place stride : Vec) (count : Nat) :
    (extent.carry place stride count).dimension = place.dimension := by
  have moves := place.length_onAxes place.dimension
  simp only [carry, dimension, Vec.dimension, List.length_append, List.length_zipWith, List.length_zip,
    List.length_drop, Vec.length_onAxes]
  omega

theorem dimension_of_contains {extent : Extent} {place : Vec} (inside : extent.contains place = true) :
    place.dimension = extent.dimension :=
  (contains_iff.mp inside).length_eq.symm

theorem proper_of_contains {extent : Extent} {place : Vec} (inside : extent.contains place = true) :
    extent.Proper := by
  intro span member
  have holds := contains_iff.mp inside
  obtain ⟨index, bound, rfl⟩ := List.mem_iff_getElem.mp member
  have here := holds.get bound (holds.length_eq ▸ bound)
  simp only [List.get_eq_getElem, Span.contains_iff] at here
  omega

def Grows (before after : Extent) : Prop :=
  List.Forall₂ (fun inner outer => Span.Covers outer inner) before.spans after.spans

theorem Grows.refl (extent : Extent) : Grows extent extent :=
  List.forall₂_same.mpr fun _ _ => ⟨Int.le_refl _, Int.le_refl _⟩

theorem Grows.trans {before between after : Extent} (grows : Grows before between) (further : Grows between after) :
    Grows before after :=
  forall₂_relay (fun _ _ _ first second => ⟨Int.le_trans second.1 first.1, Int.le_trans first.2 second.2⟩) grows further

theorem Grows.dimension {before after : Extent} (grows : Grows before after) :
    after.dimension = before.dimension :=
  grows.length_eq.symm

theorem Grows.contains {before after : Extent} (grows : Grows before after) {place : Vec}
    (inside : before.contains place = true) : after.contains place = true := by
  refine contains_iff.mpr (forall₂_relay (fun _ _ _ covers here => ?_) grows.flip (contains_iff.mp inside))
  simp only [Span.contains_iff] at *
  exact ⟨Int.le_trans covers.1 here.1, Int.le_trans here.2 covers.2⟩

private theorem Grows.span {before after : Extent} (grows : Grows before after) {inner : Span}
    (member : inner ∈ before.spans) : ∃ outer ∈ after.spans, outer.Covers inner := by
  obtain ⟨index, bound, rfl⟩ := List.mem_iff_getElem.mp member
  have covers := List.Forall₂.get grows bound (grows.length_eq ▸ bound)
  exact ⟨_, List.get_mem _ _, covers⟩

theorem Grows.fits {before after : Extent} (grows : Grows before after) (fits : after.Fits) : before.Fits := by
  intro inner member
  obtain ⟨outer, present, covers⟩ := grows.span member
  have wide := fits outer present
  simp only [Span.Fits] at *
  have low := covers.1
  have high := covers.2
  omega

theorem Grows.covered {before after : Extent} (grows : Grows before after) {outer : Span}
    (member : outer ∈ after.spans) : ∃ inner ∈ before.spans, outer.Covers inner := by
  obtain ⟨index, bound, rfl⟩ := List.mem_iff_getElem.mp member
  have shorter : index < before.spans.length := grows.length_eq ▸ bound
  have covers := List.Forall₂.get grows shorter bound
  exact ⟨_, List.getElem_mem shorter, covers⟩

theorem Grows.proper {before after : Extent} (grows : Grows before after) (proper : before.Proper) :
    after.Proper := by
  intro outer member
  obtain ⟨inner, present, low, high⟩ := grows.covered member
  exact Int.le_trans low (Int.le_trans (proper inner present) high)

theorem cover_grows {extent : Extent} {place : Vec} (same : place.dimension = extent.dimension) :
    Grows extent (extent.cover place) := by
  obtain ⟨spans⟩ := extent
  obtain ⟨cs⟩ := place
  simp only [Grows, cover, dimension, Vec.dimension] at *
  induction spans generalizing cs with
  | nil => simp
  | cons span spans ih =>
    cases cs with
    | nil => cases same
    | cons c cs => exact .cons (span.cover_covers c) (ih cs (by simpa using same))

private theorem zipWith_holds {move : Span → α → Value} {spans : List Span} {given : List α}
    (same : given.length = spans.length)
    (holds : ∀ span ∈ spans, ∀ given, span.contains (move span given) = true) :
    List.Forall₂ (fun span c => span.contains c = true) spans (List.zipWith move spans given) := by
  induction spans generalizing given with
  | nil => simp
  | cons span spans ih =>
    cases given with
    | nil => cases same
    | cons first rest =>
      exact .cons (holds span (by simp) first)
        (ih (by simpa using same) fun other member => holds other (by simp [member]))

theorem wrap_contains {extent : Extent} {place : Vec} (proper : extent.Proper) (sized : extent.isEmpty = false)
    (same : place.dimension = extent.dimension) : extent.contains (extent.wrap place) = true := by
  have none : place.components.drop extent.dimension = [] := List.drop_eq_nil_of_le (Nat.le_of_eq same)
  rw [contains_iff]
  simp only [wrap, none, List.append_nil]
  exact zipWith_holds same fun span member value =>
    Span.wrap_contains (isEmpty_iff.mp sized span member) (proper span member) value

theorem carry_contains {extent : Extent} {place : Vec} (proper : extent.Proper) (sized : extent.isEmpty = false)
    (same : place.dimension = extent.dimension) (stride : Vec) (count : Nat) :
    extent.contains (extent.carry place stride count) = true := by
  have none : place.components.drop extent.dimension = [] := List.drop_eq_nil_of_le (Nat.le_of_eq same)
  have paired : (place.components.zip (stride.onAxes place.dimension)).length = extent.dimension := by
    rw [List.length_zip, Vec.length_onAxes, ← same]
    exact Nat.min_self _
  rw [contains_iff]
  simp only [carry, none, List.append_nil]
  exact zipWith_holds paired fun span member move =>
    Span.carry_contains (isEmpty_iff.mp sized span member) (proper span member) move.1 move.2 count

end Extent
end Befunge
