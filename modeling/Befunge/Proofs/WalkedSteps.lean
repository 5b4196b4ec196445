import Befunge.Proofs.BuiltSpaces
import Befunge.Proofs.LaheyLines

/-! Walks are steps made one after the other. A walk of any length is computed at once, from
the period of its line or from the size of each axis, and leads where its steps lead. -/

namespace Befunge

namespace Span

variable {count : Nat} {value stride : Value}

theorem carry_last (held : count < 0x8000000000000000) (value stride : Value) (times : Nat) :
    (⟨0, Int64.ofNat count - 1⟩ : Span).carry value stride times =
      Int64.ofInt ((value.toInt + times * stride.toInt) % count) := by
  simp only [carry, size_last held, Int64.toInt_zero, Int.sub_zero, Int.add_zero]
  congr 1
  rw [Int.add_emod, Int.mul_emod, Int.emod_emod, ← Int.mul_emod, ← Int.add_emod]

theorem carry_still {times : Nat} (held : count < 0x8000000000000000)
    (inside : (⟨0, Int64.ofNat count - 1⟩ : Span).contains value = true) (still : times * stride.toInt = 0) :
    (⟨0, Int64.ofNat count - 1⟩ : Span).carry value stride times = value := by
  obtain ⟨least, less⟩ := (contains_last held).mp inside
  rw [carry_last held, still, Int.add_zero, Int.emod_eq_of_lt least less, Int64.ofInt_toInt]

theorem wrap_carry (held : count < 0x8000000000000000) (some : 0 < count) {times : Nat}
    (exact : ((⟨0, Int64.ofNat count - 1⟩ : Span).carry value stride times + stride).toInt =
      ((⟨0, Int64.ofNat count - 1⟩ : Span).carry value stride times).toInt + stride.toInt) :
    (⟨0, Int64.ofNat count - 1⟩ : Span).wrap ((⟨0, Int64.ofNat count - 1⟩ : Span).carry value stride times + stride) =
      (⟨0, Int64.ofNat count - 1⟩ : Span).carry value stride (times + 1) := by
  rw [wrap_last held some, exact, carry_last held, carry_last held]
  have least := Int.emod_nonneg (value.toInt + times * stride.toInt) (by omega : (count : Int) ≠ 0)
  have less := Int.emod_lt_of_pos (value.toInt + times * stride.toInt) (by omega : 0 < (count : Int))
  rw [Int64.toInt_ofInt_of_le (by omega) (by omega), Int.emod_add_emod, Int.add_assoc, Int.natCast_add, Int.add_mul]
  simp

end Span

namespace Space

variable {space : Space} {place stride : Vec}

/-- Without a size a space has no edges to go round. -/
private theorem iterate_sum (unsized : space.isEmpty = true) (axes : stride.dimension = place.dimension) (count : Nat) :
    (space.step · stride)^[count] place = place.along stride count := by
  induction count with
  | zero =>
    rw [Int.natCast_zero, Vec.along_zero]
    rfl
  | succ count ih =>
    have same : stride.dimension = (place.along stride count).dimension := by rw [axes, Vec.dimension_along]
    rw [Function.iterate_succ_apply', ih]
    simp only [step, unsized, Bool.or_true, ↓reduceIte]
    rw [Vec.add_eq_along same, Vec.along_along, Int.natCast_succ]

theorem walk_growing (growing : space.dialect.isTorus = false) (moving : stride.isZero = false)
    (axes : stride.dimension = place.dimension) (count : Nat) :
    space.walk stride count place = (space.step · stride)^[count] place := by
  cases sized : space.isEmpty with
  | true =>
    rw [iterate_sum sized axes]
    cases count with
    | zero =>
      rw [Int.natCast_zero, Vec.along_zero]
      rfl
    | succ count => simp only [walk, moving, sized, Bool.false_eq_true, ↓reduceIte, Int.natCast_succ]
  | false =>
    induction count generalizing place with
    | zero => rfl
    | succ count ih =>
      cases inside : space.contains place with
      -- On a line all of the walk is counted at once, so the hypothesis is not needed.
      | true =>
        have lahey : space.Lahey place stride := ⟨⟨sized, inside, axes⟩, growing, moving⟩
        obtain ⟨back, ahead, counted⟩ := lahey.counted
        rw [lahey.walk_eq counted, lahey.iterate_step counted]
      | false =>
        have uncounted : space.extent.strides? place stride = none := by
          simp [Extent.strides?, show space.extent.contains place = false from inside]
        simp only [walk, moving, sized, growing, uncounted, Bool.false_eq_true, ↓reduceIte]
        rw [ih (by rw [step_dimension axes, axes]), Function.iterate_succ_apply]

namespace Grid

variable {width height : Nat} {x y dx dy : Value}

private theorem step_eq_wrap (grid : space.Grid width height) :
    space.step ⟨[x, y]⟩ ⟨[dx, dy]⟩ =
      ⟨[(⟨0, Int64.ofNat width - 1⟩ : Span).wrap (x + dx), (⟨0, Int64.ofNat height - 1⟩ : Span).wrap (y + dy)]⟩ := by
  have summed : (⟨[x, y]⟩ : Vec) + ⟨[dx, dy]⟩ = ⟨[x + dx, y + dy]⟩ := rfl
  simp only [step, summed, grid.isEmpty, grid.torus, Bool.or_false, ↓reduceIte]
  split
  next inside =>
    rw [grid.contains_spans, Bool.and_eq_true] at inside
    rw [Span.wrap_inside grid.columns_held inside.1, Span.wrap_inside grid.rows_held inside.2]
  next => simp [Extent.wrap, grid.extent, Extent.dimension]

private theorem carry_eq (grid : space.Grid width height) (times : Nat) :
    space.extent.carry ⟨[x, y]⟩ ⟨[dx, dy]⟩ times =
      ⟨[(⟨0, Int64.ofNat width - 1⟩ : Span).carry x dx times, (⟨0, Int64.ofNat height - 1⟩ : Span).carry y dy times]⟩ := by
  simp [Extent.carry, grid.extent, Extent.dimension, Vec.onAxes, Vec.dimension]

private theorem iterate_carry (grid : space.Grid width height) (inside : space.contains ⟨[x, y]⟩ = true)
    (exact : ∀ other, space.contains other = true → (other + ⟨[dx, dy]⟩).exact = other.point ⟨[dx, dy]⟩ 1) (count : Nat) :
    (space.step · ⟨[dx, dy]⟩)^[count] ⟨[x, y]⟩ = space.extent.carry ⟨[x, y]⟩ ⟨[dx, dy]⟩ count := by
  induction count with
  | zero =>
    rw [grid.contains_spans, Bool.and_eq_true] at inside
    rw [carry_eq grid, Span.carry_still grid.columns_held inside.1 (by simp),
      Span.carry_still grid.rows_held inside.2 (by simp)]
    rfl
  | succ count ih =>
    have there : space.contains (space.extent.carry ⟨[x, y]⟩ ⟨[dx, dy]⟩ count) = true :=
      Extent.carry_contains (Extent.proper_of_contains inside) grid.isEmpty (Extent.dimension_of_contains inside) _ _
    have sums := exact _ there
    rw [carry_eq grid] at ih sums
    simp only [Vec.exact, Vec.point, Vec.components_add, List.zipWith_cons_cons, List.zipWith_nil_left, List.map_cons,
      List.map_nil, List.cons.injEq, Int.one_mul, and_true] at sums
    rw [Function.iterate_succ_apply', ih, step_eq_wrap grid, carry_eq grid]
    rw [Span.wrap_carry grid.columns_held grid.wide.1 sums.1, Span.wrap_carry grid.rows_held grid.high.1 sums.2]

/-- On a torus a walk carries each axis round on its own, which is where its steps lead as
long as none of their sums wraps. -/
theorem walk_steps (grid : space.Grid width height) (inside : space.contains place = true)
    (axes : stride.dimension = place.dimension)
    (exact : ∀ other, space.contains other = true → (other + stride).exact = other.point stride 1) (count : Nat) :
    space.walk stride count place = (space.step · stride)^[count] place := by
  have two : place.dimension = 2 := (Extent.dimension_of_contains inside).trans (congrArg Extent.dimension grid.extent)
  obtain ⟨cs⟩ := place
  obtain ⟨ds⟩ := stride
  obtain ⟨x, y, rfl⟩ := List.length_eq_two.mp two
  obtain ⟨dx, dy, rfl⟩ := List.length_eq_two.mp axes
  cases count with
  | zero => rfl
  | succ count =>
    rw [iterate_carry grid inside exact]
    simp only [walk, grid.isEmpty, grid.torus, Bool.false_eq_true, ↓reduceIte]
    split
    next still =>
      obtain ⟨rfl, rfl⟩ : dx = 0 ∧ dy = 0 := by simpa [Vec.isZero] using still
      rw [grid.contains_spans, Bool.and_eq_true] at inside
      rw [carry_eq grid, Span.carry_still grid.columns_held inside.1 (by simp),
        Span.carry_still grid.rows_held inside.2 (by simp)]
    next => rfl

end Grid

/-- A walk of any length leads where so many steps lead. In a growing space this is so of
every place, inside or not, and of every stride that goes somewhere, whatever the extent.
On a torus it is so of the places inside, unless the sum of such a place and the stride
wraps. -/
theorem walk_eq_iterate_step (space : Space) (place stride : Vec) (count : Nat)
    (axes : place.dimension = space.dimension) (also : stride.dimension = space.dimension) :
    (space.dialect.isFunge98 = true → stride.isZero = false →
      space.walk stride count place = (space.step · stride)^[count] place) ∧
    (space.Built → space.dialect = .befunge93 → space.isEmpty = false → space.contains place = true →
      (∀ inside, space.contains inside = true → (inside + stride).exact = inside.point stride 1) →
      space.walk stride count place = (space.step · stride)^[count] place) := by
  constructor
  · intro growing moving
    apply walk_growing _ moving (also.trans axes.symm)
    rw [Dialect.isTorus, growing]
    rfl
  · intro built torus sized inside exact
    obtain blank | ⟨width, height, grid⟩ := built.grid torus
    · rw [isEmpty, blank] at sized
      cases sized
    · exact grid.walk_steps inside (also.trans axes.symm) exact count

/-- The longest walk along a line of four cells ends on the last one. On a torus a stride may
be longer than the torus is wide. -/
theorem longest_walk_steps :
    ((load ⟨.befunge98, ["abcd"]⟩).step · ⟨[1, 0]⟩)^[0xffffffffffffffff] ⟨[0, 0]⟩ = ⟨[3, 0]⟩ ∧
      ((load ⟨.befunge93, ["abc", "def"]⟩).step · ⟨[-5, 1]⟩)^[0xffffffffffffffff] ⟨[2, 0]⟩ = ⟨[2, 1]⟩ := by
  constructor
  · have line := walk_eq_iterate_step (load ⟨.befunge98, ["abcd"]⟩) ⟨[0, 0]⟩ ⟨[1, 0]⟩ 0xffffffffffffffff
      (by decide +kernel) (by decide +kernel)
    rw [← line.1 rfl (by decide)]
    decide +kernel
  · have torus := walk_eq_iterate_step (load ⟨.befunge93, ["abc", "def"]⟩) ⟨[2, 0]⟩ ⟨[-5, 1]⟩ 0xffffffffffffffff
      (by decide +kernel) (by decide +kernel)
    have accepted : Source.ofLines .befunge93 ["abc", "def"] = .ok ⟨.befunge93, ["abc", "def"]⟩ := by decide +kernel
    have extent : (load ⟨.befunge93, ["abc", "def"]⟩).extent = ⟨[⟨0, 2⟩, ⟨0, 1⟩]⟩ := by decide +kernel
    rw [← torus.2 (.loaded accepted) rfl (by decide +kernel) (by decide +kernel)]
    · decide +kernel
    · intro inside here
      rw [contains, extent, Extent.contains_iff] at here
      obtain ⟨cs⟩ := inside
      obtain ⟨x, _, across, below, rfl⟩ := List.forall₂_cons_left_iff.mp here
      obtain ⟨y, _, down, nothing, rfl⟩ := List.forall₂_cons_left_iff.mp below
      obtain rfl := List.forall₂_nil_left_iff.mp nothing
      obtain ⟨first, last⟩ : 0 ≤ x.toInt ∧ x.toInt ≤ 2 := Span.contains_iff.mp across
      obtain ⟨top, bottom⟩ : 0 ≤ y.toInt ∧ y.toInt ≤ 1 := Span.contains_iff.mp down
      have back : (-5 : Value).toInt = -5 := rfl
      have left : (x + -5).toInt = x.toInt + 1 * -5 := by
        rw [Int64.toInt_add, back, Int.bmod_eq_of_le (by omega) (by omega), Int.one_mul]
      have next : (y + 1).toInt = y.toInt + 1 * 1 := by
        rw [Int64.toInt_add, Int64.toInt_one, Int.bmod_eq_of_le (by omega) (by omega), Int.one_mul]
      exact congrArg₂ (fun x y => [x, y]) left next

end Space
end Befunge
