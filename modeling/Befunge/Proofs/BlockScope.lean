import Befunge.Proofs.Nests

/-! Blocks nest. As long as a block stays open and its own stack exchanges no values
with the one below, no operation reaches the stacks below. Leaving the block finds them
as opening it left them. -/

namespace Befunge

open StackStack (Op)

namespace Nest

variable {axes : Nat} {nest : Nest} {op : Op} {lower : List (List Value)}

theorem perform_keeps (beneath : lower <:+ nest.outer) (stays : lower.length ≤ (nest.perform axes op).2.outer.length)
    (apart : op = .underStack → lower.length < nest.outer.length) : lower <:+ (nest.perform axes op).2.outer := by
  obtain ⟨active, outer⟩ := nest
  have inner {below : List Value} {outer : List (List Value)} (beneath : lower <:+ below :: outer)
      (shorter : lower.length ≤ outer.length) : lower <:+ outer := by
    rcases List.suffix_cons_iff.mp beneath with rfl | inner
    · exact absurd shorter (by simp)
    · exact inner
  cases op with
  | beginBlock offset =>
    simp only [perform]
    split
    · exact beneath.trans (List.suffix_cons ..)
    · exact beneath
  | endBlock =>
    cases outer with
    | nil => exact beneath
    | cons below outer => exact inner beneath stays
  | underStack =>
    cases outer with
    | nil => exact beneath
    | cons below outer =>
      have kept := inner beneath (Nat.le_of_lt_succ (apart rfl))
      simp only [perform, underStack]
      split <;> exact kept.trans (List.suffix_cons ..)
  | _ => exact beneath

theorem refused_keeps {below : List Value} (beneath : below :: lower <:+ nest.outer) (held : axes ≤ below.length) :
    below :: lower <:+ (nest.refused axes op).outer := by
  obtain ⟨active, outer⟩ := nest
  cases op with
  | endBlock =>
    cases outer with
    | nil => exact beneath
    | cons second outer =>
      rcases List.suffix_cons_iff.mp beneath with same | inner
      · obtain ⟨rfl, rfl⟩ := List.cons.inj same
        simp [refused, Nat.sub_eq_zero_of_le held]
      · exact inner.trans (List.suffix_cons ..)
  | _ => exact beneath

theorem underStack_done {below : List Value} (beneath : below :: lower <:+ nest.outer) : nest.underStack.1 = .done := by
  obtain ⟨active, outer⟩ := nest
  cases outer with
  | nil => cases List.suffix_nil.mp beneath
  | cons second outer => rfl

theorem top_append {pushed : List Value} {count : Nat} (values : List Value) (length : pushed.length = count) :
    top (values ++ pushed) count = pushed ∧ (values ++ pushed).rdrop count = values := by
  subst length
  simp [top, List.rtake, List.rdrop]

@[simp] theorem length_top (values : List Value) (count : Nat) : (top values count).length = count := by
  simp only [top, List.length_append, List.length_replicate, List.rtake, List.length_drop]
  omega

theorem rdrop_append_top (values : List Value) (count : Nat) :
    values.rdrop count ++ top values count = List.replicate (count - values.length) 0 ++ values := by
  rw [top]
  rcases Nat.le_total count values.length with enough | short
  · simp [Nat.sub_eq_zero_of_le enough, List.rdrop, List.rtake]
  · simp [List.rdrop, List.rtake, Nat.sub_eq_zero_of_le short]

/-- A block that is left with the count it was opened with gives the values back that
it took, and zeros for those that it did not find. -/
theorem rejoin_base (values : List Value) (count : Value) :
    rejoin (base values count) (carried values count) count =
      List.replicate (count.toInt - values.length).toNat 0 ++ values := by
  simp only [rejoin, base, carried, Int64.lt_iff_toInt_lt, Int64.toInt_zero]
  have size : count.magnitude = count.toInt.natAbs := rfl
  split
  next negative =>
    have none : (count.toInt - values.length).toNat = 0 := by omega
    rw [none]
    exact (top_append values List.length_replicate).2
  next positive =>
    have missing : (count.toInt - values.length).toNat = count.magnitude - values.length := by omega
    have back : top (top values count.magnitude) count.magnitude = top values count.magnitude :=
      (top_append [] (length_top values count.magnitude)).1
    rw [missing, back, rdrop_append_top]

end Nest

namespace StackStack

def Reply.Refused : Reply → Prop
  | .fault _ => True
  | _ => False

instance : DecidablePred Reply.Refused
  | .fault _ => isTrue trivial
  | .done | .value _ | .values _ | .vec _ => isFalse id

/-- A run that never leaves the block at a level, and in which the stack of that block
exchanges no values with the one below. An exchange that is refused moves nothing. -/
def Within (level : Nat) : StackStack → List Op → Prop
  | _, [] => True
  | pile, op :: ops =>
    (op = .underStack → pile.depth = level → (pile.perform op).1.Refused) ∧
      level ≤ (pile.perform op).2.depth ∧ Within level (pile.perform op).2 ops

instance Within.decidable (level : Nat) : (pile : StackStack) → (ops : List Op) → Decidable (pile.Within level ops)
  | _, [] => isTrue trivial
  | pile, op :: ops =>
    have := decidable level (pile.perform op).2 ops
    inferInstanceAs (Decidable (_ ∧ _ ∧ _))

variable {axes : Nat} {pile : StackStack} {nest : Nest} {below : List Value} {lower : List (List Value)}

theorem Within.performAll {ops : List Op} (within : pile.Within (lower.length + 2) ops)
    (shows : pile.Shows axes nest.layers) (beneath : below :: lower <:+ nest.outer) (held : axes ≤ below.length) :
    ∃ after : Nest, (pile.performAll ops).2.Shows axes after.layers ∧ below :: lower <:+ after.outer := by
  induction ops generalizing pile nest with
  | nil => exact ⟨nest, shows, beneath⟩
  | cons op ops ih =>
    obtain ⟨apart, stays, rest⟩ := within
    obtain ⟨_, shown⟩ | ⟨reply, shown⟩ := perform_nest op shows
    · exact ih rest shown (Nest.refused_keeps beneath held)
    · refine ih rest shown (Nest.perform_keeps beneath ?_ ?_)
      · rw [shown.depthNest] at stays
        simpa [Nest.depth] using stays
      · -- An exchange at the level of the block was refused, but there is a stack below.
        rintro rfl
        by_contra level
        have short : nest.outer.length = lower.length + 1 := by
          have length := beneath.length_le
          simp only [List.length_cons] at length level
          omega
        have refused := apart rfl (by rw [shows.depthNest, Nest.depth, short])
        rw [reply, Nest.perform, Nest.underStack_done beneath] at refused
        exact refused

variable {active values : List Value} {outer : List (List Value)} {offset : Vec}

theorem Shows.pushNest (shows : pile.Shows axes (Nest.layers ⟨active, outer⟩)) (value : Value) :
    (pile.push value).Shows axes (Nest.layers ⟨active ++ [value], outer⟩) := by
  have pushed := Shows.push shows value
  rwa [Stack.push_ofList] at pushed

theorem opened_block (count : Value) (shows : pile.Shows axes (Nest.layers ⟨values, outer⟩))
    (accepted : ((pile.push count).perform (.beginBlock offset)).1 = .done) :
    offset.dimension = axes ∧
      ((pile.push count).perform (.beginBlock offset)).2.Shows axes
        (Nest.layers ⟨Nest.carried values count, (Nest.base values count ++ offset.components) :: outer⟩) := by
  have pushed := shows.pushNest count
  have same : offset.dimension = axes := by
    by_contra different
    simp [perform, beginBlock, pushed.dimension, different] at accepted
  obtain ⟨fault, after, result, _, _⟩ | ⟨after, result, _, shown⟩ := (beginBlock_nest same pushed).cases
  · rw [perform, result] at accepted
    cases accepted
  · simp only [List.getLastD_concat, Nest.beginBlock, List.dropLast_concat] at shown
    rw [perform, result]
    exact ⟨same, shown⟩

theorem closed_block (count : Value) (same : offset.dimension = axes)
    (shows : pile.Shows axes (Nest.layers ⟨active, (below ++ offset.components) :: outer⟩)) :
    (((pile.push count).perform .endBlock).1.Refused ↔ 0 < count ∧ ¬ pile.Room below.length count.magnitude) ∧
      (¬ ((pile.push count).perform .endBlock).1.Refused →
        ((pile.push count).perform .endBlock).1 = .vec offset ∧
          ((pile.push count).perform .endBlock).2.Shows axes (Nest.layers ⟨Nest.rejoin below active count, outer⟩)) := by
  obtain ⟨given, kept⟩ := Nest.top_append below same
  have outcome := endBlock_nest (shows.pushNest count)
  simp only [List.getLastD_concat, Nest.endBlock, List.dropLast_concat, given, kept] at outcome
  obtain ⟨fault, after, result, overfull, _⟩ | ⟨after, result, fits, shown⟩ := outcome.cases
  · simp only [perform, result]
    exact ⟨iff_of_true trivial (Classical.not_imp.mp overfull), fun granted => absurd trivial granted⟩
  · simp only [perform, result]
    exact ⟨iff_of_false id fun lacking => lacking.2 (fits lacking.1), fun _ => ⟨trivial, shown⟩⟩

theorem Shows.same_lower {before after : StackStack} (first : before.Shows axes (Nest.layers ⟨values, outer⟩))
    (last : after.Shows axes (Nest.layers ⟨active, outer⟩)) :
    after.depth = before.depth ∧ after.layers.tail = before.layers.tail ∧ after.toss.toList = active := by
  refine ⟨last.depthNest.trans first.depthNest.symm, ?_, last.activeNest⟩
  rw [last.layers, first.layers]
  rfl

/-- Leaving a block gives the offset that it was opened with, and joins what it gives
back to what was left when it was opened. It is refused only where values are to be given
back and there is no memory for them. -/
theorem blocks_nest (dimension : Nat) (memory : Memory) (earlier : List Op) (offset : Vec) (opening : Value) :
    let before := ((initial dimension memory).performAll earlier).2
    let opened := (before.push opening).perform (.beginBlock offset)
    let base := Nest.base before.toss.toList opening
    opened.1 = .done →
      (∀ (inner : List Op) (closing : Value),
        let within := (opened.2.performAll inner).2
        let closed := (within.push closing).perform .endBlock
        opened.2.Within opened.2.depth inner → within.depth = opened.2.depth →
          (closed.1.Refused ↔ 0 < closing ∧ ¬ within.Room base.length closing.magnitude) ∧
          (¬ closed.1.Refused →
            closed.1 = .vec offset ∧ closed.2.depth = before.depth ∧ closed.2.layers.tail = before.layers.tail ∧
              closed.2.toss.toList = Nest.rejoin base within.toss.toList closing)) ∧
      let direct := (opened.2.push opening).perform .endBlock
      ¬ direct.1.Refused →
        direct.1 = .vec offset ∧ direct.2.depth = before.depth ∧ direct.2.layers.tail = before.layers.tail ∧
          direct.2.toss.toList =
            List.replicate (opening.toInt - before.toss.size).toNat 0 ++ before.toss.toList := by
  intro before opened base accepted
  obtain ⟨⟨values, outer⟩, shows⟩ := Open.shows (Open.performAll ⟨_, _, initial_shows dimension memory⟩ earlier)
  have active : before.toss.toList = values := shows.activeNest
  obtain ⟨same, start⟩ := opened_block opening shows accepted
  have left : base = Nest.base values opening := congrArg (Nest.base · opening) active
  rw [left, active]
  refine ⟨?_, ?_⟩
  · intro inner closing within closed inside level
    have long : dimension ≤ (Nest.base values opening ++ offset.components).length := by
      rw [List.length_append]
      exact Nat.le_add_left_of_le (Nat.le_of_eq same.symm)
    have bottom : opened.2.depth = outer.length + 2 := start.depthNest
    rw [bottom] at inside level
    -- What the block was opened on still lies at the bottom, and at this depth nothing above it.
    obtain ⟨⟨kept, around⟩, shown, beneath⟩ := inside.performAll start List.suffix_rfl long
    have alone : around = (Nest.base values opening ++ offset.components) :: outer := by
      have length : within.depth = around.length + 1 := shown.depthNest
      exact (beneath.eq_of_length (by simp only [List.length_cons]; omega)).symm
    subst alone
    obtain ⟨refused, accepted⟩ := closed_block closing same shown
    refine ⟨refused, fun granted => ?_⟩
    obtain ⟨given, joined⟩ := accepted granted
    rw [show within.toss.toList = kept from shown.activeNest]
    exact ⟨given, shows.same_lower joined⟩
  · intro direct granted
    obtain ⟨given, joined⟩ := (closed_block opening same start).2 granted
    rw [Nest.rejoin_base] at joined
    rw [show before.toss.size = values.length by rw [← active, Stack.toList, List.length_reverse, Stack.size]]
    exact ⟨given, shows.same_lower joined⟩

/-- A block with a block inside, in which values go down and a call is refused. -/
theorem nested_block_keeps_lower :
    let before := ((initial 2).performAll [.push 3, .push 4, .push 5]).2
    let opened := (before.push 2).perform (.beginBlock ⟨[6, 7]⟩)
    let inner : List Op :=
      [.push 1, .beginBlock ⟨[8, 9]⟩, .push (-1), .underStack, .push Int64.maxValue, .endBlock, .push 0, .endBlock]
    let within := (opened.2.performAll inner).2
    let closed := (within.push 3).perform .endBlock
    within.toss.toList = [4, 8] ∧ closed.1 = .vec ⟨[6, 7]⟩ ∧ closed.2.toss.toList = [3, 0, 4, 8] := by
  intro before opened inner within closed
  have contents : within.toss.toList = [4, 8] := by decide +kernel
  have inside : opened.2.Within opened.2.depth inner := by decide +kernel
  have level : within.depth = opened.2.depth := by decide +kernel
  have granted : ¬ closed.1.Refused := by decide +kernel
  have accepted : opened.1 = .done := by decide +kernel
  obtain ⟨given, _, _, joined⟩ := ((blocks_nest 2 .ample _ _ _ accepted).1 inner 3 inside level).2 granted
  refine ⟨contents, given, joined.trans ?_⟩
  rw [show ((opened.2.performAll inner).2).toss.toList = [4, 8] from contents]
  decide +kernel

end StackStack
end Befunge
