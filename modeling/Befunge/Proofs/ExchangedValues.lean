import Befunge.Proofs.BlockScope

/-! Values that the two topmost stacks exchange. A count moves so many values up or down, and
its negative moves them back. Where the source held fewer, zeros come along, and they stay
at its bottom when the values return. -/

namespace Befunge

open StackStack (Op)

namespace Nest

/-- What two stacks hold after an exchange, the upper one first. -/
def exchanged (count : Value) (upper lower : List Value) : List Value × List Value :=
  if count < 0 then (upper.rdrop count.magnitude, lower ++ top upper count.magnitude)
  else (upper ++ top lower count.magnitude, lower.rdrop count.magnitude)

variable {count other : Value} {upper lower : List Value} {outer : List (List Value)}

theorem underStack_eq : (underStack ⟨upper ++ [count], lower :: outer⟩).2 =
    ⟨(exchanged count upper lower).1, (exchanged count upper lower).2 :: outer⟩ := by
  simp only [underStack, exchanged, List.getLastD_concat, List.dropLast_concat]
  split <;> rfl

theorem exchanged_back (opposite : other.toInt = -count.toInt) :
    exchanged other (exchanged count upper lower).1 (exchanged count upper lower).2 =
      (List.replicate (-count.toInt - upper.length).toNat 0 ++ upper,
        List.replicate (count.toInt - lower.length).toNat 0 ++ lower) := by
  have same : other.magnitude = count.magnitude := by
    rw [Value.magnitude, opposite, Int.natAbs_neg]
    rfl
  have size : count.magnitude = count.toInt.natAbs := rfl
  simp only [exchanged, same, Int64.lt_iff_toInt_lt, opposite, Int64.toInt_zero]
  rcases Int.lt_trichotomy count.toInt 0 with negative | zero | positive
  · have none : (count.toInt - lower.length).toNat = 0 := by omega
    have missing : (-count.toInt - upper.length).toNat = count.magnitude - upper.length := by omega
    obtain ⟨returned, kept⟩ := top_append lower (length_top upper count.magnitude)
    rw [if_pos negative, if_neg (Int.lt_asymm (Int.neg_pos_of_neg negative)), none, missing, returned, kept, rdrop_append_top]
    rfl
  · have nothing : count.magnitude = 0 := by omega
    simp [zero, nothing, top]
  · have none : (-count.toInt - upper.length).toNat = 0 := by omega
    have missing : (count.toInt - lower.length).toNat = count.magnitude - lower.length := by omega
    obtain ⟨returned, kept⟩ := top_append upper (length_top lower count.magnitude)
    rw [if_neg (Int.lt_asymm positive), if_pos (Int.neg_neg_of_pos positive), none, missing, returned, kept, rdrop_append_top]
    rfl

theorem length_target (opposite : other.toInt = -count.toInt) :
    (if 0 < other then (exchanged count upper lower).1.length else (exchanged count upper lower).2.length) =
      if count < 0 then upper.length - count.magnitude else lower.length - count.magnitude := by
  have turned : 0 < other ↔ count < 0 := by
    simp only [Int64.lt_iff_toInt_lt, opposite, Int64.toInt_zero]
    omega
  simp only [turned, exchanged]
  split <;> simp [List.rdrop]

end Nest

namespace StackStack

variable {axes : Nat} {pile : StackStack} {upper lower : List Value} {outer : List (List Value)}

theorem exchange_shows (count : Value) (shows : pile.Shows axes (Nest.layers ⟨upper, lower :: outer⟩)) :
    (((pile.push count).perform .underStack).1 = .done ↔
        pile.Room (if 0 < count then upper.length else lower.length) count.magnitude) ∧
      (((pile.push count).perform .underStack).1 = .done →
        ((pile.push count).perform .underStack).2.Shows axes
          (Nest.layers ⟨(Nest.exchanged count upper lower).1, (Nest.exchanged count upper lower).2 :: outer⟩)) := by
  have outcome := underStack_nest (shows.pushNest count)
  rw [Nest.underStack_eq, List.getLastD_concat, List.dropLast_concat] at outcome
  obtain ⟨fault, after, result, overfull, _⟩ | ⟨after, result, fits, shown⟩ := outcome.cases
  · simp only [perform, result]
    exact ⟨iff_of_false (fun same => by cases same) overfull, fun same => by cases same⟩
  · simp only [perform, result]
    exact ⟨iff_of_true trivial fits, fun _ => shown⟩

/-- An exchange moves as many values as its count says, in their order, with zeros below them
where there are fewer. The opposite count takes them back, so that nothing has changed in the
end but for the zeros, which the source of the first exchange keeps at its bottom. Both are made
if there is memory for the stack that grows. The least value has no opposite. -/
theorem exchange_undone (dimension : Nat) (memory : Memory) (earlier : List Op) (count : Value) (second : Stack) :
    let before := ((initial dimension memory).performAll earlier).2
    let once := (before.push count).perform .underStack
    let twice := (once.2.push (-count)).perform .underStack
    let size := count.magnitude
    let zeros (missing : Int) := List.replicate missing.toNat 0
    before.soss? = some second →
      (once.1 = .done ↔ before.Room (if 0 < count then before.toss.size else second.size) size) ∧
      (once.1 = .done → ∃ others, before.layers = before.toss :: second :: others ∧
        (0 < count → once.2.layers =
          .ofList (before.toss.toList ++ Nest.top second.toList size) :: .ofList (second.toList.rdrop size) :: others) ∧
        (count < 0 → once.2.layers =
          .ofList (before.toss.toList.rdrop size) :: .ofList (second.toList ++ Nest.top before.toss.toList size) :: others) ∧
        (count ≠ Int64.minValue →
          (twice.1 = .done ↔ once.2.Room (if count < 0 then before.toss.size - size else second.size - size) size) ∧
          (twice.1 = .done → twice.2.depth = before.depth ∧ twice.2.layers =
            .ofList (zeros (-count.toInt - before.toss.size) ++ before.toss.toList) ::
              .ofList (zeros (count.toInt - second.size) ++ second.toList) :: others))) := by
  intro before once twice size zeros below
  obtain ⟨⟨upper, outer⟩, shows⟩ := Open.shows (Open.performAll ⟨_, _, initial_shows dimension memory⟩ earlier)
  have toss : before.toss = .ofList upper := shows.active
  obtain ⟨lower, others, rfl⟩ : ∃ lower others, outer = lower :: others := by
    cases outer with
    | nil => cases (Shows.single shows).symm.trans below
    | cons lower others => exact ⟨lower, others, rfl⟩
  obtain rfl : .ofList lower = second := Option.some.inj ((Shows.second shows).symm.trans below)
  obtain ⟨granted, exchanged⟩ := exchange_shows count shows
  rw [toss, Stack.toList_ofList, Stack.toList_ofList, Stack.size_ofList, Stack.size_ofList]
  refine ⟨granted, fun done => ⟨others.map Stack.ofList, shows.layers, ?_, ?_, ?_⟩⟩
  · intro positive
    rw [(exchanged done).layers, Nest.exchanged, if_neg (Int64.lt_asymm positive)]
    rfl
  · intro negative
    rw [(exchanged done).layers, Nest.exchanged, if_pos negative]
    rfl
  · intro invertible
    have opposite : (-count).toInt = -count.toInt :=
      BitVec.toInt_neg_of_ne_intMin fun least => invertible (Int64.toBitVec_inj.mp least)
    have same : (-count).magnitude = size := by
      rw [Value.magnitude, opposite, Int.natAbs_neg]
      rfl
    obtain ⟨again, returned⟩ := exchange_shows (-count) (exchanged done)
    rw [Nest.length_target opposite, same] at again
    refine ⟨again, fun done => ?_⟩
    have shown := returned done
    rw [Nest.exchanged_back opposite] at shown
    exact ⟨shown.depthNest.trans shows.depthNest.symm, shown.layers⟩

/-- Five values are moved up from a stack of three, and five down again. -/
theorem short_source_gains_zeros :
    let before := ((initial 1).performAll [.push 5, .push 6, .push 0, .beginBlock ⟨[7]⟩, .push 9]).2
    let once := (before.push 5).perform .underStack
    let twice := (once.2.push (-5)).perform .underStack
    before.layers = [.ofList [9], .ofList [5, 6, 7]] ∧ once.2.layers = [.ofList [9, 0, 0, 5, 6, 7], .ofList []] ∧
      twice.2.layers = [.ofList [9], .ofList [0, 0, 5, 6, 7]] := by
  intro before once twice
  have second : before.soss? = some (.ofList [5, 6, 7]) := by decide +kernel
  have toss : before.toss = .ofList [9] := by decide +kernel
  have all : before.layers = [.ofList [9], .ofList [5, 6, 7]] := by decide +kernel
  have done : once.1 = .done := by decide +kernel
  have back : twice.1 = .done := by decide +kernel
  obtain ⟨others, layers, raised, _, undone⟩ := (exchange_undone 1 .ample _ 5 _ second).2 done
  obtain ⟨_, returned⟩ := (undone (by decide)).2 back
  obtain rfl : [] = others := (List.cons.inj (List.cons.inj (all.symm.trans layers)).2).2
  refine ⟨all, (raised (by decide)).trans ?_, returned.trans ?_⟩
  · rw [show ((initial 1).performAll _).2.toss = _ from toss]
    rfl
  · rw [show ((initial 1).performAll _).2.toss = _ from toss]
    rfl

end StackStack
end Befunge
