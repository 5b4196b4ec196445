import Befunge.Proofs.Layers

/-! What a refused block operation leaves behind. The count goes back on the active
stack, and a block that was opened is closed again. Only a refusal to leave a block
shows: it keeps the zeros that stood in for the missing part of the offset. -/

namespace Befunge.StackStack

/-- A call leaves one thing behind when it is accepted, another when it is refused. -/
def Leaves (accepted : α → StackStack → Prop) (refused : StackStack → Prop) : Except Fault α × StackStack → Prop
  | (.ok given, after) => accepted given after
  | (.error _, after) => refused after

theorem Leaves.cases {accepted : α → StackStack → Prop} {refused : StackStack → Prop}
    {call : Except Fault α × StackStack} (outcome : Leaves accepted refused call) :
    (∃ given after, call = (.ok given, after) ∧ accepted given after) ∨
      ∃ fault after, call = (.error fault, after) ∧ refused after := by
  obtain ⟨result, after⟩ := call
  cases result with
  | ok given => exact .inl ⟨given, after, rfl, outcome⟩
  | error fault => exact .inr ⟨fault, after, rfl, outcome⟩

variable {axes : Nat} {pile after : StackStack} {toss soss : Stack} {rest : List Stack} {count : Nat}

private theorem lower?_some (shows : pile.Shows axes (toss :: soss :: rest)) (moved : pile.lower? count = some after) :
    ∃ toss soss, after.Shows axes (toss :: soss :: rest) := by
  obtain ⟨⟨first, second⟩, _, rfl⟩ := Option.map_eq_some_iff.mp moved
  exact ⟨_, _, (shows.setToss first).setSoss second⟩

private theorem raise?_some (shows : pile.Shows axes (toss :: soss :: rest)) (moved : pile.raise? count = some after) :
    ∃ toss soss, after.Shows axes (toss :: soss :: rest) := by
  obtain ⟨⟨second, first⟩, _, rfl⟩ := Option.map_eq_some_iff.mp moved
  exact ⟨_, _, (shows.setToss first).setSoss second⟩

private theorem lower?_none (refused : pile.lower? count = none) : 0 < count :=
  Stack.moveOnto?_none (Option.map_eq_none_iff.mp refused)

private theorem raise?_none (refused : pile.raise? count = none) : 0 < count :=
  Stack.moveOnto?_none (Option.map_eq_none_iff.mp refused)

private theorem nonzero_of_magnitude {value : Value} (positive : 0 < value.magnitude) : value ≠ 0 := by
  rintro rfl
  exact absurd positive (by decide)

private theorem Shows.pushBack (shows : pile.Shows axes (toss.pop.2 :: rest)) (positive : 0 < toss.pop.1.magnitude) :
    (pile.push toss.pop.1).Shows axes (toss :: rest) := by
  have back := shows.push toss.pop.1
  rwa [Stack.push_pop (nonzero_of_magnitude positive)] at back

theorem beginBlock_shows (offset : Vec) (shows : pile.Shows axes (toss :: rest)) :
    Leaves (fun _ after => ∃ toss soss, after.Shows axes (toss :: soss :: rest))
      (fun after => after.Shows axes (toss :: rest)) (pile.beginBlock offset) := by
  obtain ⟨count, popped⟩ := shows.popCount
  simp only [beginBlock]
  split
  next different => exact shows
  next same =>
    rw [count]
    split
    · split
      next refused => exact popped.pushBack (Stack.pushZeros?_none refused)
      next zeros filled => exact ⟨_, _, (popped.setToss zeros).openSlot.pushVecBelow offset⟩
    · split
      · exact ⟨_, _, popped.openSlot.pushVecBelow offset⟩
      · split
        next refused => exact popped.openSlot.closeSlot.pushBack (raise?_none refused)
        next carried moved =>
          obtain ⟨toss, soss, shown⟩ := raise?_some popped.openSlot moved
          exact ⟨_, _, shown.pushVecBelow offset⟩

theorem underStack_shows (shows : pile.Shows axes (toss :: rest)) :
    Leaves (fun _ after => ∃ toss rest, after.Shows axes (toss :: rest))
      (fun after => after.Shows axes (toss :: rest)) pile.underStack := by
  simp only [underStack]
  split
  next single => exact shows
  next several =>
    cases rest with
    | nil => exact absurd shows.cursor several
    | cons soss rest =>
      obtain ⟨count, popped⟩ := shows.popCount
      rw [count]
      split
      next refused =>
        apply popped.pushBack
        split at refused
        · exact raise?_none refused
        · exact lower?_none refused
      next moved shifted =>
        split at shifted
        · obtain ⟨toss, soss, shown⟩ := raise?_some popped shifted
          exact ⟨_, _, shown⟩
        · obtain ⟨toss, soss, shown⟩ := lower?_some popped shifted
          exact ⟨_, _, shown⟩

/-- The offset comes off the second stack before the values are found to be too
many, and goes back as long as the dimension even if the stack was shorter. -/
theorem endBlock_shows (shows : pile.Shows axes (toss :: soss :: rest)) :
    Leaves (fun offset after => offset.dimension = axes ∧ ∃ soss, after.Shows axes (soss :: rest))
      (fun after => after.Shows axes (toss :: soss.padded axes :: rest)) pile.endBlock := by
  have several : pile.cursor ≠ 0 := by simp [shows.cursor]
  obtain ⟨count, popped⟩ := shows.popCount
  obtain ⟨offset, taken⟩ := popped.popVecBelow
  simp only [endBlock, several, ↓reduceIte]
  rw [count, offset]
  split
  · split
    next refused =>
      -- The offset was read with zeros for what was missing, and now they are written.
      have returned := taken.pushVecBelow ⟨(soss.popMany axes).1⟩
      rw [Stack.popMany_extend] at returned
      exact returned.pushBack (lower?_none refused)
    next carried moved =>
      obtain ⟨toss, soss, shown⟩ := lower?_some taken moved
      exact ⟨Stack.length_popMany _ _, _, shown.closeSlot⟩
  · exact ⟨Stack.length_popMany _ _, _, (taken.setSoss _).closeSlot⟩

theorem endBlock_single (shows : pile.Shows axes [toss]) : pile.endBlock = (.error { kind := .noSecondStack }, pile) := by
  simp [endBlock, shows.cursor]

def refusal (axes : Nat) : Op → List Stack → List Stack
  | .endBlock, toss :: soss :: rest => toss :: soss.padded axes :: rest
  | _, layers => layers

@[simp] theorem length_refusal (op : Op) (layers : List Stack) : (refusal axes op layers).length = layers.length := by
  unfold refusal
  split <;> rfl

/-- An operation that is not refused leaves stacks open, and one that is refused leaves
the same number of them. -/
theorem perform_shows (op : Op) (shows : pile.Shows axes (toss :: rest)) :
    (pile.perform op).2.Open axes ∧
      ∀ fault, (pile.perform op).1 = .fault fault →
        (pile.perform op).2.Shows axes (refusal axes op (toss :: rest)) := by
  have opened : pile.Open axes := ⟨toss, rest, shows⟩
  cases op with
  | push | extend | pop | popMany | discard | clear | popVec | pushVec =>
    exact ⟨opened.setToss _, fun _ refused => by cases refused⟩
  | duplicate => exact ⟨(opened.setToss _).setToss _, fun _ refused => by cases refused⟩
  | swap =>
    refine ⟨?_, fun _ refused => by cases refused⟩
    simp only [perform, swap]
    split <;> exact opened.setToss _
  | beginBlock offset =>
    obtain ⟨_, after, result, toss, soss, shown⟩ | ⟨fault, after, result, kept⟩ := (beginBlock_shows offset shows).cases
    · simp only [perform, result]
      exact ⟨⟨_, _, shown⟩, fun _ refused => by cases refused⟩
    · simp only [perform, result]
      exact ⟨⟨_, _, kept⟩, fun _ _ => kept⟩
  | underStack =>
    obtain ⟨_, after, result, shown⟩ | ⟨fault, after, result, kept⟩ := (underStack_shows shows).cases
    · simp only [perform, result]
      exact ⟨shown, fun _ refused => by cases refused⟩
    · simp only [perform, result]
      exact ⟨⟨_, _, kept⟩, fun _ _ => kept⟩
  | endBlock =>
    cases rest with
    | nil =>
      simp only [perform, endBlock_single shows]
      exact ⟨opened, fun _ _ => shows⟩
    | cons soss rest =>
      obtain ⟨offset, after, result, _, soss, shown⟩ | ⟨fault, after, result, kept⟩ := (endBlock_shows shows).cases
      · simp only [perform, result]
        exact ⟨⟨_, _, shown⟩, fun _ refused => by cases refused⟩
      · simp only [perform, result]
        exact ⟨⟨_, _, kept⟩, fun _ _ => kept⟩

theorem Open.perform (opened : pile.Open axes) (op : Op) : (pile.perform op).2.Open axes := by
  obtain ⟨toss, rest, shows⟩ := opened
  exact (perform_shows op shows).1

theorem Open.performAll (opened : pile.Open axes) (ops : List Op) : (pile.performAll ops).2.Open axes := by
  induction ops generalizing pile with
  | nil => exact opened
  | cons op ops ih => exact ih (opened.perform op)

/-- Whatever was done before, a refused operation keeps every open stack, except that
leaving a block fills up a second stack too short to hold an offset. -/
theorem refused_keeps_layers_iff (dimension : Nat) (memory : Memory) (ops : List Op) (op : Op) (fault : Fault)
    (refused : (((initial dimension memory).performAll ops).2.perform op).1 = .fault fault) :
    let before := ((initial dimension memory).performAll ops).2
    let after := (before.perform op).2
    after.depth = before.depth ∧ after.layers = refusal dimension op before.layers ∧
      (after.layers = before.layers ↔
        (op = .endBlock → ∀ soss, before.soss? = some soss → dimension ≤ soss.size)) := by
  intro before after
  obtain ⟨toss, rest, shows⟩ := Open.performAll ⟨_, _, initial_shows dimension memory⟩ ops
  have shown := (perform_shows op shows).2 fault refused
  have kept : after.layers = refusal dimension op (toss :: rest) := shown.layers
  have known : before.layers = toss :: rest := shows.layers
  have depth : after.layers.length = before.layers.length := by
    rw [kept, known, length_refusal]
  refine ⟨by simpa [layers] using depth, by rw [kept, known], ?_⟩
  rw [kept, known]
  cases op with
  | endBlock =>
    cases rest with
    | nil => simp [refusal, before, shows.single]
    | cons soss rest => simp [refusal, before, shows.second, Stack.padded_eq_self]
  | _ => simp [refusal]

/-- An offset taken from a second stack that was emptied before comes back as zeros. -/
theorem refused_end_fills_second :
    let before := ((initial 2).performAll
      [.push 0, .beginBlock ⟨[0, 0]⟩, .push 2, .underStack, .push Int64.maxValue]).2
    (before.perform .endBlock).1 = .fault { kind := .outOfMemory, message := "9223372036854775807" } ∧
      before.layers = [.ofList [0, 0, Int64.maxValue], .ofList []] ∧
      (before.perform .endBlock).2.layers = [.ofList [0, 0, Int64.maxValue], .ofList [0, 0]] := by
  decide +kernel

/-- With room for an offset below, a refusal changes nothing, however few values there is
memory for. -/
theorem refused_end_keeps_full_second :
    let before := ((initial 2 (.upTo 1)).performAll [.push 1, .push 0, .beginBlock ⟨[6, 7]⟩, .push 2]).2
    (before.perform .endBlock).1 = .fault { kind := .outOfMemory, message := "2" } ∧
      (before.perform .endBlock).2.layers = before.layers := by
  intro before
  have refused : (before.perform .endBlock).1 = .fault { kind := .outOfMemory, message := "2" } := by decide +kernel
  refine ⟨refused, (refused_keeps_layers_iff 2 (.upTo 1) _ _ _ refused).2.2.mpr ?_⟩
  intro _ soss second
  obtain rfl : soss = ⟨[7, 6, 1]⟩ := Option.some.inj (second.symm.trans (by decide +kernel))
  decide

end Befunge.StackStack
