import Mathlib.Data.List.Forall2
import Befunge.Proofs.Nests

/-! Endless zeros. No operation can tell how many zeros a stack holds at its bottom: on two
stacks of stacks that differ in nothing else, the same operations give the same replies,
and leave them differing in nothing else again. -/

namespace Befunge

open StackStack (Op Reply)

/-- Two stacks that differ at most in zeros at the bottom. -/
def Stack.Agrees (stack other : Stack) : Prop :=
  ∃ count more, List.replicate count 0 ++ stack.toList = List.replicate more 0 ++ other.toList

namespace Nest

/-- What lies at each depth below the top, with zeros all the way down. -/
def deep (values : List Value) (depth : Nat) : Value :=
  values.reverse.getD depth 0

variable {axes : Nat} {values others below beneath : List Value}

theorem deep_append (values pushed : List Value) (depth : Nat) :
    deep (values ++ pushed) depth =
      if depth < pushed.length then deep pushed depth else deep values (depth - pushed.length) := by
  simp only [deep, List.reverse_append, List.getD_eq_getElem?_getD, List.getElem?_append, List.length_reverse]
  split <;> rfl

theorem deep_rdrop (values : List Value) (count depth : Nat) :
    deep (values.rdrop count) depth = deep values (count + depth) := by
  simp [deep, List.rdrop_eq_reverse_drop_reverse, List.getD_eq_getElem?_getD]

theorem deep_zeros (count : Nat) (values : List Value) : deep (List.replicate count 0 ++ values) = deep values := by
  funext depth
  rw [deep_append]
  split
  next => rfl
  next past =>
    have none : deep values depth = 0 := by simp [deep, List.getD_eq_getElem?_getD, Nat.le_of_not_lt past]
    rw [none]
    simp only [deep, List.reverse_replicate, List.getD_eq_getElem?_getD, List.getElem?_replicate]
    split <;> rfl

theorem getLastD_eq_deep (values : List Value) : values.getLastD 0 = deep values 0 := by
  rcases List.eq_nil_or_concat' values with rfl | ⟨rest, value, rfl⟩
  · rfl
  · simp [deep]

theorem top_eq_deep (values : List Value) (count : Nat) :
    top values count = ((List.range count).map (deep values)).reverse := by
  have turned : (top values count).reverse = (List.range count).map (deep values) := by
    simp only [top, List.reverse_append, List.reverse_replicate, List.rtake_eq_reverse_take_reverse,
      List.reverse_reverse]
    apply List.ext_getElem
    · simp
      omega
    · intro depth first second
      simp only [List.getElem_append, List.getElem_take, List.getElem_replicate, List.getElem_map, List.getElem_range,
        deep, List.getD_eq_getElem?_getD]
      split
      next held =>
        rw [List.length_take] at held
        rw [List.getElem?_eq_getElem (by omega), Option.getD_some]
      next past =>
        rw [List.length_take] at past
        rw [List.length_map, List.length_range] at second
        rw [List.getElem?_eq_none (by omega), Option.getD_none]
  rw [← turned, List.reverse_reverse]

theorem append_agrees (same : deep values = deep others) (pushed : List Value) :
    deep (values ++ pushed) = deep (others ++ pushed) := by
  funext depth
  rw [deep_append, deep_append, same]

theorem rdrop_agrees (same : deep values = deep others) (count : Nat) :
    deep (values.rdrop count) = deep (others.rdrop count) := by
  funext depth
  rw [deep_rdrop, deep_rdrop, same]

theorem top_agrees (same : deep values = deep others) (count : Nat) : top values count = top others count := by
  rw [top_eq_deep, top_eq_deep, same]

theorem last_agrees (same : deep values = deep others) : values.getLastD 0 = others.getLastD 0 := by
  rw [getLastD_eq_deep, getLastD_eq_deep, same]

theorem dropLast_agrees (same : deep values = deep others) : deep values.dropLast = deep others.dropLast := by
  have one (values : List Value) : values.dropLast = values.rdrop 1 := by
    rw [List.rdrop, List.dropLast_eq_take]
  rw [one, one]
  exact rdrop_agrees same 1

/-- The exchange of the top two values, which takes one of them for a zero when there are
fewer. -/
theorem deep_swap (values : List Value) (depth : Nat) :
    deep (if values.length < 2 then values ++ [0] else values.rdrop 2 ++ (values.rtake 2).reverse) depth =
      match depth with
      | 0 => deep values 1
      | 1 => deep values 0
      | depth + 2 => deep values (depth + 2) := by
  rcases List.eq_nil_or_concat' values with rfl | ⟨front, two, rfl⟩
  · rcases depth with _ | _ | depth <;> rfl
  · rcases List.eq_nil_or_concat' front with rfl | ⟨front, one, rfl⟩
    · rcases depth with _ | _ | depth <;> rfl
    · have long : ¬ (front ++ [one] ++ [two]).length < 2 := by simp
      have kept : (front ++ [one] ++ [two]).rdrop 2 = front := by simp [List.rdrop]
      have moved : (front ++ [one] ++ [two]).rtake 2 = [one, two] := by simp [List.rtake]
      rw [if_neg long, kept, moved]
      rcases depth with _ | _ | depth
      · simp [deep]
      · simp [deep]
      · simp [deep]

theorem swap_agrees (same : deep values = deep others) :
    deep (if values.length < 2 then values ++ [0] else values.rdrop 2 ++ (values.rtake 2).reverse) =
      deep (if others.length < 2 then others ++ [0] else others.rdrop 2 ++ (others.rtake 2).reverse) := by
  funext depth
  rw [deep_swap, deep_swap, same]

structure Agrees (nest other : Nest) : Prop where
  active : deep nest.active = deep other.active
  outer : nest.outer.map deep = other.outer.map deep

variable {nest other : Nest}

theorem beginBlock_agrees (agrees : nest.Agrees other) (offset : Vec) :
    (nest.beginBlock offset).Agrees (other.beginBlock offset) := by
  have below := dropLast_agrees agrees.active
  simp only [beginBlock, last_agrees agrees.active]
  generalize other.active.getLastD 0 = count
  constructor
  · simp only [carried]
    split
    · rfl
    · rw [top_agrees below]
  · have left : deep (base nest.active.dropLast count) = deep (base other.active.dropLast count) := by
      simp only [base]
      split
      · exact append_agrees below _
      · exact rdrop_agrees below _
    simp only [List.map_cons, agrees.outer, append_agrees left]

theorem endBlock_agrees (agrees : nest.Agrees other) :
    (nest.endBlock axes).1 = (other.endBlock axes).1 ∧ (nest.endBlock axes).2.Agrees (other.endBlock axes).2 := by
  obtain ⟨active, outer⟩ := nest
  obtain ⟨second, others⟩ := other
  obtain ⟨same, around⟩ := agrees
  cases outer with
  | nil =>
    obtain rfl : others = [] := by simpa using around.symm
    exact ⟨rfl, same, rfl⟩
  | cons below outer =>
    cases others with
    | nil => simp at around
    | cons beneath others =>
      obtain ⟨here, around⟩ := List.cons.inj around
      refine ⟨?_, ?_, around⟩
      · simp only [endBlock, top_agrees here]
      · have left := rdrop_agrees here axes
        simp only [endBlock, rejoin, last_agrees same]
        split
        · exact rdrop_agrees left _
        · rw [top_agrees (dropLast_agrees same)]
          exact append_agrees left _

theorem underStack_agrees (agrees : nest.Agrees other) :
    nest.underStack.1 = other.underStack.1 ∧ nest.underStack.2.Agrees other.underStack.2 := by
  obtain ⟨active, outer⟩ := nest
  obtain ⟨second, others⟩ := other
  obtain ⟨same, around⟩ := agrees
  cases outer with
  | nil =>
    obtain rfl : others = [] := by simpa using around.symm
    exact ⟨rfl, same, rfl⟩
  | cons below outer =>
    cases others with
    | nil => simp at around
    | cons beneath others =>
      obtain ⟨here, around⟩ := List.cons.inj around
      have rest := dropLast_agrees same
      simp only [underStack, last_agrees same]
      generalize second.getLastD 0 = count
      refine ⟨trivial, ?_⟩
      split
      · refine ⟨rdrop_agrees rest _, ?_⟩
        rw [top_agrees rest]
        simp only [List.map_cons, around, append_agrees here]
      · refine ⟨?_, ?_⟩
        · rw [top_agrees here]
          exact append_agrees rest _
        · simp only [List.map_cons, around, rdrop_agrees here]

theorem perform_agrees (agrees : nest.Agrees other) (op : Op) :
    (nest.perform axes op).1 = (other.perform axes op).1 ∧
      (nest.perform axes op).2.Agrees (other.perform axes op).2 := by
  have same := agrees.active
  have around := agrees.outer
  cases op with
  | push | extend | pushVec => exact ⟨rfl, append_agrees same _, around⟩
  | pop => exact ⟨congrArg Reply.value (last_agrees same), dropLast_agrees same, around⟩
  | discard => exact ⟨rfl, dropLast_agrees same, around⟩
  | popMany count => exact ⟨congrArg Reply.values (top_agrees same count), rdrop_agrees same count, around⟩
  | popVec =>
    refine ⟨?_, rdrop_agrees same axes, around⟩
    simp only [perform, top_agrees same]
  | duplicate =>
    refine ⟨rfl, ?_, around⟩
    simp only [perform, last_agrees same]
    exact append_agrees (dropLast_agrees same) _
  | swap => exact ⟨rfl, swap_agrees same, around⟩
  | clear => exact ⟨rfl, rfl, around⟩
  | beginBlock offset =>
    simp only [perform]
    split
    · exact ⟨rfl, beginBlock_agrees agrees offset⟩
    · exact ⟨rfl, agrees⟩
  | endBlock => exact endBlock_agrees agrees
  | underStack => exact underStack_agrees agrees

theorem performAll_agrees (agrees : nest.Agrees other) (ops : List Op) :
    (nest.performAll axes ops).1 = (other.performAll axes ops).1 ∧
      (nest.performAll axes ops).2.Agrees (other.performAll axes ops).2 := by
  induction ops generalizing nest other with
  | nil => exact ⟨rfl, agrees⟩
  | cons op ops ih =>
    obtain ⟨reply, next⟩ := @perform_agrees axes nest other agrees op
    obtain ⟨replies, last⟩ := ih next
    exact ⟨congrArg₂ List.cons reply replies, last⟩

end Nest

namespace Stack

variable {stack other : Stack}

theorem agrees_iff : stack.Agrees other ↔ Nest.deep stack.toList = Nest.deep other.toList := by
  constructor
  · rintro ⟨count, more, same⟩
    rw [← Nest.deep_zeros count, same, Nest.deep_zeros]
  · intro same
    -- Each gets as many zeros as the other has values more.
    refine ⟨other.toList.length - stack.toList.length, stack.toList.length - other.toList.length, ?_⟩
    rw [← Nest.deep_zeros (other.toList.length - stack.toList.length), eq_comm,
      ← Nest.deep_zeros (stack.toList.length - other.toList.length), eq_comm] at same
    rw [← List.reverse_inj]
    apply List.ext_getElem
    · simp
      omega
    · intro depth first second
      have here := congrFun same depth
      simpa only [Nest.deep, List.getD_eq_getElem?_getD, List.getElem?_eq_getElem first,
        List.getElem?_eq_getElem second, Option.getD_some] using here

end Stack

namespace StackStack

/-- Two stacks of stacks of the same depth that differ at most in zeros at the bottom of each
stack. -/
def Agrees (pile other : StackStack) : Prop :=
  List.Forall₂ Stack.Agrees pile.layers other.layers

variable {axes : Nat} {pile other : StackStack} {nest around : Nest}

theorem Shows.agrees_iff (shows : pile.Shows axes nest.layers) (also : other.Shows axes around.layers) :
    pile.Agrees other ↔ nest.Agrees around := by
  have outer (first second : List (List Value)) :
      List.Forall₂ Stack.Agrees (first.map Stack.ofList) (second.map Stack.ofList) ↔
        first.map Nest.deep = second.map Nest.deep := by
    simp only [List.forall₂_map_left_iff, List.forall₂_map_right_iff, Stack.agrees_iff, Stack.toList_ofList,
      ← List.forall₂_eq_eq_eq]
  rw [Agrees, shows.layers, also.layers, Nest.layers, Nest.layers, List.forall₂_cons, outer, Stack.agrees_iff,
    Stack.toList_ofList, Stack.toList_ofList]
  exact ⟨fun both => ⟨both.1, both.2⟩, fun both => ⟨both.active, both.outer⟩⟩

/-- Whatever zeros lie at the bottom of their stacks, two stacks of stacks reply the same to
the same operations and differ in nothing but such zeros afterwards, as long as each of them
finds the memory that it asks for. -/
theorem zeros_untold (opened : pile.Open axes) (also : other.Open axes) (agrees : pile.Agrees other) (ops : List Op)
    (fitting : ∀ reply ∈ (pile.performAll ops).1, ¬ reply.Overfull)
    (alsoFitting : ∀ reply ∈ (other.performAll ops).1, ¬ reply.Overfull) :
    (pile.performAll ops).1 = (other.performAll ops).1 ∧
      (pile.performAll ops).2.Agrees (other.performAll ops).2 := by
  obtain ⟨nest, shows⟩ := Open.shows opened
  obtain ⟨around, shown⟩ := Open.shows also
  obtain ⟨replies, last⟩ := performAll_nest ops shows fitting
  obtain ⟨others, final⟩ := performAll_nest ops shown alsoFitting
  obtain ⟨same, left⟩ := Nest.performAll_agrees ((shows.agrees_iff shown).mp agrees) ops
  refine ⟨?_, (last.agrees_iff final).mpr left⟩
  rw [replies, others, same]

/-- An empty stack and one of two zeros, on stacks of which one has a zero more, answer
alike while values go up and down between them. -/
theorem padded_block_untold :
    let bare := ((initial 2).performAll [.push 7, .push 0, .beginBlock ⟨[5, 6]⟩]).2
    let padded := ((initial 2).performAll [.extend [0, 7, 0], .beginBlock ⟨[5, 6]⟩, .extend [0, 0]]).2
    let ops : List Op :=
      [.swap, .duplicate, .push 4, .underStack, .popMany 3, .push (-2), .underStack, .push 9, .push 2, .endBlock,
        .popMany 5]
    (bare.toss ≠ padded.toss ∧ bare.soss? ≠ padded.soss?) ∧
      (bare.performAll ops).1 = (padded.performAll ops).1 ∧
      (bare.performAll ops).2.Agrees (padded.performAll ops).2 := by
  intro bare padded ops
  have opened : bare.Open 2 := Open.performAll ⟨_, _, initial_shows 2 _⟩ _
  have also : padded.Open 2 := Open.performAll ⟨_, _, initial_shows 2 _⟩ _
  have agrees : bare.Agrees padded := by
    have below : bare.layers = [.ofList [], .ofList [7, 5, 6]] := by decide +kernel
    have beneath : padded.layers = [.ofList [0, 0], .ofList [0, 7, 5, 6]] := by decide +kernel
    rw [Agrees, below, beneath]
    exact .cons ⟨2, 0, rfl⟩ (.cons ⟨1, 0, rfl⟩ .nil)
  have fitting : ∀ reply ∈ (bare.performAll ops).1, ¬ reply.Overfull := by decide +kernel
  have alsoFitting : ∀ reply ∈ (padded.performAll ops).1, ¬ reply.Overfull := by decide +kernel
  exact ⟨by decide +kernel, zeros_untold opened also agrees ops fitting alsoFitting⟩

end StackStack
end Befunge
