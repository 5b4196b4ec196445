import Mathlib.Data.List.DropRight
import Befunge.Proofs.RefusedBlocks

/-! The stack of stacks without slots and cursor: a list of stacks that is never empty,
each the list of its values with the bottom first. Whatever the slots are used for, they
answer as this list does, unless a stack cannot grow as far as it is asked to. -/

namespace Befunge

open StackStack (Op Reply)

/-- The active stack, and those around it from the inside out. -/
structure Nest where
  active : List Value
  outer : List (List Value)

namespace Nest

def initial : Nest :=
  ⟨[], []⟩

def depth (nest : Nest) : Nat :=
  nest.outer.length + 1

/-- The topmost values, with zeros below them when there are fewer. -/
def top (values : List Value) (count : Nat) : List Value :=
  List.replicate (count - values.length) 0 ++ values.rtake count

/-- What is left of a stack when a block is opened. -/
def base (values : List Value) (count : Value) : List Value :=
  if count < 0 then values ++ List.replicate count.magnitude 0 else values.rdrop count.magnitude

/-- What a new block starts with. -/
def carried (values : List Value) (count : Value) : List Value :=
  if count < 0 then [] else top values count.magnitude

/-- What comes out of a stack when a block is left that held these values. -/
def rejoin (values inner : List Value) (count : Value) : List Value :=
  if count < 0 then values.rdrop count.magnitude else values ++ top inner count.magnitude

def beginBlock (nest : Nest) (offset : Vec) : Nest :=
  let count := nest.active.getLastD 0
  let values := nest.active.dropLast
  { active := carried values count
    outer := (base values count ++ offset.components) :: nest.outer }

def endBlock (axes : Nat) (nest : Nest) : Reply × Nest :=
  match nest.outer with
  | [] => (.fault { kind := .noSecondStack }, nest)
  | below :: outer =>
    let active := rejoin (below.rdrop axes) nest.active.dropLast (nest.active.getLastD 0)
    (.vec ⟨top below axes⟩, { active, outer })

def underStack (nest : Nest) : Reply × Nest :=
  match nest.outer with
  | [] => (.fault { kind := .noSecondStack }, nest)
  | below :: outer =>
    let count := nest.active.getLastD 0
    let values := nest.active.dropLast
    let size := count.magnitude
    (.done,
      if count < 0 then { active := values.rdrop size, outer := (below ++ top values size) :: outer }
      else { active := values ++ top below size, outer := below.rdrop size :: outer })

def perform (axes : Nat) (nest : Nest) : Op → Reply × Nest
  | .push value => (.done, { nest with active := nest.active ++ [value] })
  | .extend pushed => (.done, { nest with active := nest.active ++ pushed })
  | .pop => (.value (nest.active.getLastD 0), { nest with active := nest.active.dropLast })
  | .popMany count => (.values (top nest.active count), { nest with active := nest.active.rdrop count })
  | .duplicate =>
    let value := nest.active.getLastD 0
    (.done, { nest with active := nest.active.dropLast ++ [value, value] })
  | .discard => (.done, { nest with active := nest.active.dropLast })
  | .swap =>
    let active :=
      if nest.active.length < 2 then nest.active ++ [0] else nest.active.rdrop 2 ++ (nest.active.rtake 2).reverse
    (.done, { nest with active })
  | .clear => (.done, { nest with active := [] })
  | .popVec => (.vec ⟨top nest.active axes⟩, { nest with active := nest.active.rdrop axes })
  | .pushVec v => (.done, { nest with active := nest.active ++ v.components })
  | .beginBlock offset =>
    if offset.dimension = axes then (.done, nest.beginBlock offset)
    else
      (.fault {
        kind := .dimensionMismatch
        message := toString offset.dimension ++ " given, " ++ toString axes ++ " expected" }, nest)
  | .endBlock => nest.endBlock axes
  | .underStack => nest.underStack

def performAll (axes : Nat) (nest : Nest) : List Op → List Reply × Nest
  | [] => ([], nest)
  | op :: ops =>
    let (reply, nest) := nest.perform axes op
    let (replies, nest) := nest.performAll axes ops
    (reply :: replies, nest)

/-- The stacks after one of them could not grow as far as it was asked to. By then the
leaving of a block has filled up the stack below. -/
def refused (axes : Nat) (nest : Nest) : Op → Nest
  | .endBlock =>
    match nest.outer with
    | [] => nest
    | below :: outer => { nest with outer := (List.replicate (axes - below.length) 0 ++ below) :: outer }
  | _ => nest

/-- The stacks as they lie in slots. -/
def layers (nest : Nest) : List Stack :=
  Stack.ofList nest.active :: nest.outer.map Stack.ofList

end Nest

namespace Stack

variable (values pushed : List Value) (count : Nat)

@[simp] theorem toList_ofList : (ofList values).toList = values :=
  List.reverse_reverse values

@[simp] theorem ofList_toList (stack : Stack) : ofList stack.toList = stack := by
  simp [ofList, toList]

theorem push_ofList (value : Value) : (ofList values).push value = ofList (values ++ [value]) := by
  simp [ofList, push]

theorem extend_ofList : (ofList values).extend pushed = ofList (values ++ pushed) := by
  simp [ofList, extend]

theorem pop_ofList : (ofList values).pop = (values.getLastD 0, ofList values.dropLast) := by
  rcases List.eq_nil_or_concat' values with rfl | ⟨rest, value, rfl⟩
  · rfl
  · simp [ofList, pop]

theorem drop_ofList : (ofList values).drop count = ofList (values.rdrop count) := by
  simp [ofList, drop, List.rdrop_eq_reverse_drop_reverse]

theorem popMany_ofList : (ofList values).popMany count = (Nest.top values count, ofList (values.rdrop count)) := by
  simp [ofList, popMany, size, Nest.top, List.rdrop_eq_reverse_drop_reverse, List.rtake_eq_reverse_take_reverse]

theorem popTwo_ofList (one two : Value) : (ofList (values ++ [one, two])).popTwo = ((one, two), ofList values) := by
  simp [ofList, popTwo, pop]

theorem padded_ofList : (ofList values).padded count = ofList (List.replicate (count - values.length) 0 ++ values) := by
  simp [ofList, padded, size]

@[simp] theorem size_ofList : (ofList values).size = values.length :=
  List.length_reverse

theorem moveOnto?_ofList (target : List Value) (memory : Memory) :
    (ofList values).moveOnto? (ofList target) count memory =
      if memory.grants target.length count then
        some (ofList (values.rdrop count), ofList (target ++ Nest.top values count))
      else none := by
  simp only [moveOnto?, size_ofList, popMany_ofList, extend_ofList]

theorem pushZeros?_ofList (memory : Memory) :
    (ofList values).pushZeros? count memory =
      if memory.grants values.length count then some (ofList (values ++ List.replicate count 0)) else none := by
  rw [pushZeros?, size_ofList]
  simp [ofList]

end Stack

namespace StackStack

variable {axes : Nat} {pile : StackStack} {nest : Nest}

theorem Shows.countNest (shows : pile.Shows axes nest.layers) :
    pile.popCount.1 = nest.active.getLastD 0 ∧
      pile.popCount.2.Shows axes (Stack.ofList nest.active.dropLast :: nest.outer.map Stack.ofList) := by
  have popped := Shows.popCount shows
  rwa [Stack.pop_ofList] at popped

theorem Shows.activeNest (shows : pile.Shows axes nest.layers) : pile.toss.toList = nest.active := by
  rw [Shows.active shows, Stack.toList_ofList]

theorem Shows.depthNest (shows : pile.Shows axes nest.layers) : pile.depth = nest.depth := by
  simpa [StackStack.depth, Nest.layers, Nest.depth] using shows.depth.symm

theorem Shows.secondNest (shows : pile.Shows axes nest.layers) : pile.soss?.map Stack.toList = nest.outer.head? := by
  obtain ⟨active, outer⟩ := nest
  cases outer with
  | nil => simp [Shows.single shows]
  | cons below outer => simp [Shows.second shows]

variable {active below : List Value} {outer : List (List Value)} {rest : List Stack}

/-- Whether there is memory for the next block operation to add values to a stack of some size. -/
def Room (pile : StackStack) (size count : Nat) : Prop :=
  pile.memory.pass.grants size count = true

instance (pile : StackStack) (size count : Nat) : Decidable (pile.Room size count) :=
  inferInstanceAs (Decidable (_ = true))

private theorem lower?_ofList (count : Nat) (shows : pile.Shows axes (.ofList active :: .ofList below :: rest)) :
    (∃ after, pile.lower? count = some after ∧ pile.memory.grants below.length count = true ∧
        after.Shows axes (.ofList (active.rdrop count) :: .ofList (below ++ Nest.top active count) :: rest)) ∨
      pile.lower? count = none ∧ ¬ pile.memory.grants below.length count = true := by
  simp only [lower?, shows.active, shows.below, Stack.moveOnto?_ofList]
  split
  next fits => exact .inl ⟨_, rfl, fits, (shows.setToss _).setSoss _⟩
  next overfull => exact .inr ⟨rfl, overfull⟩

private theorem raise?_ofList (count : Nat) (shows : pile.Shows axes (.ofList active :: .ofList below :: rest)) :
    (∃ after, pile.raise? count = some after ∧ pile.memory.grants active.length count = true ∧
        after.Shows axes (.ofList (active ++ Nest.top below count) :: .ofList (below.rdrop count) :: rest)) ∨
      pile.raise? count = none ∧ ¬ pile.memory.grants active.length count = true := by
  simp only [raise?, shows.active, shows.below, Stack.moveOnto?_ofList]
  split
  next fits => exact .inl ⟨_, rfl, fits, (shows.setToss _).setSoss _⟩
  next overfull => exact .inr ⟨rfl, overfull⟩

private theorem nonpositive {count : Value} (negative : ¬ count < 0) (other : ¬ 0 < count) : count = 0 := by
  rw [Int64.lt_iff_toInt_lt] at negative other
  rw [← Int64.toInt_inj]
  simp only [Int64.toInt_zero] at *
  omega

/-- A call that fits gives this and leaves these stacks, and one that does not is
refused. -/
def Answers (axes : Nat) (fits : Prop) (given : α) (nest : Nest) : Except Fault α × StackStack → Prop
  | (.ok result, after) => fits ∧ result = given ∧ after.Shows axes nest.layers
  | (.error fault, _) => ¬ fits ∧ fault.kind = .outOfMemory

theorem Answers.cases {fits : Prop} {given : α} {call : Except Fault α × StackStack}
    (outcome : Answers axes fits given nest call) :
    (∃ fault after, call = (.error fault, after) ∧ ¬ fits ∧ fault.kind = .outOfMemory) ∨
      ∃ after, call = (.ok given, after) ∧ fits ∧ after.Shows axes nest.layers := by
  obtain ⟨result, after⟩ := call
  cases result with
  | ok result =>
    obtain ⟨fits, rfl, shown⟩ := outcome
    exact .inr ⟨after, rfl, fits, shown⟩
  | error fault => exact .inl ⟨fault, after, rfl, outcome⟩

theorem beginBlock_nest {offset : Vec} (same : offset.dimension = axes) (shows : pile.Shows axes nest.layers) :
    Answers axes
      (pile.Room (if nest.active.getLastD 0 < 0 then nest.active.dropLast.length else 0) (nest.active.getLastD 0).magnitude) ()
      (nest.beginBlock offset) (pile.beginBlock offset) := by
  obtain ⟨count, popped⟩ := shows.countNest
  simp only [beginBlock, shows.dimension, same, ne_eq, not_true_eq_false, ↓reduceIte, count, Nest.beginBlock, Nest.carried,
    Nest.base, Room]
  clear count
  generalize nest.active.getLastD 0 = count
  generalize nest.active.dropLast = values at *
  -- The slots treat a zero count apart, the list of stacks only a negative one.
  split
  next negative =>
    rw [popped.active, Stack.pushZeros?_ofList]
    by_cases fits : pile.popCount.2.memory.grants values.length count.magnitude = true
    · have filled := popped.setToss (.ofList (values ++ List.replicate count.magnitude 0))
      have offered := filled.openSlot.pushVecBelow offset
      rw [Stack.extend_ofList] at offered
      rw [if_pos fits]
      exact ⟨fits, rfl, offered⟩
    · rw [if_neg fits]
      exact ⟨fits, rfl⟩
  next positive =>
    have opened : pile.popCount.2.openSlot.Shows axes (Stack.ofList [] :: _) := popped.openSlot
    split
    next zero =>
      have offered := opened.pushVecBelow offset
      rw [Stack.extend_ofList] at offered
      subst zero
      refine ⟨Memory.grants_nothing _ _, rfl, ?_⟩
      simpa [Nest.layers, Nest.top, Value.magnitude] using offered
    next other =>
      obtain ⟨carried, result, fits, shown⟩ | ⟨result, overfull⟩ := raise?_ofList count.magnitude opened
      · have offered := shown.pushVecBelow offset
        rw [Stack.extend_ofList] at offered
        rw [result]
        exact ⟨fits, rfl, offered⟩
      · rw [result]
        exact ⟨overfull, rfl⟩

theorem endBlock_nest (shows : pile.Shows axes (Nest.layers ⟨active, below :: outer⟩)) :
    Answers axes (0 < active.getLastD 0 → pile.Room (below.rdrop axes).length (active.getLastD 0).magnitude)
      ⟨Nest.top below axes⟩ (Nest.endBlock axes ⟨active, below :: outer⟩).2 pile.endBlock := by
  have several : pile.cursor ≠ 0 := by simp [shows.cursor]
  obtain ⟨count, popped⟩ := shows.countNest
  obtain ⟨offset, taken⟩ := Shows.popVecBelow popped
  rw [Stack.popMany_ofList] at offset taken
  simp only [endBlock, several, ↓reduceIte, count, offset, Nest.endBlock] at *
  generalize active.getLastD 0 = count at *
  generalize active.dropLast = values at *
  split
  next positive =>
    obtain ⟨carried, result, fits, shown⟩ | ⟨result, overfull⟩ := lower?_ofList count.magnitude taken
    · rw [result, Nest.rejoin, if_neg (Int64.lt_asymm positive)]
      exact ⟨fun _ => fits, rfl, shown.closeSlot⟩
    · rw [result]
      exact ⟨fun fits => overfull (fits positive), rfl⟩
  next other =>
    -- A zero count drops nothing and carries nothing, which is the same.
    have dropped := (taken.setSoss (.ofList ((below.rdrop axes).rdrop count.magnitude))).closeSlot
    rw [taken.below, Stack.drop_ofList, Nest.rejoin]
    refine ⟨fun positive => absurd positive other, rfl, ?_⟩
    split
    next negative => exact dropped
    next nonnegative =>
      obtain rfl := nonpositive nonnegative other
      simpa [Nest.layers, Nest.top, Value.magnitude] using dropped

theorem underStack_nest (shows : pile.Shows axes (Nest.layers ⟨active, below :: outer⟩)) :
    Answers axes
      (pile.Room (if 0 < active.getLastD 0 then active.dropLast.length else below.length) (active.getLastD 0).magnitude) ()
      (Nest.underStack ⟨active, below :: outer⟩).2 pile.underStack := by
  have several : pile.cursor ≠ 0 := by simp [shows.cursor]
  obtain ⟨count, popped⟩ := shows.countNest
  simp only [underStack, several, ↓reduceIte, count, Nest.underStack]
  clear count
  generalize active.getLastD 0 = count at *
  generalize active.dropLast = values at *
  by_cases positive : 0 < count
  · rw [if_pos positive, if_pos positive, if_neg (Int64.lt_asymm positive)]
    obtain ⟨moved, result, fits, shown⟩ | ⟨result, overfull⟩ := raise?_ofList count.magnitude popped
    · rw [result]
      exact ⟨fits, rfl, shown⟩
    · rw [result]
      exact ⟨overfull, rfl⟩
  · rw [if_neg positive, if_neg positive]
    obtain ⟨moved, result, fits, shown⟩ | ⟨result, overfull⟩ := lower?_ofList count.magnitude popped
    · rw [result]
      refine ⟨fits, rfl, ?_⟩
      split
      next negative => exact shown
      next nonnegative =>
        obtain rfl := nonpositive nonnegative positive
        simpa [Nest.layers, Nest.top, Value.magnitude] using shown
    · rw [result]
      exact ⟨overfull, rfl⟩

theorem refusal_layers (op : Op) : refusal axes op nest.layers = (nest.refused axes op).layers := by
  obtain ⟨active, outer⟩ := nest
  cases op with
  | endBlock =>
    cases outer with
    | nil => rfl
    | cons below outer => simp [refusal, Nest.refused, Nest.layers, Stack.padded_ofList]
  | _ => rfl

private theorem Shows.set (shows : pile.Shows axes nest.layers) (values : List Value) :
    (pile.setToss (.ofList values)).Shows axes { nest with active := values }.layers :=
  shows.setToss _

theorem swap_nest (shows : pile.Shows axes nest.layers) :
    pile.swap.Shows axes (nest.perform axes .swap).2.layers := by
  have known : pile.toss = .ofList nest.active := shows.active
  obtain ⟨active, outer⟩ := nest
  simp only [swap, push, known, Nest.perform]
  rcases List.eq_nil_or_concat' active with rfl | ⟨front, two, rfl⟩
  · exact shows.set [0]
  · rcases List.eq_nil_or_concat' front with rfl | ⟨front, one, rfl⟩
    · exact shows.set [two, 0]
    · have apart : front ++ [one] ++ [two] = front ++ [one, two] := List.append_assoc ..
      have filled : (Stack.ofList (front ++ [one, two])).isEmpty = false := by simp [Stack.ofList, Stack.isEmpty]
      have long : ¬ (front ++ [one, two]).length < 2 := by simp
      have kept : (front ++ [one, two]).rdrop 2 = front := by simp [List.rdrop]
      have moved : (front ++ [one, two]).rtake 2 = [one, two] := by simp [List.rtake]
      rw [if_neg (by simp [apart, filled]), apart, Stack.popTwo_ofList, if_neg long, kept, moved]
      simp only [Stack.extend_ofList, List.reverse_cons, List.reverse_nil, List.nil_append, List.singleton_append]
      exact shows.set _

def Reply.Overfull : Reply → Prop
  | fault refusal => refusal.kind = .outOfMemory
  | _ => False

instance : DecidablePred Reply.Overfull
  | .fault refusal => inferInstanceAs (Decidable (refusal.kind = .outOfMemory))
  | .done | .value _ | .values _ | .vec _ => isFalse nofun

/-- An operation does to the slots what it does to the list of stacks, unless a stack
would grow too far. Then it leaves what a refusal leaves. -/
theorem perform_nest (op : Op) (shows : pile.Shows axes nest.layers) :
    (pile.perform op).1.Overfull ∧ (pile.perform op).2.Shows axes (nest.refused axes op).layers ∨
      (pile.perform op).1 = (nest.perform axes op).1 ∧
        (pile.perform op).2.Shows axes (nest.perform axes op).2.layers := by
  have known : pile.toss = .ofList nest.active := shows.active
  -- Only the block operations can be refused, and what that leaves is known already.
  have refused := (perform_shows op shows).2
  rw [← Nest.layers, refusal_layers] at refused
  cases op with
  | push value =>
    simp only [perform, StackStack.push, known, Stack.push_ofList]
    exact .inr ⟨rfl, shows.set _⟩
  | extend | pushVec =>
    simp only [perform, StackStack.extend, pushVec, known, Stack.extend_ofList]
    exact .inr ⟨rfl, shows.set _⟩
  | pop | discard =>
    simp only [perform, StackStack.pop, discard, known, Stack.pop_ofList]
    exact .inr ⟨rfl, shows.set _⟩
  | popMany | popVec =>
    simp only [perform, StackStack.popMany, popVec, known, shows.dimension, Stack.popMany_ofList]
    exact .inr ⟨rfl, shows.set _⟩
  | clear => exact .inr ⟨rfl, shows.set []⟩
  | duplicate =>
    have popped := shows.set nest.active.dropLast
    have last : (pile.setToss (.ofList nest.active.dropLast)).toss = .ofList nest.active.dropLast := popped.active
    refine .inr ⟨rfl, ?_⟩
    simp only [perform, duplicate, StackStack.pop, StackStack.extend, known, Stack.pop_ofList, last, Stack.extend_ofList]
    exact popped.set _
  | swap => exact .inr ⟨rfl, swap_nest shows⟩
  | beginBlock offset =>
    by_cases same : offset.dimension = axes
    · obtain ⟨fault, after, result, _, kind⟩ | ⟨after, result, _, shown⟩ := (beginBlock_nest same shows).cases
      · simp only [perform, result] at refused ⊢
        exact .inl ⟨kind, refused fault rfl⟩
      · rw [perform, result, Nest.perform, if_pos same]
        exact .inr ⟨rfl, shown⟩
    · have unchanged : pile.perform (.beginBlock offset) = ((nest.perform axes (.beginBlock offset)).1, pile) := by
        simp [perform, beginBlock, shows.dimension, same, Nest.perform]
      rw [unchanged, Nest.perform, if_neg same]
      exact .inr ⟨rfl, shows⟩
  | endBlock =>
    obtain ⟨active, outer⟩ := nest
    cases outer with
    | nil =>
      simp only [perform, endBlock_single shows]
      exact .inr ⟨rfl, shows⟩
    | cons below outer =>
      obtain ⟨fault, after, result, _, kind⟩ | ⟨after, result, _, shown⟩ := (endBlock_nest shows).cases
      · simp only [perform, result] at refused ⊢
        exact .inl ⟨kind, refused fault rfl⟩
      · simp only [perform, result]
        exact .inr ⟨rfl, shown⟩
  | underStack =>
    obtain ⟨active, outer⟩ := nest
    cases outer with
    | nil =>
      have single : pile.underStack = (.error { kind := .noSecondStack }, pile) := by
        simp [underStack, shows.cursor]
      simp only [perform, single]
      exact .inr ⟨rfl, shows⟩
    | cons below outer =>
      obtain ⟨fault, after, result, _, kind⟩ | ⟨after, result, _, shown⟩ := (underStack_nest shows).cases
      · simp only [perform, result] at refused ⊢
        exact .inl ⟨kind, refused fault rfl⟩
      · simp only [perform, result]
        exact .inr ⟨rfl, shown⟩

theorem performAll_nest (ops : List Op) (shows : pile.Shows axes nest.layers)
    (fitting : ∀ reply ∈ (pile.performAll ops).1, ¬ reply.Overfull) :
    (pile.performAll ops).1 = (nest.performAll axes ops).1 ∧
      (pile.performAll ops).2.Shows axes (nest.performAll axes ops).2.layers := by
  induction ops generalizing pile nest with
  | nil => exact ⟨rfl, shows⟩
  | cons op ops ih =>
    simp only [performAll, Nest.performAll, List.forall_mem_cons] at fitting ⊢
    obtain ⟨overfull, _⟩ | ⟨reply, next⟩ := perform_nest op shows
    · exact absurd overfull fitting.1
    · obtain ⟨replies, last⟩ := ih next fitting.2
      exact ⟨congrArg₂ List.cons reply replies, last⟩

theorem Open.shows (opened : pile.Open axes) : ∃ nest : Nest, pile.Shows axes nest.layers := by
  obtain ⟨toss, rest, shows⟩ := opened
  refine ⟨⟨toss.toList, rest.map Stack.toList⟩, ?_⟩
  simpa [Nest.layers, Function.comp_def] using shows

theorem Open.unused (opened : pile.Open axes) :
    pile.cursor < pile.slots.size ∧
      ∀ index (stored : index < pile.slots.size), pile.cursor < index → pile.slots[index] = Stack.empty := by
  obtain ⟨toss, rest, shows⟩ := opened
  refine ⟨shows.stored, fun index stored above => ?_⟩
  have length := shows.depth
  have held := shows.slots index
  have past : (toss :: rest).reverse[index]? = none := List.getElem?_eq_none (by rw [List.length_reverse]; omega)
  rw [slot, List.getD_eq_getElem?_getD, past] at held
  simpa [Array.getD, stored] using held

/-- From a single empty stack on, the slots answer as a plain list of stacks does, as
long as no stack grows too far. Whatever is refused, the slots above the cursor stay
empty and the last stack stays. -/
theorem slots_refine_nest (dimension : Nat) (memory : Memory) (ops : List Op) :
    let run := (initial dimension memory).performAll ops
    let plain := Nest.initial.performAll dimension ops
    ((∀ reply ∈ run.1, ¬ reply.Overfull) →
      run.1 = plain.1 ∧ run.2.depth = plain.2.depth ∧ run.2.toss.toList = plain.2.active ∧
        run.2.soss?.map Stack.toList = plain.2.outer.head? ∧ run.2.layers = plain.2.layers) ∧
      run.2.cursor < run.2.slots.size ∧
      (∀ index (stored : index < run.2.slots.size), run.2.cursor < index → run.2.slots[index] = Stack.empty) ∧
      (run.2.depth = 1 → run.2.perform .endBlock = (.fault { kind := .noSecondStack }, run.2)) := by
  intro run plain
  have opened : run.2.Open dimension := Open.performAll ⟨_, _, initial_shows dimension memory⟩ ops
  refine ⟨fun fitting => ?_, opened.unused.1, opened.unused.2, fun single => ?_⟩
  · have start : (initial dimension memory).Shows dimension Nest.initial.layers := initial_shows dimension memory
    obtain ⟨replies, shown⟩ := performAll_nest ops start fitting
    exact ⟨replies, shown.depthNest, shown.activeNest, shown.secondNest, shown.layers⟩
  · obtain ⟨toss, rest, shows⟩ := opened
    have alone : rest = [] := by simpa [depth, shows.cursor] using single
    rw [alone] at shows
    rw [perform, endBlock_single shows]

/-- A slot that a block left is empty when the next block is opened in it. -/
theorem reused_slot_answers_as_nest :
    let run := (initial 1).performAll
      [.push 7, .push 1, .beginBlock ⟨[5]⟩, .push 8, .push 1, .endBlock, .push 0, .beginBlock ⟨[6]⟩, .popMany 2]
    run.1 = [.done, .done, .done, .done, .done, .vec ⟨[5]⟩, .done, .done, .values [0, 0]] ∧
      run.2.layers = [.ofList [], .ofList [8, 6]] := by
  intro run
  have fitting : ∀ reply ∈ run.1, ¬ reply.Overfull := by decide +kernel
  obtain ⟨replies, _, _, _, layers⟩ := (slots_refine_nest 1 .ample _).1 fitting
  exact ⟨replies.trans (by decide +kernel), layers.trans (by decide +kernel)⟩

end StackStack
end Befunge
