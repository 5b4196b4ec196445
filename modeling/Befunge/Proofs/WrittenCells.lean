import Befunge.Proofs.BuiltSpaces
import Befunge.Proofs.SkippedCells
import Befunge.Proofs.WiderDialect

/-! What `p` writes and what `g` reads back. Both take a vector from the stack. A torus counts
from one where it is written and from zero where it is read, a growing space from the storage
offset. A write shows at its cell and at no other of the whole plane. -/

namespace Befunge

theorem Value.ofByte_lowByte (value : Value) : (ofByte value.lowByte).toInt = value.toInt % 256 := by
  have small : value.lowByte.toNat < 256 := value.lowByte.toNat_lt
  have exact : (ofByte value.lowByte).toInt = value.lowByte.toNat := Int64.toInt_ofNat_of_lt (by omega)
  have low : value.lowByte.toNat = value.toUInt64.toNat % 256 := by
    simp [lowByte]
  have word : value.toInt = (value.toUInt64.toNat : Int).bmod 0x10000000000000000 := by
    rw [← Int64.toInt_toBitVec, BitVec.toInt_eq_toNat_bmod]
    rfl
  have bound := value.toUInt64.toNat_lt
  rw [exact, low, word, Int.bmod_def]
  split <;> omega

namespace Span

theorem cover_eq (span : Span) (value : Value) : span.cover value = ⟨min span.low value, max span.high value⟩ := by
  have low : min span.low value = if span.low ≤ value then span.low else value := rfl
  have high : max span.high value = if span.high ≤ value then value else span.high := rfl
  simp only [cover, low, high, mk.injEq, Int64.lt_iff_toInt_lt, Int64.le_iff_toInt_le, ← Int64.toInt_inj]
  constructor <;> split <;> split <;> omega

theorem cover_inside {span : Span} {value : Value} (inside : span.contains value = true) : span.cover value = span := by
  rw [contains_iff] at inside
  simp only [cover, Int64.lt_iff_toInt_lt]
  rw [if_neg (by omega), if_neg (by omega)]

end Span

namespace Extent

variable {extent : Extent} {place : Vec}

theorem spans_cover : (extent.cover place).spans =
    List.zipWith (fun span c => ⟨min span.low c, max span.high c⟩) extent.spans place.components := by
  have each : Span.cover = fun span c => ⟨min span.low c, max span.high c⟩ := by
    funext span c
    exact span.cover_eq c
  rw [cover, each]

theorem cover_inside (inside : extent.contains place = true) : extent.cover place = extent := by
  have here := contains_iff.mp inside
  apply congrArg Extent.mk
  apply List.ext_getElem
  · simp [here.length_eq]
  · intro axis _ bound
    rw [List.getElem_zipWith]
    exact Span.cover_inside (here.get bound (here.length_eq ▸ bound))

end Extent

namespace Stack

theorem padded_succ (stack : Stack) (count : Nat) :
    stack.padded (count + 1) =
      ⟨(stack.popMany count).1.reverse ++ (stack.popMany count).2.pop.1 :: (stack.popMany count).2.pop.2.values⟩ := by
  obtain ⟨values⟩ := stack
  rcases Nat.lt_or_ge count values.length with more | short
  · have none : count - values.length = 0 := by omega
    have also : count + 1 - values.length = 0 := by omega
    have same : values.take count ++ values[count] :: values.drop (count + 1) = values := by
      rw [← List.drop_eq_getElem_cons more, List.take_append_drop]
    simp only [padded, popMany, size, none, also, List.drop_eq_getElem_cons more, pop, List.replicate_zero,
      List.nil_append, List.append_nil, List.reverse_reverse, same]
  · have longer : count + 1 - values.length = count - values.length + 1 := by omega
    simp [padded, popMany, size, longer, List.take_of_length_le short, List.drop_of_length_le short, pop,
      List.replicate_succ']

theorem popMany_of_padded {stack : Stack} {popped rest : List Value}
    (shape : stack.padded popped.length = ⟨popped.reverse ++ rest⟩) : stack.popMany popped.length = (popped, ⟨rest⟩) := by
  rw [← popMany_extend, extend, mk.injEq] at shape
  obtain ⟨same, left⟩ := List.append_inj shape (by simp)
  exact Prod.ext (List.reverse_injective same) (congrArg mk left)

end Stack

namespace StackStack

variable {pile : StackStack} {axes : Nat}

theorem Open.popVec_eq (opened : pile.Open axes) :
    pile.popVec = (⟨(pile.toss.popMany axes).1⟩, pile.setToss (pile.toss.popMany axes).2) := by
  rw [popVec, popMany, opened.dimension]

theorem Open.pop_setToss (opened : pile.Open axes) (stack : Stack) :
    (pile.setToss stack).pop = (stack.pop.1, pile.setToss stack.pop.2) := by
  obtain ⟨toss, rest, shows⟩ := opened
  simp only [pop, (shows.setToss stack).active, setToss_setToss]

theorem Open.push_setToss (opened : pile.Open axes) (stack : Stack) (value : Value) :
    (pile.setToss stack).push value = pile.setToss (stack.push value) := by
  obtain ⟨toss, rest, shows⟩ := opened
  simp only [push, (shows.setToss stack).active, setToss_setToss]

/-- What a stack of stacks gives an instruction that takes a vector and a value: zeros where it
has too few. -/
structure Operands (pile : StackStack) (axes : Nat) (vector : Vec) (value : Value) (rest : List Value) : Prop where
  dimension : vector.dimension = axes
  stack : pile.toss.padded (axes + 1) = ⟨vector.components.reverse ++ value :: rest⟩

theorem Operands.unique {vector other : Vec} {value also : Value} {rest left : List Value}
    (operands : pile.Operands axes vector value rest) (others : pile.Operands axes other also left) :
    vector = other ∧ value = also ∧ rest = left := by
  have same := (Stack.mk.inj (operands.stack.symm.trans others.stack))
  have long : vector.components.reverse.length = other.components.reverse.length := by
    rw [List.length_reverse, List.length_reverse]
    exact operands.dimension.trans others.dimension.symm
  obtain ⟨front, back⟩ := List.append_inj same long
  exact ⟨congrArg Vec.mk (List.reverse_injective front), List.cons.inj back⟩

theorem Open.operands (opened : pile.Open axes) :
    ∃ vector value rest, pile.Operands axes vector value rest ∧ pile.popVec.1 = vector ∧
      pile.popVec.2.pop = (value, pile.setToss ⟨rest⟩) := by
  refine ⟨⟨(pile.toss.popMany axes).1⟩, _, _, ⟨Stack.length_popMany _ _, pile.toss.padded_succ axes⟩, ?_, ?_⟩
  · rw [opened.popVec_eq]
  · rw [opened.popVec_eq, opened.pop_setToss]

theorem Open.popVec_of_padded {vector : Vec} {rest : List Value} (opened : pile.Open vector.dimension)
    (shape : pile.toss.padded vector.dimension = ⟨vector.components.reverse ++ rest⟩) :
    pile.popVec = (vector, pile.setToss ⟨rest⟩) := by
  have popped := Stack.popMany_of_padded shape
  rw [opened.popVec_eq, show pile.toss.popMany vector.dimension = _ from popped]

end StackStack

namespace Space

structure Overwrites (before : Space) (place : Vec) (byte : UInt8) (after : Space) : Prop where
  here : after.peek place = byte
  elsewhere : ∀ other, other ≠ place → after.peek other = before.peek other
  dialect : after.dialect = before.dialect
  complete : after.complete = before.complete

variable {space : Space} {place : Vec}

theorem setCell_overwrites (extent : Extent) (byte : UInt8) :
    space.Overwrites place byte ({ space with extent }.setCell place byte) where
  here := by rw [peek_setCell, if_pos rfl]
  elsewhere other apart := by
    rw [peek_setCell, if_neg apart]
    rfl
  dialect := rfl
  complete := rfl

theorem put_growing (growing : space.dialect.isTorus = false) (axes : place.dimension = space.dimension) (value : Value) :
    space.Overwrites place value.lowByte (space.put place value) ∧
      (space.put place value).extent = space.extent.cover place := by
  simp only [put, growing, axes, Bool.false_eq_true, ↓reduceIte]
  split
  next inside => exact ⟨setCell_overwrites space.extent _, (Extent.cover_inside inside).symm⟩
  next => exact ⟨setCell_overwrites _ _, rfl⟩

theorem put_inside (inside : space.contains place = true) (value : Value) :
    space.Overwrites place value.lowByte (space.put place value) := by
  simp only [put, inside, ↓reduceIte]
  exact setCell_overwrites space.extent _

theorem Grid.put_outside {width height : Nat} (grid : space.Grid width height) (outside : space.contains place = false)
    (value : Value) : space.Overwrites (Vec.zero 2) 0x30 (space.put place value) := by
  have corner : space.extent.least = Vec.zero 2 := by
    rw [grid.extent]
    rfl
  simp only [Space.put, outside, grid.torus, Bool.false_eq_true, ↓reduceIte, corner]
  exact setCell_overwrites space.extent _

end Space

namespace Machine

variable {machine : Machine} {instruction : Instruction}

/-- An instruction that is carried out so, by itself as in the cycle that comes to it. -/
structure Performs (machine : Machine) (instruction : Instruction) (after : Machine) : Prop where
  result : machine.carryOut instruction = (.advance 1, after)
  cycle : machine.CarriesOut instruction → ∃ tracing, machine.cycle = (none, { after with moves := 1, tracing })

theorem performs_of_carryOut {after : Machine} (result : machine.carryOut instruction = (.advance 1, after)) :
    machine.Performs instruction after where
  result := result
  cycle carries := by
    obtain ⟨tracing, same⟩ := carries.cycle
    refine ⟨tracing, ?_⟩
    rw [same, carryOut_retraced, result]
    rfl

/-- What `p` does: the operands are taken, and the space is written under them. -/
theorem put_eq (opened : machine.pile.Open machine.dialect.dimension) :
    ∃ vector value rest, machine.pile.Operands machine.dialect.dimension vector value rest ∧
      machine.put = { machine with
        pile := machine.pile.setToss ⟨rest⟩
        space := machine.space.put
          (if machine.dialect.isTorus then vector - ⟨[1, 1]⟩ else vector + machine.cursor.storageOffset) value } := by
  obtain ⟨vector, value, rest, operands, popped, left⟩ := opened.operands
  refine ⟨vector, value, rest, operands, ?_⟩
  simp only [put]
  split
  next torus =>
    rw [Dialect.eq_befunge93 torus] at opened
    rw [StackStack.popVec_plane opened] at popped left
    simp only [pop_eq, ← popped, left]
    rfl
  next growing =>
    simp only [popVec_eq, popped, pop_eq, left]

theorem get_eq {vector : Vec} {rest : List Value} (opened : machine.pile.Open machine.dialect.dimension)
    (axes : vector.dimension = machine.dialect.dimension)
    (shape : machine.pile.toss.padded machine.dialect.dimension = ⟨vector.components.reverse ++ rest⟩) :
    machine.get = { machine with
      pile := machine.pile.setToss ⟨(if machine.dialect.isTorus then
          if machine.space.contains vector then Value.ofByte (machine.space.peek vector) else 0
        else Value.ofByte (machine.space.peek (vector + machine.cursor.storageOffset))) :: rest⟩ } := by
  rw [← axes] at opened shape
  have popped := opened.popVec_of_padded shape
  simp only [get]
  split
  next torus =>
    rw [axes, Dialect.eq_befunge93 torus] at opened
    rw [StackStack.popVec_plane opened, Prod.mk.injEq] at popped
    simp only [pop_eq, popped, push, opened.push_setToss]
    rfl
  next growing =>
    simp only [popVec_eq, popped, push, opened.push_setToss]
    rfl

theorem Reached.built (reached : machine.Reached) : machine.space.Built := by
  induction reached with
  | loaded accepted held dice memory => exact .loaded accepted
  | typed dialect dice memory => exact .begun dialect
  | used reached uses ih =>
    refine uses.preserves (fun machine => machine.space.Built) (fun _ _ _ _ built => built) ?_ ih
    intro machine call _ built
    refine @call_preserves machine (fun machine => machine.space.Built) ?_ (fun _ built => built) call ?_ built
    · intro machine built
      rcases machine.cycle_writes with same | ⟨place, value, same⟩
      · exact same ▸ built
      · exact same ▸ .written built place value
    · intro machine after entered built
      cases entered with
      | ignored | refused | stopped | answered => exact built
      | row line asked space accepted => exact .added built line accepted

theorem Reached.grid (reached : machine.Reached) (rows : machine.space.extent ≠ Extent.empty machine.dialect.dimension)
    (torus : machine.dialect.isTorus = true) : ∃ width height, machine.space.Grid width height := by
  have befunge93 : machine.dialect = .befunge93 := Dialect.eq_befunge93 torus
  refine (reached.built.grid befunge93).resolve_left fun blank => rows ?_
  rw [blank, befunge93]
  rfl

/-- Under this vector and storage offset `g` finds this byte, whatever else there is to the machine. -/
def Finds (space : Space) (offset vector : Vec) (byte : UInt8) : Prop :=
  ∀ (machine : Machine) (rest : List Value), machine.space = space → machine.cursor.storageOffset = offset →
    machine.pile.Open space.dialect.dimension →
    machine.pile.toss.padded space.dialect.dimension = ⟨vector.components.reverse ++ rest⟩ →
    machine.Performs .get { machine with pile := machine.pile.setToss ⟨Value.ofByte byte :: rest⟩ }

theorem finds_inside {space : Space} {vector : Vec} {byte : UInt8} (torus : space.dialect.isTorus = true)
    (axes : vector.dimension = space.dialect.dimension) (inside : space.contains vector = true)
    (reads : space.peek vector = byte) (offset : Vec) : Finds space offset vector byte := by
  rintro machine rest rfl _ opened shape
  apply performs_of_carryOut
  have bounded : machine.dialect.isTorus = true := torus
  rw [carryOut, get_eq opened axes shape, bounded, inside, reads]
  rfl

theorem finds_growing {space : Space} {offset vector : Vec} {byte : UInt8} (growing : space.dialect.isTorus = false)
    (axes : vector.dimension = space.dialect.dimension) (reads : space.peek (vector + offset) = byte) :
    Finds space offset vector byte := by
  rintro machine rest rfl rfl opened shape
  apply performs_of_carryOut
  have unbounded : machine.dialect.isTorus = false := growing
  rw [carryOut, get_eq opened axes shape, unbounded, reads]
  rfl

/-- Whatever lies on the stacks, `p` takes a vector and a value from them and writes what is left of
the value to one cell, where `g` finds it again under the vector that leads there. A torus keeps its
extent, and takes a zero to its corner in place of what would lie outside. A growing space has the
least box around its extent and the cell from then on. -/
theorem put_then_get (reached : machine.Reached) (rows : machine.space.extent ≠ Extent.empty machine.dialect.dimension)
    {pile : StackStack} (opened : pile.Open machine.dialect.dimension) :
    ∃ vector value rest after, pile.Operands machine.dialect.dimension vector value rest ∧
      Performs { machine with pile } .put { machine with pile := pile.setToss ⟨rest⟩, space := after } ∧
      (Value.ofByte value.lowByte).toInt = value.toInt % 256 ∧
      (machine.dialect.isTorus = true →
        after.extent = machine.space.extent ∧
        (machine.space.contains (vector - ⟨[1, 1]⟩) = true →
          machine.space.Overwrites (vector - ⟨[1, 1]⟩) value.lowByte after ∧
            ∀ offset, Finds after offset (vector - ⟨[1, 1]⟩) value.lowByte) ∧
        (machine.space.contains (vector - ⟨[1, 1]⟩) = false → machine.space.Overwrites ⟨[0, 0]⟩ 0x30 after)) ∧
      (machine.dialect.isTorus = false →
        let place := vector + machine.cursor.storageOffset
        after.extent.spans =
            List.zipWith (fun span c => ⟨min span.low c, max span.high c⟩) machine.space.extent.spans place.components ∧
          machine.space.Overwrites place value.lowByte after ∧
          Finds after machine.cursor.storageOffset vector value.lowByte) := by
  have shaped := reached.shaped
  obtain ⟨vector, value, rest, operands, putting⟩ := @put_eq { machine with pile } opened
  have performs : Performs { machine with pile } .put _ := performs_of_carryOut (congrArg (Prod.mk _) putting)
  have axes : vector.dimension = machine.dialect.dimension := operands.dimension
  have same : Machine.dialect { machine with pile } = machine.dialect := rfl
  cases kind : machine.dialect.isTorus with
  | true =>
    obtain ⟨width, height, grid⟩ := reached.grid rows kind
    simp only [same, kind, ↓reduceIte] at performs
    refine ⟨vector, value, rest, _, operands, performs, value.ofByte_lowByte, fun _ => ⟨?_, ?_, ?_⟩, Bool.noConfusion⟩
    · exact Space.put_torus kind _ _
    · intro inside
      have written := Space.put_inside inside value
      have also : (machine.space.put (vector - ⟨[1, 1]⟩) value).contains (vector - ⟨[1, 1]⟩) = true := by
        rw [Space.contains, Space.put_torus kind]
        exact inside
      refine ⟨written, finds_inside (written.dialect ▸ kind) ?_ also written.here⟩
      rw [Extent.dimension_of_contains inside, shaped.extent, written.dialect]
      rfl
    · intro outside
      exact grid.put_outside outside value
  | false =>
    simp only [same, kind, Bool.false_eq_true, ↓reduceIte] at performs
    have there : (vector + machine.cursor.storageOffset).dimension = machine.space.dimension := by
      rw [Vec.dimension_add, axes, shaped.offset, Nat.min_self]
      exact shaped.extent.symm
    obtain ⟨written, grown⟩ := Space.put_growing kind there value
    refine ⟨vector, value, rest, _, operands, performs, value.ofByte_lowByte, Bool.noConfusion, fun _ => ⟨?_, written, ?_⟩⟩
    · rw [grown, Extent.spans_cover]
    · exact finds_growing (written.dialect ▸ kind) (written.dialect ▸ axes) written.here

/-- A cell to the left of the origin and below it is written, and the extent reaches there. On a torus
a column left of the first one is no cell, so that the corner takes a zero. -/
theorem outer_cells_written :
    let machine := (ofSource ⟨.befunge98, ["950-1p@"]⟩ (Dice.ofSeed 0)).after [.execute 10]
    let torus := (ofSource ⟨.befunge93, ["901p@"]⟩ (Dice.ofSeed 0)).after [.execute 6]
    (machine.cycle.2.pile = machine.pile.setToss ⟨[]⟩ ∧ machine.cycle.2.space.extent.spans = [⟨-5, 6⟩, ⟨0, 1⟩] ∧
        machine.space.Overwrites ⟨[-5, 1]⟩ 9 machine.cycle.2.space) ∧
      torus.space.Overwrites ⟨[0, 0]⟩ 0x30 torus.cycle.2.space := by
  intro machine torus
  constructor
  · have loaded : (ofSource ⟨.befunge98, ["950-1p@"]⟩ (Dice.ofSeed 0)).Reached :=
      .loaded (show Source.ofLines .befunge98 ["950-1p@"] = _ by rfl) ⟨by decide, by decide +kernel⟩ _ _
    have reached : machine.Reached := loaded.used (.called (.execute 10) trivial)
    have carries : machine.CarriesOut .put := ⟨by decide +kernel, by decide +kernel, by decide +kernel⟩
    have given : machine.pile.Operands machine.dialect.dimension ⟨[-5, 1]⟩ 9 [] :=
      ⟨by decide +kernel, by decide +kernel⟩
    have extent : machine.space.extent.spans = [⟨0, 6⟩, ⟨0, 0⟩] := by decide +kernel
    have place : (⟨[-5, 1]⟩ : Vec) + machine.cursor.storageOffset = ⟨[-5, 1]⟩ := by decide +kernel
    obtain ⟨vector, value, rest, after, operands, performs, _, _, growing⟩ :=
      put_then_get reached (by decide +kernel) reached.shaped.pile
    obtain ⟨rfl, rfl, rfl⟩ := operands.unique given
    obtain ⟨tracing, cycled⟩ := performs.cycle carries
    obtain ⟨spans, written, _⟩ := growing (by decide +kernel)
    rw [place] at spans written
    rw [extent] at spans
    rw [cycled]
    exact ⟨rfl, spans, written⟩
  · have loaded : (ofSource ⟨.befunge93, ["901p@"]⟩ (Dice.ofSeed 0)).Reached :=
      .loaded (show Source.ofLines .befunge93 ["901p@"] = _ by rfl) ⟨by decide, by decide +kernel⟩ _ _
    have reached : torus.Reached := loaded.used (.called (.execute 6) trivial)
    have carries : torus.CarriesOut .put := ⟨by decide +kernel, by decide +kernel, by decide +kernel⟩
    have given : torus.pile.Operands torus.dialect.dimension ⟨[0, 1]⟩ 9 [] := ⟨by decide +kernel, by decide +kernel⟩
    obtain ⟨vector, value, rest, after, operands, performs, _, bounded, _⟩ :=
      put_then_get reached (by decide +kernel) reached.shaped.pile
    obtain ⟨rfl, rfl, rfl⟩ := operands.unique given
    obtain ⟨tracing, cycled⟩ := performs.cycle carries
    rw [cycled]
    exact (bounded (by decide +kernel)).2.2 (by decide +kernel)

end Machine
end Befunge
