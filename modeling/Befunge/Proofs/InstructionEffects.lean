import Befunge.Machine.Instruct
import Befunge.Proofs.MotionBounds
import Befunge.Proofs.RefusedBlocks
import Befunge.Proofs.SpaceGrowth

/-! What carrying out an instruction can do, said once. It leaves the course of the
machine to the cycle, and it either turns the cursor, writes one cell or moves the
cursor through the space as it is. -/

namespace Befunge.Machine

variable {machine : Machine}

theorem pop_eq : machine.pop = (machine.pile.pop.1, { machine with pile := machine.pile.pop.2 }) := rfl

theorem popVec_eq : machine.popVec = (machine.pile.popVec.1, { machine with pile := machine.pile.popVec.2 }) := rfl

/-- What the machine is about to do, on which an instruction has no influence. -/
structure SameCourse (machine after : Machine) : Prop where
  policy : after.policy = machine.policy
  status : after.status = machine.status
  moves : after.moves = machine.moves
  rowReady : after.rowReady = machine.rowReady
  tracing : after.tracing = machine.tracing
  faults : after.faults = machine.faults

theorem carryOut_course (instruction : Instruction) : SameCourse machine (machine.carryOut instruction).2 := by
  cases instruction with
  | arithmetic | greater =>
    simp only [carryOut, arithmetic, greater, push, pop_eq]
    exact ⟨rfl, rfl, rfl, rfl, rfl, rfl⟩
  | compare =>
    simp only [carryOut, compare]
    split
    · simp only [steer, pop_eq]
      exact ⟨rfl, rfl, rfl, rfl, rfl, rfl⟩
    · split
      · simp only [steer, pop_eq]
        exact ⟨rfl, rfl, rfl, rfl, rfl, rfl⟩
      · simp only [pop_eq]
        exact ⟨rfl, rfl, rfl, rfl, rfl, rfl⟩
  | beginBlock | endBlock | underStack =>
    simp only [carryOut, beginBlock, endBlock, underStack]
    split <;> exact ⟨rfl, rfl, rfl, rfl, rfl, rfl⟩
  | put | get =>
    simp only [carryOut, put, get, push, pop_eq, popVec_eq]
    split <;> exact ⟨rfl, rfl, rfl, rfl, rfl, rfl⟩
  | unknown =>
    simp only [carryOut]
    split <;> exact ⟨rfl, rfl, rfl, rfl, rfl, rfl⟩
  | _ => exact ⟨rfl, rfl, rfl, rfl, rfl, rfl⟩

private theorem refused_request (fault : Fault) : refused fault ≠ .await .row := by
  simp only [refused]
  split <;> simp

theorem carryOut_request (instruction : Instruction) : (machine.carryOut instruction).1 ≠ .await .row := by
  cases instruction with
  | beginBlock | endBlock | underStack =>
    simp only [carryOut, beginBlock, endBlock, underStack]
    split
    · simp
    · exact refused_request _
  | unknown =>
    simp only [carryOut]
    split <;> simp
  | _ => simp [carryOut]

inductive Effect (machine after : Machine) : Instruction → Prop
  | steer (instruction : Instruction) (space : after.space = machine.space)
      (position : after.cursor.position = machine.cursor.position) : Effect machine after instruction
  | write (instruction : Instruction) (place : Vec) (value : Value)
      (space : after.space = machine.space.put place value) (cursor : after.cursor = machine.cursor) :
      Effect machine after instruction
  | jump (count : Value) (space : after.space = machine.space)
      (cursor : after.cursor = machine.cursor.jump count machine.space) : Effect machine after .jumpForward
  | seek (moves : Nat) (space : after.space = machine.space)
      (cursor : after.cursor = machine.cursor.seek fence machine.space moves) : Effect machine after .jumpOver

theorem carryOut_effect (instruction : Instruction) : Effect machine (machine.carryOut instruction).2 instruction := by
  cases instruction with
  | arithmetic | greater =>
    simp only [carryOut, arithmetic, greater, push, pop_eq]
    exact .steer _ rfl rfl
  | compare =>
    simp only [carryOut, compare]
    split
    · exact .steer _ rfl rfl
    · split <;> exact .steer _ rfl rfl
  | beginBlock | endBlock | underStack =>
    simp only [carryOut, beginBlock, endBlock, underStack]
    split <;> exact .steer _ rfl rfl
  | put =>
    simp only [carryOut, put, pop_eq, popVec_eq]
    split <;> exact .write _ _ _ rfl rfl
  | get =>
    simp only [carryOut, get, push, pop_eq, popVec_eq]
    split <;> exact .steer _ rfl rfl
  | unknown =>
    simp only [carryOut]
    split <;> exact .steer _ rfl rfl
  | store => exact .write _ _ _ rfl rfl
  | jumpForward => exact .jump _ rfl rfl
  | jumpOver => exact .seek _ rfl rfl
  | _ => exact .steer _ rfl rfl

structure Shaped (machine : Machine) : Prop where
  extent : machine.space.extent.dimension = machine.dialect.dimension
  pile : machine.pile.Open machine.dialect.dimension
  position : machine.cursor.position.dimension = machine.dialect.dimension
  delta : machine.cursor.delta.dimension = machine.dialect.dimension
  offset : machine.cursor.storageOffset.dimension = machine.dialect.dimension

namespace Shaped

theorem setToss (shaped : machine.Shaped) (stack : Stack) :
    Shaped { machine with pile := machine.pile.setToss stack } where
  extent := shaped.extent
  pile := shaped.pile.setToss stack
  position := shaped.position
  delta := shaped.delta
  offset := shaped.offset

theorem pop (shaped : machine.Shaped) : machine.pop.2.Shaped :=
  shaped.setToss _

theorem popVec (shaped : machine.Shaped) :
    machine.popVec.1.dimension = machine.dialect.dimension ∧ machine.popVec.2.Shaped :=
  ⟨(Stack.length_popMany _ _).trans shaped.pile.dimension, shaped.setToss _⟩

theorem push (shaped : machine.Shaped) (value : Value) : (machine.push value).Shaped :=
  shaped.setToss _

theorem turn (shaped : machine.Shaped) {cursor : Cursor}
    (position : cursor.position.dimension = machine.cursor.position.dimension)
    (delta : cursor.delta.dimension = machine.cursor.delta.dimension)
    (offset : cursor.storageOffset.dimension = machine.cursor.storageOffset.dimension) :
    Shaped { machine with cursor } where
  extent := shaped.extent
  pile := shaped.pile
  position := position.trans shaped.position
  delta := delta.trans shaped.delta
  offset := offset.trans shaped.offset

theorem head (shaped : machine.Shaped) (heading : Heading) : (machine.steer (·.head heading)).Shaped where
  extent := shaped.extent
  pile := shaped.pile
  position := shaped.position
  delta := by cases heading <;> exact (Vec.dimension_unit _ _ _).trans shaped.position
  offset := shaped.offset

theorem write (shaped : machine.Shaped) (place : Vec) (value : Value) :
    Shaped { machine with space := machine.space.put place value } := by
  have grows := machine.space.put_grows place value
  have same : Machine.dialect { machine with space := machine.space.put place value } = machine.dialect := grows.dialect
  exact {
    extent := by rw [same, grows.extent.dimension, shaped.extent]
    pile := by rw [same]; exact shaped.pile
    position := by rw [same]; exact shaped.position
    delta := by rw [same]; exact shaped.delta
    offset := by rw [same]; exact shaped.offset }

end Shaped

theorem carryOut_shaped (shaped : machine.Shaped) (instruction : Instruction) :
    (machine.carryOut instruction).2.Shaped := by
  have axes : machine.cursor.delta.dimension = machine.cursor.position.dimension :=
    shaped.delta.trans shaped.position.symm
  cases instruction with
  | digit | fetch => exact shaped.push _
  | quote => exact shaped.turn rfl rfl rfl
  | store => exact shaped.pop.write _ _
  | arithmetic | greater => exact shaped.pop.pop.push _
  | not => exact shaped.pop.push _
  | duplicate => exact (shaped.setToss _).setToss _
  | swap =>
    simp only [carryOut, StackStack.swap]
    split <;> exact shaped.setToss _
  | discard | clear | printNumber | printChar => exact shaped.setToss _
  | quit =>
    obtain ⟨extent, pile, position, delta, offset⟩ := shaped.pop
    exact ⟨extent, pile, position, delta, offset⟩
  | beginBlock =>
    obtain ⟨toss, rest, shows⟩ := shaped.pile
    obtain ⟨_, pile, result, toss, soss, shown⟩ | ⟨fault, pile, result, kept⟩ :=
      (StackStack.beginBlock_shows machine.cursor.storageOffset shows).cases
    · simp only [carryOut, beginBlock, result]
      refine ⟨shaped.extent, ⟨_, _, shown⟩, shaped.position, shaped.delta, ?_⟩
      rw [Vec.dimension_add, axes, Nat.min_self]
      exact shaped.position
    · simp only [carryOut, beginBlock, result]
      exact ⟨shaped.extent, ⟨_, _, kept⟩, shaped.position, shaped.delta, shaped.offset⟩
  | endBlock =>
    obtain ⟨toss, rest, shows⟩ := shaped.pile
    cases rest with
    | nil =>
      simp only [carryOut, endBlock, StackStack.endBlock_single shows]
      exact ⟨shaped.extent, ⟨_, _, shows⟩, shaped.position, shaped.delta, shaped.offset⟩
    | cons soss rest =>
      obtain ⟨offset, pile, result, axes, soss, shown⟩ | ⟨fault, pile, result, kept⟩ :=
        (StackStack.endBlock_shows shows).cases
      · simp only [carryOut, endBlock, result]
        exact ⟨shaped.extent, ⟨_, _, shown⟩, shaped.position, shaped.delta, axes⟩
      · simp only [carryOut, endBlock, result]
        exact ⟨shaped.extent, ⟨_, _, kept⟩, shaped.position, shaped.delta, shaped.offset⟩
  | underStack =>
    obtain ⟨toss, rest, shows⟩ := shaped.pile
    obtain ⟨_, pile, result, shown⟩ | ⟨fault, pile, result, kept⟩ := (StackStack.underStack_shows shows).cases
    · simp only [carryOut, underStack, result]
      exact ⟨shaped.extent, shown, shaped.position, shaped.delta, shaped.offset⟩
    · simp only [carryOut, underStack, result]
      exact ⟨shaped.extent, ⟨_, _, kept⟩, shaped.position, shaped.delta, shaped.offset⟩
  | go heading => exact shaped.head heading
  | random =>
    have thrown : Shaped { machine with dice := (machine.dice.throw (2 * machine.pile.dimension)).2 } :=
      ⟨shaped.extent, shaped.pile, shaped.position, shaped.delta, shaped.offset⟩
    exact thrown.head _
  | ifHorizontal | ifVertical => exact shaped.pop.head _
  | trampoline | reflect | nop | readNumber | readChar | halt => exact shaped
  | turnLeft => exact shaped.turn rfl (Vec.dimension_turnLeft _) rfl
  | turnRight => exact shaped.turn rfl (Vec.dimension_turnRight _) rfl
  | compare =>
    simp only [carryOut, compare]
    split
    · exact shaped.pop.pop.turn rfl (Vec.dimension_turnLeft _) rfl
    · split
      · exact shaped.pop.pop.turn rfl (Vec.dimension_turnRight _) rfl
      · exact shaped.pop.pop
  | setDelta =>
    obtain ⟨delta, popped⟩ := shaped.popVec
    exact ⟨popped.extent, popped.pile, popped.position, delta, popped.offset⟩
  | jumpForward => exact shaped.pop.turn (Cursor.jump_dimension _ axes) rfl rfl
  | jumpOver =>
    exact shaped.turn (Cursor.seek_dimension _ _ axes) (congrArg _ (Cursor.seek_delta _ _ _))
      (congrArg _ (Cursor.seek_offset _ _ _))
  | put =>
    simp only [carryOut, put]
    split
    · exact shaped.pop.pop.pop.write _ _
    · exact shaped.popVec.2.pop.write _ _
  | get =>
    simp only [carryOut, get]
    split
    · exact shaped.pop.pop.push _
    · exact shaped.popVec.2.push _
  | unknown =>
    simp only [carryOut]
    split <;> exact shaped

end Befunge.Machine
