import Befunge.StackStack.Block

/-! The operations on the stack of stacks as data, so that a run of them is a list,
and one function that performs them. -/

namespace Befunge.StackStack

inductive Op where
  | push (value : Value)
  | extend (pushed : List Value)
  | pop
  | popMany (count : Nat)
  | duplicate
  | discard
  | swap
  | clear
  | popVec
  | pushVec (v : Vec)
  | beginBlock (offset : Vec)
  | endBlock
  | underStack
  deriving DecidableEq

inductive Reply where
  | done
  | value (value : Value)
  | values (values : List Value)
  | vec (v : Vec)
  | fault (fault : Fault)
  deriving DecidableEq

def perform (pile : StackStack) : Op → Reply × StackStack
  | .push value => (.done, pile.push value)
  | .extend pushed => (.done, pile.extend pushed)
  | .pop =>
    let (value, pile) := pile.pop
    (.value value, pile)
  | .popMany count =>
    let (popped, pile) := pile.popMany count
    (.values popped, pile)
  | .duplicate => (.done, pile.duplicate)
  | .discard => (.done, pile.discard)
  | .swap => (.done, pile.swap)
  | .clear => (.done, pile.clear)
  | .popVec =>
    let (v, pile) := pile.popVec
    (.vec v, pile)
  | .pushVec v => (.done, pile.pushVec v)
  | .beginBlock offset =>
    match pile.beginBlock offset with
    | (.ok _, pile) => (.done, pile)
    | (.error fault, pile) => (.fault fault, pile)
  | .endBlock =>
    match pile.endBlock with
    | (.ok offset, pile) => (.vec offset, pile)
    | (.error fault, pile) => (.fault fault, pile)
  | .underStack =>
    match pile.underStack with
    | (.ok _, pile) => (.done, pile)
    | (.error fault, pile) => (.fault fault, pile)

def performAll (pile : StackStack) : List Op → List Reply × StackStack
  | [] => ([], pile)
  | op :: ops =>
    let (reply, pile) := pile.perform op
    let (replies, pile) := pile.performAll ops
    (reply :: replies, pile)

end Befunge.StackStack
