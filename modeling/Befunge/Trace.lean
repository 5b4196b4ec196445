import Befunge.Vec

/-! What a machine under debugging shows of an instruction that it is about to carry
out. Rows and columns are counted from one. -/

namespace Befunge

structure Trace where
  command : Char
  position : Vec
  stringMode : Bool
  /-- The active stack, the bottom first. -/
  stack : List Value
  deriving DecidableEq

def Trace.text (trace : Trace) : String :=
  let row :=
    if 1 < trace.position.dimension then "Y: " ++ (trace.position.y + 1).text ++ " " else ""
  "evaluate command [ " ++ String.singleton trace.command ++ " ] at " ++ row ++
    "X: " ++ (trace.position.x + 1).text ++
    ", string mode: " ++ (if trace.stringMode then "true" else "false") ++
    ", stack: [ " ++ String.intercalate "," (trace.stack.map Value.text) ++ " ]"

end Befunge
