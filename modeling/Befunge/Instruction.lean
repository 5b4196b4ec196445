import Befunge.Dialect
import Befunge.Heading

/-! The instructions, and which byte stands for which of them in a dialect. Every
byte stands for something: those that a dialect does not use stand for the unknown
instruction. -/

namespace Befunge

inductive Arithmetic where
  | add
  | sub
  | mul
  | div
  | mod
  deriving DecidableEq

def Arithmetic.apply : Arithmetic → Value → Value → Value
  | add, left, right => left + right
  | sub, left, right => left - right
  | mul, left, right => left * right
  | div, left, right => left.floorDiv right
  | mod, left, right => left.floorMod right

inductive Instruction where
  /-- Pushes the number that a digit stands for. -/
  | digit (number : Nat)
  | quote
  /-- Pushes the byte of the next cell and skips that cell. -/
  | fetch
  /-- Pops a value into the next cell and skips that cell. -/
  | store
  | arithmetic (operation : Arithmetic)
  | not
  | greater
  | duplicate
  | swap
  | discard
  | clear
  | beginBlock
  | endBlock
  | underStack
  | go (heading : Heading)
  | random
  /-- Pops a value and heads east on zero, west otherwise. -/
  | ifHorizontal
  /-- Pops a value and heads south on zero, north otherwise. -/
  | ifVertical
  | trampoline
  | reflect
  | turnLeft
  | turnRight
  /-- Pops two values and turns left or right by which of them is less. -/
  | compare
  | setDelta
  | jumpForward
  /-- Walks on to the next cell that holds the same byte. -/
  | jumpOver
  | nop
  | put
  | get
  | printNumber
  | printChar
  | readNumber
  | readChar
  | halt
  | quit
  | unknown
  deriving DecidableEq

namespace Instruction

/-- The instructions that all dialects of the plane have. -/
def decodeBasic (c : Char) : Instruction :=
  match c with
  | '"' => quote
  | '+' => arithmetic .add
  | '-' => arithmetic .sub
  | '*' => arithmetic .mul
  | '/' => arithmetic .div
  | '%' => arithmetic .mod
  | '!' => not
  | '\x60' => greater
  | ':' => duplicate
  | '\\' => swap
  | '$' => discard
  | '>' => go .east
  | '<' => go .west
  | '^' => go .north
  | 'v' => go .south
  | '?' => random
  | '_' => ifHorizontal
  | '|' => ifVertical
  | '#' => trampoline
  | ' ' => nop
  | 'p' => put
  | 'g' => get
  | '.' => printNumber
  | ',' => printChar
  | '&' => readNumber
  | '~' => readChar
  | '@' => halt
  | c => if c.isDigit then digit (c.toNat - '0'.toNat) else unknown

/-- The instructions of Funge-98 on the plane. -/
def decodeExtended (c : Char) : Instruction :=
  match c with
  | 'a' => digit 10
  | 'b' => digit 11
  | 'c' => digit 12
  | 'd' => digit 13
  | 'e' => digit 14
  | 'f' => digit 15
  | '\'' => fetch
  | 's' => store
  | 'n' => clear
  | '{' => beginBlock
  | '}' => endBlock
  | 'u' => underStack
  | 'r' => reflect
  | '[' => turnLeft
  | ']' => turnRight
  | 'w' => compare
  | 'x' => setDelta
  | 'j' => jumpForward
  | ';' => jumpOver
  | 'z' => nop
  | 'q' => quit
  | c => decodeBasic c

/-- The instructions of Funge-98 on a line, which has no use for those that need a
second axis. -/
def decodeLinear (c : Char) : Instruction :=
  match c with
  | '^' | 'v' | '|' | '[' | ']' | 'w' => unknown
  | c => decodeExtended c

def decode (dialect : Dialect) (byte : UInt8) : Instruction :=
  let c := Char.ofUInt8 byte
  match dialect with
  | .befunge93 => decodeBasic c
  | .unefunge98 => decodeLinear c
  | .befunge98 => decodeExtended c

def name : Instruction → String
  | digit number => "DIGIT(" ++ toString number ++ ")"
  | quote => "QUOTE"
  | fetch => "FETCH"
  | store => "STORE"
  | arithmetic .add => "ADD"
  | arithmetic .sub => "SUB"
  | arithmetic .mul => "MUL"
  | arithmetic .div => "DIV"
  | arithmetic .mod => "MOD"
  | not => "NOT"
  | greater => "GT"
  | duplicate => "DUP"
  | swap => "SWAP"
  | discard => "DISCARD"
  | clear => "CLEAR"
  | beginBlock => "BEGIN"
  | endBlock => "END"
  | underStack => "UNDER"
  | go heading => "GO(" ++ heading.name ++ ")"
  | random => "RANDOM"
  | ifHorizontal => "IFH"
  | ifVertical => "IFV"
  | trampoline => "TRAMPOLINE"
  | reflect => "REFLECT"
  | turnLeft => "LEFT"
  | turnRight => "RIGHT"
  | compare => "COMPARE"
  | setDelta => "DELTA"
  | jumpForward => "JUMP"
  | jumpOver => "JUMPOVER"
  | nop => "NOP"
  | put => "PUT"
  | get => "GET"
  | printNumber => "PRINTNUM"
  | printChar => "PRINTCHR"
  | readNumber => "READNUM"
  | readChar => "READCHR"
  | halt => "HALT"
  | quit => "QUIT"
  | unknown => "UNKNOWN"

end Instruction

end Befunge
