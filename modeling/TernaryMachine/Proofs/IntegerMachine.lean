import TernaryMachine.Instruction.Basic
import TernaryMachine.Proofs.Digits
/-! # The integer machine

What the machine does, said of integers alone.

* **State.**  Every register, the program counter and every cell is an integer; addresses are
  integers too.  `n.bmod Word.count` is the only integer from `-9841` to `9841` that is congruent to
  `n` modulo `19683`, and the machine takes it wherever a result may leave that range.
* **Decoding.**  The fields of an instruction are parts of the integer of its word
  (`Numeral.part`), and the operand is a register, the last field, or the next cell.
* **Execution.**  Sums, products and shifts up are remainders; the carry of a sum is its overflow.
  Quotients round toward zero and shifts down to the nearest integer.  Rotations and connectives
  move and combine balanced digits. -/

namespace TernaryMachine

/-- A machine whose words are integers. -/
structure IntegerMachine where
  registers : Register → Int
  pc : Int
  /-- The sign of the last comparison. -/
  flag : Int
  /-- The overflow of the last sum. -/
  carry : Int
  /-- The cells; there is none, so zero, outside the range of a word. -/
  cells : Int → Int

/-- What an instruction asks for, with its operand evaluated. -/
structure Order where
  opcode : Opcode
  direction : Direction
  x : Register
  operand : Int
  /-- The number of words of the instruction. -/
  words : Nat

namespace IntegerMachine

/-! ### Decoding -/

/-- The direction that a digit stands for; only `lod` can store. -/
def direction? (opcode : Opcode) (digit : Int) : Option Direction :=
  if digit = 0 then some .load
  else if digit = 1 ∧ opcode = .lod then some .store
  else none

/-- The operand of a mode and a last field. -/
def operand? (s : IntegerMachine) (mode y : Int) : Option Int :=
  if mode = 0 then (Register.ofSelector? y).map s.registers
  else if mode = 1 then some y
  else some (s.cells ((s.pc + 1).bmod Word.count))

/-- The order at the program counter. -/
def decode (s : IntegerMachine) : Option Order := do
  let v := s.cells s.pc
  let opcode ← Opcode.ofValue? (Numeral.part v 6 3)
  let direction ← direction? opcode (Numeral.digit v 4)
  let x ← Register.ofSelector? (Numeral.part v 2 2)
  let mode := Numeral.digit v 5
  let operand ← s.operand? mode (Numeral.part v 0 2)
  return ⟨opcode, direction, x, operand, if mode = -1 then 2 else 1⟩

/-! ### Operations -/

/-- The product by a power of three, or the rounded quotient. -/
def shift (v amount : Int) : Int :=
  if 0 ≤ amount then (v * 3 ^ amount.natAbs).bmod Word.count
  else Numeral.scaleDown v amount.natAbs

/-- The integer whose nine digits are moved around by an amount. -/
def rotate (v amount : Int) : Int :=
  Numeral.compose 9 fun i => Numeral.digit v ((i - amount) % 9).toNat

/-- The integer whose nine digits are combined from those of two others. -/
def digitwise (f : Int → Int → Int) (a b : Int) : Int :=
  Numeral.compose 9 fun i => f (Numeral.digit a i) (Numeral.digit b i)

/-- The digit that is not zero, if only one is. -/
def xorDigit (a b : Int) : Int :=
  if a = 0 then b else if b = 0 then a else 0

def consensusDigit (a b : Int) : Int :=
  if a = b then a else 0

/-- The sign of the sum of two digits. -/
def anyDigit (a b : Int) : Int :=
  (a + b).sign

/-! ### Execution -/

def put (s : IntegerMachine) (r : Register) (v : Int) : IntegerMachine :=
  { s with registers := Function.update s.registers r v }

/-- The machine with the remainder of a sum in a register and its overflow in the carry. -/
def putSum (s : IntegerMachine) (r : Register) (sum : Int) : IntegerMachine :=
  { s.put r (sum.bmod Word.count) with carry := (sum - sum.bmod Word.count) / Word.count }

def jump (s : IntegerMachine) (address : Int) : IntegerMachine :=
  { s with pc := address }

def jumpIf (s : IntegerMachine) (flag address : Int) : IntegerMachine :=
  if s.flag = flag then s.jump address else s

/-- Executes an order; the program counter is past it already. -/
def execute (s : IntegerMachine) (o : Order) : IntegerMachine :=
  let x := s.registers o.x
  match o.opcode, o.direction with
  | .nop, _ => s
  | .mov, _ => s.put o.x o.operand
  | .cmp, _ => { s with flag := (x - o.operand).sign }
  | .lod, .load => s.put o.x (s.cells o.operand)
  | .lod, .store => { s with cells := Function.update s.cells o.operand x }
  | .jmp, _ => s.jump o.operand
  | .beq, _ => s.jumpIf 0 o.operand
  | .bgt, _ => s.jumpIf 1 o.operand
  | .blt, _ => s.jumpIf (-1) o.operand
  | .jal, _ => (s.put .ra s.pc).jump o.operand
  | .add, _ => s.putSum o.x (x + o.operand)
  | .addc, _ => s.putSum o.x (x + o.operand + s.carry)
  | .mul, _ => s.put o.x ((x * o.operand).bmod Word.count)
  | .div, _ => s.put o.x (if o.operand = 0 then x else x.tdiv o.operand)
  | .mod, _ => s.put o.x (if o.operand = 0 then x else x.tmod o.operand)
  | .neg, _ => s.put o.x (-o.operand)
  | .min, _ => s.put o.x (digitwise min x o.operand)
  | .max, _ => s.put o.x (digitwise max x o.operand)
  | .xor, _ => s.put o.x (digitwise xorDigit x o.operand)
  | .con, _ => s.put o.x (digitwise consensusDigit x o.operand)
  | .any, _ => s.put o.x (digitwise anyDigit x o.operand)
  | .rsh, _ => s.put o.x (rotate x o.operand)
  | .ush, _ => s.put o.x (shift x o.operand)

/-- Executes the order at the program counter, if there is one. -/
def step (s : IntegerMachine) : Option IntegerMachine :=
  s.decode.map fun o => execute (s.jump ((s.pc + o.words).bmod Word.count)) o

def run : Nat → IntegerMachine → Option IntegerMachine
  | 0, s => some s
  | n + 1, s => (run n s).bind step

end IntegerMachine

end TernaryMachine
