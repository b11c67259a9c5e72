import TernaryMachine.Alu
import TernaryMachine.Register
/-! # Instructions

An instruction is an opcode, a direction, a register `x` and a source operand.

* **Opcodes** have a number from `-13` to `9` (`-12` is not used) and a mnemonic.  Thirteen of them
  are operations of the arithmetic and logic unit; five move the program counter and use no
  register `x`.
* **Directions.**  The opcode `lod` loads a cell into `x`, or stores `x` into a cell.
* **Sources.**  The operand is a register, a short immediate held in the instruction word, or a
  full word that follows it.  The addressing mode says which, so it fixes the number of words. -/

namespace TernaryMachine

/-- The operation that an instruction asks for. -/
inductive Opcode where
  | add
  | addc
  | mul
  | div
  | mod
  | neg
  | min
  | max
  | con
  | any
  | rsh
  | ush
  | nop
  | mov
  | cmp
  | jmp
  | beq
  | bgt
  | blt
  | jal
  | lod
  | xor
deriving DecidableEq, Repr

namespace Opcode

/-- All opcodes in the order of their numbers. -/
def all : List Opcode :=
  [add, addc, mul, div, mod, neg, min, max, con, any, rsh, ush, nop, mov, cmp, jmp, beq, bgt, blt,
    jal, lod, xor]

def value : Opcode → Int
  | add => -13
  | addc => -11
  | mul => -10
  | div => -9
  | mod => -8
  | neg => -7
  | min => -6
  | max => -5
  | con => -4
  | any => -3
  | rsh => -2
  | ush => -1
  | nop => 0
  | mov => 1
  | cmp => 2
  | jmp => 3
  | beq => 4
  | bgt => 5
  | blt => 6
  | jal => 7
  | lod => 8
  | xor => 9

def ofValue? (v : Int) : Option Opcode :=
  all.find? fun op => op.value == v

theorem ofValue?_value (op : Opcode) : ofValue? op.value = some op := by
  cases op <;> rfl

/-- The mnemonic of an opcode; that of `lod` names a load. -/
def mnemonic : Opcode → String
  | add => "ADD"
  | addc => "ADDC"
  | mul => "MUL"
  | div => "DIV"
  | mod => "MOD"
  | neg => "NEG"
  | min => "MIN"
  | max => "MAX"
  | con => "CON"
  | any => "ANY"
  | rsh => "RSH"
  | ush => "USH"
  | nop => "NOP"
  | mov => "MOV"
  | cmp => "CMP"
  | jmp => "JMP"
  | beq => "BEQ"
  | bgt => "BGT"
  | blt => "BLT"
  | jal => "JAL"
  | lod => "LDA"
  | xor => "XOR"

/-- The name of an opcode in stored data. -/
def label : Opcode → String
  | add => "Add"
  | addc => "Addc"
  | mul => "Mul"
  | div => "Div"
  | mod => "Mod"
  | neg => "Neg"
  | min => "Min"
  | max => "Max"
  | con => "Con"
  | any => "Any"
  | rsh => "Rsh"
  | ush => "Ush"
  | nop => "Nop"
  | mov => "Mov"
  | cmp => "Cmp"
  | jmp => "Jmp"
  | beq => "Beq"
  | bgt => "Bgt"
  | blt => "Blt"
  | jal => "Jal"
  | lod => "Lod"
  | xor => "Xor"

/-- The operation of the unit behind an opcode. -/
def aluOp? : Opcode → Option AluOp
  | add => some .add
  | addc => some .addWithCarry
  | mul => some .multiply
  | div => some .divide
  | mod => some .modulo
  | neg => some .negate
  | min => some .min
  | max => some .max
  | con => some .consensus
  | any => some .any
  | rsh => some .rotateShift
  | ush => some .unsignedShift
  | xor => some .xor
  | nop | mov | cmp | jmp | beq | bgt | blt | jal | lod => none

/-- Whether the opcode moves the program counter; such an instruction has a target and no `x`. -/
def isControlFlow : Opcode → Bool
  | jmp | beq | bgt | blt | jal => true
  | _ => false

end Opcode

/-- How the source operand is supplied. -/
inductive AddressMode where
  | register
  | short
  | word
deriving DecidableEq, Repr

namespace AddressMode

def all : List AddressMode :=
  [register, short, word]

def ofTrit : Trit → AddressMode
  | .zero => register
  | .plus => short
  | .minus => word

def trit : AddressMode → Trit
  | register => .zero
  | short => .plus
  | word => .minus

theorem ofTrit_trit (mode : AddressMode) : ofTrit mode.trit = mode := by
  cases mode <;> rfl

/-- The name of a mode in stored data. -/
def label : AddressMode → String
  | register => "RegisterRegister"
  | short => "ShortImmediate"
  | word => "WordImmediate"

/-- The number of words that an instruction of this mode takes. -/
def words : AddressMode → Nat
  | word => 2
  | register | short => 1

end AddressMode

/-- Whether `lod` reads or writes memory; all other opcodes have `load`. -/
inductive Direction where
  | load
  | store
deriving DecidableEq, Repr

namespace Direction

def all : List Direction :=
  [load, store]

/-- The name of a direction in stored data. -/
def label : Direction → String
  | load => "Load"
  | store => "Store"

end Direction

/-- The source operand of an instruction. -/
inductive Source where
  | register (r : Register)
  | short (v : Int)
  | word (w : Word)
deriving DecidableEq, Repr

namespace Source

def mode : Source → AddressMode
  | register _ => .register
  | short _ => .short
  | word _ => .word

/-- The largest short immediate; the smallest is its opposite. -/
def shortLimit : Int := 4

/-- The shortest operand for an immediate value. -/
def immediate (w : Word) : Source :=
  if -shortLimit ≤ w.toInt ∧ w.toInt ≤ shortLimit then short w.toInt else word w

end Source

structure Instruction where
  opcode : Opcode
  direction : Direction
  /-- The register that is changed, or the one that is stored. -/
  x : Register
  source : Source
deriving DecidableEq, Repr

namespace Instruction

/-- An instruction that does not store. -/
def plain (opcode : Opcode) (x : Register) (source : Source) : Instruction :=
  ⟨opcode, .load, x, source⟩

/-- An instruction that moves the program counter to a target. -/
def branch (opcode : Opcode) (target : Source) : Instruction :=
  plain opcode .r0 target

/-- The instruction that stores a register at an address. -/
def store (x : Register) (address : Source) : Instruction :=
  ⟨.lod, .store, x, address⟩

def nop : Instruction :=
  plain .nop .r0 (.register .r0)

def mode (i : Instruction) : AddressMode :=
  i.source.mode

def words (i : Instruction) : Nat :=
  i.mode.words

end Instruction

/-! ### Text -/

/-- The text of an operand; an immediate is written as a word. -/
def Source.text : Source → String
  | register r => r.name
  | short v => (Word.wrap v).text
  | word w => w.text

/-- The mnemonic of an instruction, which tells a store from a load. -/
def Instruction.mnemonic (i : Instruction) : String :=
  match i.opcode, i.direction with
  | .lod, .store => "STA"
  | opcode, _ => opcode.mnemonic

/-- The text of an instruction as a program writes it. -/
def Instruction.text (i : Instruction) : String :=
  if i.opcode = .nop then
    i.mnemonic
  else if i.opcode.isControlFlow then
    s!"{i.mnemonic} {i.source.text}"
  else
    s!"{i.mnemonic} {i.x.name}, {i.source.text}"

end TernaryMachine
