import TernaryMachine.Word.Arithmetic
/-! # Registers

* **Names.**  There are nine general registers: `r0` to `r6`, the link register `ra` and the stack
  pointer `sp`.  An instruction selects one by two trits, and the *selector* of a register is the
  number from `-4` to `4` that is congruent to its index modulo nine.
* **The file.**  `Registers` holds the nine words, the program counter, the flag of the last
  comparison and the carry of the last sum. -/

namespace TernaryMachine

inductive Register where
  | r0
  | r1
  | r2
  | r3
  | r4
  | r5
  | r6
  | ra
  | sp
deriving DecidableEq, Repr

namespace Register

/-- All registers in index order. -/
def all : List Register :=
  [r0, r1, r2, r3, r4, r5, r6, ra, sp]

/-- The place of a register in the file. -/
def index : Register → Fin 9
  | r0 => 0
  | r1 => 1
  | r2 => 2
  | r3 => 3
  | r4 => 4
  | r5 => 5
  | r6 => 6
  | ra => 7
  | sp => 8

theorem index_inj {a b : Register} : a.index = b.index ↔ a = b := by
  cases a <;> cases b <;> decide

/-! ### Selectors -/

def selector : Register → Int
  | r0 => 0
  | r1 => 1
  | r2 => 2
  | r3 => 3
  | r4 => 4
  | r5 => -4
  | r6 => -3
  | ra => -2
  | sp => -1

def ofSelector? (v : Int) : Option Register :=
  all.find? fun r => r.selector == v

theorem ofSelector?_selector (r : Register) : ofSelector? r.selector = some r := by
  cases r <;> rfl

/-! ### Names -/

/-- The name of a register in a program. -/
def name : Register → String
  | r0 => "r0"
  | r1 => "r1"
  | r2 => "r2"
  | r3 => "r3"
  | r4 => "r4"
  | r5 => "r5"
  | r6 => "r6"
  | ra => "ra"
  | sp => "sp"

instance : ToString Register := ⟨name⟩

/-- The name of a register with a capital, used in stored data. -/
def label : Register → String
  | r0 => "R0"
  | r1 => "R1"
  | r2 => "R2"
  | r3 => "R3"
  | r4 => "R4"
  | r5 => "R5"
  | r6 => "R6"
  | ra => "Ra"
  | sp => "Sp"

/-- Reads the name of a register; capital and small letters are the same. -/
def parse? (s : List Char) : Option Register :=
  all.find? fun r => r.name.toList == s.map Char.toLower

end Register

/-- The registers of a machine. -/
structure Registers where
  /-- The general registers, in index order. -/
  general : Vector Word 9
  /-- The address of the next instruction. -/
  pc : Word
  /-- The sign of the last comparison. -/
  flag : Trit
  /-- The carry out of the last sum. -/
  carry : Trit
deriving DecidableEq

namespace Registers

/-- The registers at the start: all zero. -/
def empty : Registers :=
  ⟨Vector.replicate 9 .zero, .zero, .zero, .zero⟩

instance : Inhabited Registers := ⟨empty⟩

def get (regs : Registers) (r : Register) : Word :=
  regs.general.get r.index

def set (regs : Registers) (r : Register) (w : Word) : Registers :=
  { regs with general := regs.general.set r.index.val w r.index.isLt }

/-- Keeps the outcome of a comparison in the flag. -/
def setFlag (regs : Registers) : Ordering → Registers
  | .lt => { regs with flag := .minus }
  | .eq => { regs with flag := .zero }
  | .gt => { regs with flag := .plus }

/-- Moves the program counter on by a number of words, from the top of memory to the bottom. -/
def advance (regs : Registers) (words : Int) : Registers :=
  { regs with pc := .wrap (regs.pc.toInt + words) }

/-- Moves the program counter to an address. -/
def jump (regs : Registers) (address : Word) : Registers :=
  { regs with pc := address }

/-- The text of the registers for inspection. -/
def inspect (regs : Registers) : String :=
  let words := ", ".intercalate (regs.general.toList.map Word.inspect)
  s!"Registers \x7b gpr: [{words}], pc: {regs.pc.inspect}, flag: {regs.flag.letter}, "
    ++ s!"carry: {regs.carry.letter} \x7d"

end Registers

end TernaryMachine
