import TernaryMachine.Instruction.Codec
import TernaryMachine.Memory
/-! # The machine

A machine is its registers and its memory, with a count of the instructions executed and the last
of them.

* **Steps.**  `Machine.step` fetches the word at the program counter and the word after it, decodes
  them, moves the program counter past the instruction and executes it.  A jump then overrides the
  program counter.
* **Faults.**  A word that does not decode changes nothing but the status: the machine is faulted,
  and executes nothing more until it is reset or loaded again.
* **Runs.**  The machine never halts by itself; `Machine.run` executes a given number of steps and
  stops early at a fault alone.
* **Starting again.**  `Machine.reset`, `Machine.loadImage` and `Machine.loadProgram` leave nothing
  of what was there before. -/

namespace TernaryMachine

/-- Whether a machine still executes. -/
inductive Status where
  | running
  | faulted
deriving DecidableEq, Repr

namespace Status

def all : List Status :=
  [running, faulted]

/-- The name of a status in stored data. -/
def label : Status → String
  | running => "Running"
  | faulted => "Faulted"

end Status

/-- Why a step executes nothing. -/
inductive StepError where
  /-- The machine is faulted already. -/
  | faulted
  /-- The word at the program counter is no instruction. -/
  | decode (fault : DecodeError)
deriving DecidableEq, Repr

namespace StepError

def message : StepError → String
  | faulted => "machine is faulted; reset it before stepping again"
  | decode fault => s!"cannot decode instruction: {fault.message}"

end StepError

structure Machine where
  registers : Registers
  memory : Memory
  status : Status
  /-- The number of instructions executed since the last reset. -/
  cycles : Nat
  /-- The instruction executed last. -/
  last : Option Instruction
deriving DecidableEq

/-- A machine after steps, and what came of them. -/
structure Outcome (α : Type) where
  machine : Machine
  result : Except StepError α

namespace Machine

/-- The machine that starts on a memory, with all registers zero. -/
def start (memory : Memory) : Machine :=
  ⟨.empty, memory, .running, 0, none⟩

/-- The machine whose registers and memory are all zero. -/
def empty : Machine :=
  start .empty

instance : Inhabited Machine := ⟨empty⟩

/-- The machine that starts on a program at address zero.  If the program does not fit, the machine
is left empty beside the error. -/
def ofProgram (program : List Word) : Machine × Except MemoryError Unit :=
  match Memory.empty.install 0 program with
  | .ok memory => (start memory, .ok ())
  | .error e => (empty, .error e)

/-! ### Starting again -/

/-- The machine with registers and memory zero again, and nothing executed. -/
def reset (m : Machine) : Machine :=
  { m with registers := .empty, memory := m.memory.clear, status := .running, cycles := 0,
           last := none }

/-- The machine reset, with another memory. -/
def loadImage (m : Machine) (image : Memory) : Machine :=
  { m.reset with memory := image }

/-- The machine reset, with a program at address zero if it fits. -/
def loadProgram (m : Machine) (program : List Word) : Machine × Except MemoryError Unit :=
  match m.reset.memory.install 0 program with
  | .ok memory => ({ m.reset with memory := memory }, .ok ())
  | .error e => (m.reset, .error e)

/-! ### Execution -/

/-- The value of a source operand. -/
def operand (m : Machine) : Source → Word
  | .register r => m.registers.get r
  | .short v => .wrap v
  | .word w => w

/-- The machine with another word in a register. -/
def setRegister (m : Machine) (r : Register) (w : Word) : Machine :=
  { m with registers := m.registers.set r w }

/-- The machine with the program counter at an address. -/
def jump (m : Machine) (address : Word) : Machine :=
  { m with registers := m.registers.jump address }

/-- Jumps if the flag has a given value. -/
def jumpIf (m : Machine) (flag : Trit) (address : Word) : Machine :=
  if m.registers.flag = flag then m.jump address else m

/-- Combines a register with an operand.  The two sums also keep their carry. -/
def operate (m : Machine) (op : AluOp) (x : Register) (operand : Word) : Machine :=
  let sum := op.apply (m.registers.get x) operand m.registers.carry
  let registers := m.registers.set x sum.word
  match op with
  | .add | .addWithCarry => { m with registers := { registers with carry := sum.carry } }
  | _ => { m with registers := registers }

/-- Moves a word between a register and the cell at an address. -/
def transfer (m : Machine) (direction : Direction) (x : Register) (address : Word) : Machine :=
  match direction with
  | .load => m.setRegister x (m.memory.read address)
  | .store => { m with memory := m.memory.write address (m.registers.get x) }

/-- Executes an instruction; the program counter is past it already. -/
def execute (m : Machine) (i : Instruction) : Machine :=
  let operand := m.operand i.source
  match i.opcode.aluOp?, i.opcode with
  | some op, _ => m.operate op i.x operand
  | none, .mov => m.setRegister i.x operand
  | none, .cmp =>
    { m with registers := m.registers.setFlag ((m.registers.get i.x).compare operand) }
  | none, .lod => m.transfer i.direction i.x operand
  | none, .jmp => m.jump operand
  | none, .beq => m.jumpIf .zero operand
  | none, .bgt => m.jumpIf .plus operand
  | none, .blt => m.jumpIf .minus operand
  | none, .jal => (m.setRegister .ra m.registers.pc).jump operand
  | none, _ => m

/-! ### Steps -/

/-- The word at the program counter. -/
def fetched (m : Machine) : Word :=
  m.memory.read m.registers.pc

def fetch (m : Machine) : Except DecodeError Instruction :=
  Instruction.decode m.fetched (some (m.memory.read m.registers.pc.succ))

/-- Executes an instruction at the program counter and keeps count of it. -/
def perform (m : Machine) (i : Instruction) : Machine :=
  let m := { m with registers := m.registers.advance i.words }
  let m := m.execute i
  { m with cycles := m.cycles + 1, last := some i }

/-- Executes the instruction at the program counter. -/
def step (m : Machine) : Outcome Instruction :=
  match m.status with
  | .faulted => ⟨m, .error .faulted⟩
  | .running =>
    match m.fetch with
    | .error fault => ⟨{ m with status := .faulted }, .error (.decode fault)⟩
    | .ok i => ⟨m.perform i, .ok i⟩

/-- Executes `n` more steps after `done` of them; the result is their number. -/
def runFrom (done : Nat) : Nat → Machine → Outcome Nat
  | 0, m => ⟨m, .ok done⟩
  | n + 1, m =>
    match m.step with
    | ⟨m, .error e⟩ => ⟨m, .error e⟩
    | ⟨m, .ok _⟩ => runFrom (done + 1) n m

/-- Executes steps until there were `n`, or until one fails. -/
def run (m : Machine) (n : Nat) : Outcome Nat :=
  runFrom 0 n m

/-! ### Observations -/

/-- Whether a fault stopped the machine. -/
def isFaulted (m : Machine) : Bool :=
  m.status == .faulted

/-- The text of a machine for inspection. -/
def inspect (m : Machine) : String :=
  s!"Vm \x7b pc: {m.registers.pc.inspect}, registers: {m.registers.inspect}, "
    ++ s!"state: {m.status.label}, steps: {m.cycles} \x7d"

end Machine

end TernaryMachine
