import TernaryMachine.Assembly.Layout
import TernaryMachine.Memory
/-! # Assembled programs

Once every label has its address, each statement of a layout becomes an instruction, and its words
are stored at its address.  `assemble` gives the memory and, beside it, a record of what stands
where: the instruction and the source line of each address, the labels and the warnings. -/

namespace TernaryMachine

/-- What is known of an assembled program. -/
structure ProgramInfo where
  /-- The instruction at each address where one starts. -/
  instructions : Table Int Instruction
  /-- The source line of each of these addresses. -/
  sourceLines : Table Int Nat
  /-- The addresses of the labels. -/
  labels : Table String Word
  /-- What was odd and no error. -/
  warnings : List String
  /-- The number of words. -/
  length : Nat
deriving DecidableEq

namespace ProgramInfo

/-- The labels bound to an address, in the order of their names. -/
def labelsBoundTo (info : ProgramInfo) (address : Int) : List String :=
  (info.labels.filter fun label => label.2.toInt == address).map Prod.fst

end ProgramInfo

structure Program where
  /-- The memory that holds the program from address zero on. -/
  memory : Memory
  info : ProgramInfo
deriving DecidableEq

namespace Program

def words (p : Program) : List Word :=
  match p.memory.region 0 p.info.length with
  | .ok words => words
  | .error _ => []

end Program

/-! ### Resolution -/

/-- The source operand of a written operand. -/
def Operand.resolve (labels : Table String Word) : Operand → Except AssemblyFault Source
  | register r => .ok (.register r)
  | immediate w => .ok (.immediate w)
  | label name =>
    match labels.find? name with
    | some address => .ok (.word address)
    | none => .error (.undeclaredLabel name)

def Statement.resolve (labels : Table String Word) (s : Statement) :
    Except AssemblyFault Instruction :=
  match s.operand.resolve labels with
  | .ok source => .ok ⟨s.opcode, s.direction, s.x, source⟩
  | .error fault => .error fault

/-! ### Emission -/

/-- A program whose statements are emitted up to some point. -/
structure Emission where
  memory : Memory
  /-- The instructions so far, last one first. -/
  instructions : Table Int Instruction
  /-- Their lines, last one first. -/
  sourceLines : Table Int Nat

namespace Emission

def empty : Emission :=
  ⟨.empty, [], []⟩

/-- Stores words from an address on. -/
def storeWords (m : Memory) (address : Int) : List Word → Except AssemblyFault Memory
  | [] => .ok m
  | w :: ws =>
    match m.store address w with
    | .ok m => storeWords m (address + 1) ws
    | .error _ => .error .programTooLarge

def emit (labels : Table String Word) (e : Emission) (p : Placed) :
    Except AssemblyFault Emission := do
  let i ← p.statement.resolve labels
  let encoding ← i.encode.mapError .encode
  let memory ← storeWords e.memory p.address encoding.words
  return ⟨memory, (p.address, i) :: e.instructions, (p.address, p.line) :: e.sourceLines⟩

/-- Emits statements in order. -/
def emitAll (labels : Table String Word) (e : Emission) :
    List Placed → Except AssemblyError Emission
  | [] => .ok e
  | p :: ps =>
    match e.emit labels p with
    | .ok e => emitAll labels e ps
    | .error fault => .error ⟨p.line, fault⟩

end Emission

namespace Layout

/-- The program of a complete layout. -/
def toProgram (l : Layout) : Except AssemblyError Program :=
  match Emission.empty.emitAll l.labels l.placed.reverse with
  | .error e => .error e
  | .ok e =>
    .ok
      { memory := e.memory
        info :=
          { instructions := e.instructions.reverse
            sourceLines := e.sourceLines.reverse
            labels := l.labels
            warnings := l.redeclared.reverse.map Redeclaration.message
            length := l.length } }

end Layout

namespace Scan

/-- The program of a scan, unless an error stopped it. -/
def toProgram (s : Scan) : Except AssemblyError Program :=
  match s.error with
  | some e => .error e
  | none => s.layout.toProgram

end Scan

/-- Assembles the text of a program. -/
def assemble (source : String) : Except AssemblyError Program :=
  (Layout.ofSource source.toList).toProgram

end TernaryMachine
