import TernaryMachine.Instruction.Basic
/-! # Instruction words

An instruction is one word, followed by its value word if the operand is a full word.  The first
word has five fields, most significant trit first:

* the opcode, three trits;
* the addressing mode, one trit;
* the direction, one trit: `+` marks a store and goes with `lod` alone;
* the selector of `x`, two trits;
* the selector of the source register or the short immediate, two trits.

`Instruction.encode` writes an instruction and `Instruction.decode` reads one; the word after it is
looked at only if the mode asks for it. -/

namespace TernaryMachine

/-- Why an instruction has no words. -/
inductive EncodeError where
  /-- A short immediate does not fit in two trits. -/
  | shortOutOfRange (v : Int)
  /-- The opcode cannot store. -/
  | storeWithoutLod (opcode : Opcode)
  /-- A value does not fit in its field. -/
  | field (fault : RangeError)
deriving DecidableEq, Repr

namespace EncodeError

def message : EncodeError → String
  | shortOutOfRange v => s!"short immediate {v} out of range (-4 to +4)"
  | storeWithoutLod opcode =>
    s!"{opcode.mnemonic} cannot store; only LOD has a store direction"
  | field fault => s!"field does not fit: {fault.message}"

end EncodeError

/-- Why a word is no instruction. -/
inductive DecodeError where
  /-- No opcode has this number. -/
  | invalidOpcode (v : Int)
  /-- The direction trit does not go with the opcode. -/
  | invalidDirection (opcode : Opcode) (v : Int)
  /-- No register has this selector. -/
  | invalidSelector (v : Int)
  /-- The mode asks for a value word and there is none. -/
  | missingWord
deriving DecidableEq, Repr

namespace DecodeError

def message : DecodeError → String
  | invalidOpcode v => s!"invalid opcode: {v}"
  | invalidDirection opcode v => s!"invalid direction trit {v} for {opcode.mnemonic}"
  | invalidSelector v => s!"invalid register selector: {v}"
  | missingWord => "word-immediate instruction is missing its value word"

end DecodeError

structure Encoding where
  first : Word
  second : Option Word
deriving DecidableEq, Repr

namespace Encoding

/-- The words in memory order. -/
def words (e : Encoding) : List Word :=
  e.first :: e.second.toList

end Encoding

namespace Field

def opcode : Field where
  start := 0
  width := 3

def mode : Field where
  start := 3
  width := 1

def direction : Field where
  start := 4
  width := 1

/-- The field of the register `x`. -/
def x : Field where
  start := 5
  width := 2

/-- The field of the source register or the short immediate. -/
def y : Field where
  start := 7
  width := 2

end Field

namespace Instruction

/-! ### Writing -/

/-- What the last field holds: a selector, a short immediate, or zero before a value word. -/
def yValue : Source → Except EncodeError Int
  | .register r => .ok r.selector
  | .short v =>
    if -Source.shortLimit ≤ v ∧ v ≤ Source.shortLimit then .ok v else .error (.shortOutOfRange v)
  | .word _ => .ok 0

/-- The word that follows the first, if the operand is a full word. -/
def valueWord? : Source → Option Word
  | .word w => some w
  | .register _ | .short _ => none

/-- What the direction field holds. -/
def directionValue (opcode : Opcode) : Direction → Except EncodeError Int
  | .load => .ok 0
  | .store => if opcode = .lod then .ok 1 else .error (.storeWithoutLod opcode)

/-- The first word, made of the values of its five fields. -/
def pack (opcode mode direction x y : Int) : Except RangeError Word := do
  let w ← Word.zero.setField .opcode opcode
  let w ← w.setField .mode mode
  let w ← w.setField .direction direction
  let w ← w.setField .x x
  w.setField .y y

def encode (i : Instruction) : Except EncodeError Encoding := do
  let y ← yValue i.source
  let direction ← directionValue i.opcode i.direction
  let first ← (pack i.opcode.value i.mode.trit.toInt direction i.x.selector y).mapError .field
  return ⟨first, valueWord? i.source⟩

/-! ### Reading -/

/-- The direction that goes with an opcode. -/
def readDirection (opcode : Opcode) (v : Int) : Except DecodeError Direction :=
  if v = 0 then
    .ok .load
  else if v = 1 ∧ opcode = .lod then
    .ok .store
  else
    .error (.invalidDirection opcode v)

def readRegister (v : Int) : Except DecodeError Register :=
  match Register.ofSelector? v with
  | some r => .ok r
  | none => .error (.invalidSelector v)

/-- The source operand of a mode, a last field and the word that follows. -/
def readSource (mode : AddressMode) (y : Int) (next : Option Word) : Except DecodeError Source :=
  match mode with
  | .register => (readRegister y).map .register
  | .short => .ok (.short y)
  | .word =>
    match next with
    | some w => .ok (.word w)
    | none => .error .missingWord

def readOpcode (v : Int) : Except DecodeError Opcode :=
  match Opcode.ofValue? v with
  | some opcode => .ok opcode
  | none => .error (.invalidOpcode v)

/-- The instruction of a word and, if the mode asks for it, the word that follows. -/
def decode (first : Word) (next : Option Word) : Except DecodeError Instruction := do
  let opcode ← readOpcode (first.field .opcode)
  let direction ← readDirection opcode (first.field .direction)
  let x ← readRegister (first.field .x)
  let mode := AddressMode.ofTrit (.sign (first.field .mode))
  let source ← readSource mode (first.field .y) next
  return ⟨opcode, direction, x, source⟩

end Instruction

end TernaryMachine
