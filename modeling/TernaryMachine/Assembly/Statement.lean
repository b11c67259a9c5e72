import TernaryMachine.Instruction.Codec
import TernaryMachine.Text.Lines
/-! # Statements

A statement is one line of a program: a mnemonic and its operands, separated by commas.

* **Mnemonics** are read without regard to the case of letters.  Beside the mnemonics of the
  opcodes there are `LOD`, which is the same as `LDA`, and `STA`, which stores.
* **Signatures.**  A mnemonic fixes the number and the kinds of its operands: none, a target, or a
  register and a value.  A label is allowed as a target and as an address.
* **Operands** are the name of a register, nine sign characters, or a point and the name of a label.

`Statement.parse` checks the mnemonic, then the number of operands, then each operand, then
whether they suit the mnemonic. -/

namespace TernaryMachine

/-! ### Operands -/

/-- An operand as it is written. -/
inductive Operand where
  | register (r : Register)
  | immediate (w : Word)
  | label (name : String)
deriving DecidableEq, Repr

namespace Operand

def kind : Operand → String
  | register _ => "register"
  | immediate _ => "immediate"
  | label _ => "label"

def text : Operand → String
  | register r => r.name
  | immediate w => w.text
  | label name => "." ++ name

/-- The number of words of a statement with this operand.  A label always takes a second word,
because its address is not known yet. -/
def words : Operand → Nat
  | register _ => 1
  | immediate w => (Source.immediate w).mode.words
  | label _ => 2

end Operand

/-- Whether a character may stand in the name of a label: an ASCII letter or digit, `_` or `-`. -/
def isLabelChar (c : Char) : Bool :=
  c.isAlphanum || c == '_' || c == '-'

/-- Whether a text is the name of a label. -/
def namesLabel (cs : List Char) : Bool :=
  !cs.isEmpty && cs.all isLabelChar

/-! ### Faults -/

/-- What is wrong with the operands of a statement or with the name of a label. -/
inductive ArgumentFault where
  /-- A declared label has no proper name. -/
  | labelName (name : String)
  /-- An operand starts like a label and has no proper name. -/
  | labelOperand (position : Nat) (token : String)
  /-- An operand is of no kind. -/
  | unreadable (position : Nat) (token : String)
  /-- There are too many or too few operands. -/
  | count (mnemonic : String) (expected got : Nat)
  /-- The first operand has to be a register. -/
  | registerExpected (found : Operand)
  /-- The opcode takes no label. -/
  | labelNotAllowed (opcode : Opcode) (found : Operand)
deriving DecidableEq, Repr

namespace ArgumentFault

def message : ArgumentFault → String
  | labelName name => s!"invalid label name '.{name}'"
  | labelOperand position token => s!"operand {position}: invalid label '{token}'"
  | unreadable position token =>
    s!"operand {position}: '{token}' is not a register, a 9-trit immediate or a label"
  | count mnemonic expected got =>
    let plural := if expected = 1 then "" else "s"
    s!"{mnemonic} takes {expected} operand{plural}, got {got}"
  | registerExpected found =>
    s!"operand 1: expected a register, found {found.kind} '{found.text}'"
  | labelNotAllowed opcode found =>
    s!"operand 2: {opcode.mnemonic} takes a register or immediate, found label '{found.text}'"

end ArgumentFault

/-- Why a program does not assemble. -/
inductive AssemblyFault where
  /-- An operand or the name of a label is wrong. -/
  | argument (fault : ArgumentFault)
  /-- There is no such mnemonic. -/
  | unknownMnemonic (mnemonic : String)
  /-- A label is used and never declared. -/
  | undeclaredLabel (name : String)
  /-- The program runs past the top of memory. -/
  | programTooLarge
  /-- An instruction has no words. -/
  | encode (fault : EncodeError)
deriving DecidableEq, Repr

namespace AssemblyFault

def message : AssemblyFault → String
  | argument fault => fault.message
  | unknownMnemonic mnemonic => s!"unknown mnemonic '{mnemonic}'"
  | undeclaredLabel name => s!"undeclared label '.{name}'"
  | programTooLarge => "program does not fit in memory"
  | encode fault => fault.message

end AssemblyFault

/-- A fault and the number of its line. -/
structure AssemblyError where
  line : Nat
  fault : AssemblyFault
deriving DecidableEq, Repr

namespace AssemblyError

def message (e : AssemblyError) : String :=
  s!"line {e.line}: {e.fault.message}"

end AssemblyError

/-- Reads the operand at a position, counted from one. -/
def Operand.parse (position : Nat) (token : List Char) : Except ArgumentFault Operand :=
  match token with
  | '.' :: name =>
    if namesLabel name then
      .ok (.label (String.ofList name))
    else
      .error (.labelOperand position (String.ofList token))
  | _ =>
    match Register.parse? token with
    | some r => .ok (.register r)
    | none =>
      match Word.parse (String.ofList token) with
      | .ok w => .ok (.immediate w)
      | .error _ => .error (.unreadable position (String.ofList token))

/-! ### Mnemonics -/

/-- Which operands a mnemonic takes. -/
inductive Signature where
  /-- None. -/
  | empty
  /-- A register and a register or an immediate. -/
  | value
  /-- A register and a register, an immediate or a label. -/
  | address
  /-- A register, an immediate or a label. -/
  | target
deriving DecidableEq, Repr

namespace Signature

/-- The number of operands. -/
def arity : Signature → Nat
  | empty => 0
  | target => 1
  | value | address => 2

end Signature

/-- What a mnemonic stands for. -/
structure Mnemonic where
  opcode : Opcode
  direction : Direction
  signature : Signature
deriving DecidableEq, Repr

namespace Mnemonic

/-- The capital letters of a mnemonic. -/
def capitals (name : List Char) : String :=
  String.ofList (name.map Char.toUpper)

/-- The signature of an opcode under its own mnemonic. -/
def signatureOf (opcode : Opcode) : Signature :=
  if opcode = .nop then
    .empty
  else if opcode.isControlFlow then
    .target
  else if opcode = .lod then
    .address
  else
    .value

/-- The meaning of a mnemonic in capital letters. -/
def ofCapitals? (name : String) : Option Mnemonic :=
  if name = "LOD" then
    some ⟨.lod, .load, .address⟩
  else if name = "STA" then
    some ⟨.lod, .store, .address⟩
  else
    (Opcode.all.find? fun opcode => opcode.mnemonic == name).map fun opcode =>
      ⟨opcode, .load, signatureOf opcode⟩

/-- The meaning of a mnemonic; capital and small letters are the same. -/
def parse? (name : List Char) : Option Mnemonic :=
  ofCapitals? (capitals name)

end Mnemonic

/-! ### Statements -/

/-- An instruction whose operand may be a label. -/
structure Statement where
  opcode : Opcode
  direction : Direction
  x : Register
  operand : Operand
deriving DecidableEq, Repr

namespace Statement

/-- The number of words that a statement assembles to. -/
def words (s : Statement) : Nat :=
  s.operand.words

/-- The part of a line before its first blank. -/
def mnemonicPart (cs : List Char) : List Char :=
  cs.takeWhile fun c => !Text.isBlank c

/-- The part of a line after its first blank, without blanks at its ends. -/
def operandPart (cs : List Char) : List Char :=
  Text.trim (cs.dropWhile fun c => !Text.isBlank c)

/-- The operands of a line, separated by commas. -/
def tokens (operands : List Char) : List (List Char) :=
  match operands with
  | [] => []
  | _ => (Text.split ',' operands).map Text.trim

/-- The statement of a mnemonic with a register and another operand. -/
def ofPair (m : Mnemonic) (first second : Operand) : Except ArgumentFault Statement :=
  match first with
  | .register x =>
    match m.signature, second with
    | .value, .label _ => .error (.labelNotAllowed m.opcode second)
    | _, _ => .ok ⟨m.opcode, m.direction, x, second⟩
  | _ => .error (.registerExpected first)

/-- Reads the operands that a mnemonic takes. -/
def parseOperands (name : List Char) (m : Mnemonic) (tokens : List (List Char)) :
    Except ArgumentFault Statement :=
  match m.signature, tokens with
  | .empty, [] => .ok ⟨m.opcode, m.direction, .r0, .register .r0⟩
  | .target, [token] => do
    let target ← Operand.parse 1 token
    return ⟨m.opcode, m.direction, .r0, target⟩
  | .value, [a, b] | .address, [a, b] => do
    let first ← Operand.parse 1 a
    let second ← Operand.parse 2 b
    ofPair m first second
  | signature, _ => .error (.count (Mnemonic.capitals name) signature.arity tokens.length)

def parse (cs : List Char) : Except AssemblyFault Statement :=
  let name := mnemonicPart cs
  match Mnemonic.parse? name with
  | none => .error (.unknownMnemonic (String.ofList name))
  | some m => (parseOperands name m (tokens (operandPart cs))).mapError .argument

end Statement

end TernaryMachine
