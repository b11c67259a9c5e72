import TernaryMachine.Assembly.Program
import TernaryMachine.Json.Basic
import TernaryMachine.Machine
import TernaryMachine.Text.Decimal
/-! # The JSON forms of the machine's data

Each type that is stored has a form, and a reader that takes a value back and refuses every other.

* **Names.**  A trit, a register, an opcode and the other enumerations are variants without
  content.
* **Words** are their sign strings.
* **Records.**  Instructions, register files and debug information are records; a source operand is
  a variant with its register, number or word as content.
* **Tables.**  A table is an object.  An address as a name is a decimal integer in its shortest
  form, and the order of the fields does not matter to the reader. -/

namespace TernaryMachine

/-- Types with a JSON form. -/
class JsonForm (α : Type) where
  toJson : α → Json
  ofJson? : Json → Option α

namespace JsonForm

/-- The form of an enumeration: each value is a variant without content. -/
@[reducible] def ofNames {α : Type} (all : List α) (name : α → String) : JsonForm α where
  toJson a := .string (name a)
  ofJson? j :=
    match j.plainVariant? with
    | some s => all.find? fun a => name a == s
    | none => none

/-! ### Names and words -/

instance : JsonForm Trit := ofNames Trit.all Trit.letter

instance : JsonForm AluOp := ofNames AluOp.all AluOp.name

instance : JsonForm Opcode := ofNames Opcode.all Opcode.label

instance : JsonForm Register := ofNames Register.all Register.label

instance : JsonForm AddressMode := ofNames AddressMode.all AddressMode.label

instance : JsonForm Direction := ofNames Direction.all Direction.label

instance : JsonForm Status := ofNames Status.all Status.label

instance : JsonForm Word where
  toJson w := .string w.text
  ofJson? j := do
    let s ← j.string?
    (Word.parse s).toOption

/-! ### Instructions -/

instance : JsonForm Source where
  toJson
    | .register r => .object [("Register", toJson r)]
    | .short v => .object [("Short", .number v)]
    | .word w => .object [("Word", toJson w)]
  ofJson? j :=
    match j.variant? with
    | some ("Register", some content) => (ofJson? content).map Source.register
    | some ("Short", some content) => (content.intBetween? (-128) 127).map Source.short
    | some ("Word", some content) => (ofJson? content).map Source.word
    | _ => none

instance : JsonForm Instruction where
  toJson i := .object
    [("opcode", toJson i.opcode), ("direction", toJson i.direction), ("x", toJson i.x),
      ("source", toJson i.source)]
  ofJson? j :=
    match j.record? ["opcode", "direction", "x", "source"] with
    | some [opcode, direction, x, source] => do
      let opcode ← ofJson? opcode
      let direction ← ofJson? direction
      let x ← ofJson? x
      let source ← ofJson? source
      return ⟨opcode, direction, x, source⟩
    | _ => none

/-! ### Registers -/

/-- Nine words, one for each general register. -/
def generalOfJson? (j : Json) : Option (Vector Word 9) := do
  let items ← j.array?
  let words ← items.mapM ofJson?
  if h : words.toArray.size = 9 then
    return ⟨words.toArray, h⟩
  else
    none

instance : JsonForm Registers where
  toJson regs := .object
    [("gpr", .array (regs.general.toList.map toJson)), ("pc", toJson regs.pc),
      ("flag", toJson regs.flag), ("carry", toJson regs.carry)]
  ofJson? j :=
    match j.record? ["gpr", "pc", "flag", "carry"] with
    | some [general, pc, flag, carry] => do
      let general ← generalOfJson? general
      let pc ← ofJson? pc
      let flag ← ofJson? flag
      let carry ← ofJson? carry
      return ⟨general, pc, flag, carry⟩
    | _ => none

/-! ### Tables -/

/-- The natural number of digits without needless zeros. -/
def natOfName? (digits : List Char) : Option Nat :=
  match digits with
  | '0' :: _ :: _ => none
  | _ => Text.natOfDigits? digits

/-- The address of at most thirty-two bits that a name stands for; zero has no sign. -/
def addressOfName? (name : String) : Option Int :=
  match name.toList with
  | '-' :: digits => do
    let n ← natOfName? digits
    if 0 < n ∧ n ≤ 2147483648 then some (-(n : Int)) else none
  | digits => do
    let n ← natOfName? digits
    if n ≤ 2147483647 then some (n : Int) else none

/-- The object of a table. -/
def tableToJson {κ α : Type} (name : κ → String) (value : α → Json) (table : Table κ α) : Json :=
  .object (table.map fun (key, a) => (name key, value a))

/-- The table of an object. -/
def tableOfJson? {κ α : Type} [DecidableEq κ] [LT κ] [DecidableLT κ] (key? : String → Option κ)
    (value? : Json → Option α) (j : Json) : Option (Table κ α) := do
  let fields ← j.object?
  let entries ← fields.mapM fun (name, value) => do
    let key ← key? name
    let a ← value? value
    return (key, a)
  return entries.foldl (fun table (key, a) => Table.insert key a table) []

/-! ### Debug information -/

instance : JsonForm ProgramInfo where
  toJson info := .object
    [("instructions", tableToJson toString toJson info.instructions),
      ("source_lines", tableToJson toString (fun (n : Nat) => .number n) info.sourceLines),
      ("labels", tableToJson id toJson info.labels),
      ("warnings", .array (info.warnings.map .string)),
      ("len", .number info.length)]
  ofJson? j :=
    match j.record? ["instructions", "source_lines", "labels", "warnings", "len"] with
    | some [instructions, sourceLines, labels, warnings, length] => do
      let instructions ← tableOfJson? addressOfName? ofJson? instructions
      let sourceLines ← tableOfJson? addressOfName? Json.size? sourceLines
      let labels ← tableOfJson? some ofJson? labels
      let warnings ← (← warnings.array?).mapM Json.string?
      let length ← length.size?
      return ⟨instructions, sourceLines, labels, warnings, length⟩
    | _ => none

end JsonForm

end TernaryMachine
