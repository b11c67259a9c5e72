import TernaryMachine.Word.Field
import TernaryMachine.Word.Arithmetic
/-! # The arithmetic and logic unit

An operation combines an accumulator with an operand and gives the new accumulator.

* **Whole words.**  `AluOp.apply` also takes and gives a carry.  Only `addWithCarry` reads the
  carry, and every operation but the two sums gives `zero`.  A quotient or a remainder by zero
  leaves the accumulator as it was.
* **Fields.**  The connectives work on each trit alone (`AluOp.isConnective`), so
  `AluOp.applyWithin` can restrict them to a part of the word. -/

namespace TernaryMachine

/-- An operation of the unit. -/
inductive AluOp where
  | add
  | addWithCarry
  | multiply
  | divide
  | modulo
  | negate
  | min
  | max
  | xor
  | consensus
  | any
  | rotateShift
  | unsignedShift
deriving DecidableEq, Repr

namespace AluOp

def all : List AluOp :=
  [add, addWithCarry, multiply, divide, modulo, negate, min, max, xor, consensus, any,
    rotateShift, unsignedShift]

def name : AluOp → String
  | add => "Add"
  | addWithCarry => "AddWithCarry"
  | multiply => "Multiply"
  | divide => "Divide"
  | modulo => "Modulo"
  | negate => "Negate"
  | min => "Min"
  | max => "Max"
  | xor => "Xor"
  | consensus => "Consensus"
  | any => "Any"
  | rotateShift => "RotateShift"
  | unsignedShift => "UnsignedShift"

/-- Whether the operation works on each position alone. -/
def isConnective : AluOp → Bool
  | min | max | xor | consensus | any => true
  | _ => false

/-- The new accumulator and the carry out. -/
def apply (op : AluOp) (acc operand : Word) (carry : Trit) : Word.Sum :=
  match op with
  | add => acc.add operand
  | addWithCarry => acc.addWithCarry operand carry
  | multiply => ⟨(acc.multiply operand).low, .zero⟩
  | divide => ⟨((acc.divide operand).map Word.Division.quotient).getD acc, .zero⟩
  | modulo => ⟨((acc.divide operand).map Word.Division.remainder).getD acc, .zero⟩
  | negate => ⟨operand.neg, .zero⟩
  | min => ⟨acc.zipWith Trit.min operand, .zero⟩
  | max => ⟨acc.zipWith Trit.max operand, .zero⟩
  | xor => ⟨acc.zipWith Trit.xor operand, .zero⟩
  | consensus => ⟨acc.zipWith Trit.consensus operand, .zero⟩
  | any => ⟨acc.zipWith Trit.any operand, .zero⟩
  | rotateShift => ⟨acc.rotate operand.toInt, .zero⟩
  | unsignedShift => ⟨acc.shift operand.toInt, .zero⟩

end AluOp

/-! ### Operations on a field -/

/-- Why an operation is not applied to a field. -/
inductive AluError where
  /-- The operation does not work on each position alone. -/
  | notConnective (op : AluOp)
  /-- The field is empty or not inside a word. -/
  | outside (start width : Nat)
deriving DecidableEq, Repr

namespace AluError

def message : AluError → String
  | notConnective op => s!"invalid operand: {op.name} does not operate on sub-fields"
  | outside start width =>
    s!"invalid operand: field of {width} trits at {start} is not inside a 9-trit word"

end AluError

namespace AluOp

/-- The accumulator with its trits in one field combined with those of the operand. -/
def applyWithin (op : AluOp) (acc operand : Word) (start width : Nat) : Except AluError Word :=
  if op.isConnective then
    if width = 0 then
      .error (.outside start width)
    else
      match Field.ofBounds? start width with
      | none => .error (.outside start width)
      | some f =>
        let combined := (op.apply acc operand .zero).word
        .ok (acc.splice f (combined.slice f) (combined.length_slice f))
  else
    .error (.notConnective op)

end AluOp

end TernaryMachine
