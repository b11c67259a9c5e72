import TernaryMachine.Proofs.Codec
import TernaryMachine.Proofs.Execution
import TernaryMachine.Proofs.IntegerMachine
/-! # The machine refines the integer machine

`Machine.integers` maps every part of a machine to its integer.  Along it a step of the machine is
a step of the integer machine: the same words are instructions (`decode_integers`), every
instruction does the same to the integers (`integers_execute`), and so whole runs agree
(`run_integers`). -/

namespace TernaryMachine

/-! ### Trits -/

namespace Trit

theorem toInt_min (a b : Trit) : (min a b).toInt = Min.min a.toInt b.toInt := by
  cases a <;> cases b <;> rfl

theorem toInt_max (a b : Trit) : (max a b).toInt = Max.max a.toInt b.toInt := by
  cases a <;> cases b <;> rfl

theorem toInt_xor (a b : Trit) : (xor a b).toInt = IntegerMachine.xorDigit a.toInt b.toInt := by
  cases a <;> cases b <;> rfl

theorem toInt_consensus (a b : Trit) :
    (consensus a b).toInt = IntegerMachine.consensusDigit a.toInt b.toInt := by
  cases a <;> cases b <;> rfl

theorem toInt_any (a b : Trit) : (any a b).toInt = IntegerMachine.anyDigit a.toInt b.toInt :=
  toInt_sign _

end Trit

/-! ### Reading fields -/

namespace Instruction

theorem toOption_readOpcode (v : Int) : (readOpcode v).toOption = Opcode.ofValue? v := by
  unfold readOpcode
  split
  · next found =>
    rw [found]
    rfl
  · next none =>
    rw [none]
    rfl

theorem toOption_readRegister (v : Int) : (readRegister v).toOption = Register.ofSelector? v := by
  unfold readRegister
  split
  · next found =>
    rw [found]
    rfl
  · next none =>
    rw [none]
    rfl

theorem toOption_readDirection (opcode : Opcode) (v : Int) :
    (readDirection opcode v).toOption = IntegerMachine.direction? opcode v := by
  unfold readDirection IntegerMachine.direction?
  split
  · rfl
  · split <;> rfl

end Instruction

theorem AddressMode.words_ofTrit (t : Trit) :
    (ofTrit t).words = if t.toInt = -1 then 2 else 1 := by
  cases t <;> rfl

/-! ### Storage -/

namespace Memory

def integers (m : Memory) (a : Int) : Int :=
  match m.load a with
  | .ok w => w.toInt
  | .error _ => 0

theorem integers_toInt (m : Memory) (a : Word) : m.integers a.toInt = (m.read a).toInt := by
  rw [integers, load_toInt]

theorem integers_of_out (m : Memory) {a : Int} (out : ¬ (-Word.limit ≤ a ∧ a ≤ Word.limit)) :
    m.integers a = 0 := by
  rw [integers, load_of_out m out]

theorem integers_write (m : Memory) (a v : Word) :
    (m.write a v).integers = Function.update m.integers a.toInt v.toInt := by
  funext b
  rw [Function.update_apply]
  by_cases range : -Word.limit ≤ b ∧ b ≤ Word.limit
  · obtain ⟨w, rfl⟩ : ∃ w : Word, w.toInt = b :=
      ⟨.wrap b, Word.toInt_wrap_of_le range.1 range.2⟩
    simp only [integers_toInt, read_write, Word.toInt_inj]
    split <;> rfl
  · have ne : b ≠ a.toInt := by
      rintro rfl
      exact range ⟨a.neg_limit_le_toInt, a.toInt_le_limit⟩
    rw [if_neg ne, integers_of_out _ range, integers_of_out _ range]

end Memory

namespace Registers

def integers (regs : Registers) (r : Register) : Int :=
  (regs.get r).toInt

theorem integers_set (regs : Registers) (r : Register) (w : Word) :
    (regs.set r w).integers = Function.update regs.integers r w.toInt := by
  funext s
  rw [Function.update_apply, integers, get_set]
  split <;> rfl

end Registers

namespace Machine

variable {m m' : Machine} {i : Instruction}

def integers (m : Machine) : IntegerMachine where
  registers := m.registers.integers
  pc := m.registers.pc.toInt
  flag := m.registers.flag.toInt
  carry := m.registers.carry.toInt
  cells := m.memory.integers

def order (m : Machine) (i : Instruction) : Order :=
  ⟨i.opcode, i.direction, i.x, (m.operand i.source).toInt, i.words⟩

/-! ### Parts of an instruction -/

theorem integers_setRegister (m : Machine) (r : Register) (w : Word) :
    (m.setRegister r w).integers = m.integers.put r w.toInt := by
  unfold integers setRegister IntegerMachine.put
  simp only [Registers.integers_set]
  rfl

theorem integers_jump (m : Machine) (a : Word) :
    (m.jump a).integers = m.integers.jump a.toInt :=
  rfl

theorem integers_jumpIf (m : Machine) (flag : Trit) (a : Word) :
    (m.jumpIf flag a).integers = m.integers.jumpIf flag.toInt a.toInt := by
  have same : m.integers.flag = flag.toInt ↔ m.registers.flag = flag := Trit.toInt_inj
  unfold jumpIf IntegerMachine.jumpIf
  by_cases h : m.registers.flag = flag
  · rw [if_pos h, if_pos (same.mpr h), integers_jump]
  · rw [if_neg h, if_neg fun e => h (same.mp e)]

theorem integers_transfer (m : Machine) (direction : Direction) (x : Register) (a : Word) :
    (m.transfer direction x a).integers =
      match direction with
      | .load => m.integers.put x (m.integers.cells a.toInt)
      | .store =>
        { m.integers with
          cells := Function.update m.integers.cells a.toInt (m.integers.registers x) } := by
  cases direction with
  | load =>
    have cell : m.integers.cells a.toInt = (m.memory.read a).toInt := m.memory.integers_toInt a
    rw [cell]
    exact integers_setRegister m x _
  | store =>
    unfold integers transfer
    simp only [Memory.integers_write]
    rfl

/-! ### Operations -/

/-- A sum leaves its remainder in the register and its overflow in the carry. -/
theorem integers_sum (m : Machine) (x : Register) (w : Word) (carry : Trit) :
    integers { m with
        registers := { m.registers.set x ((m.registers.get x).addWithCarry w carry).word with
          carry := ((m.registers.get x).addWithCarry w carry).carry } } =
      m.integers.putSum x (m.integers.registers x + w.toInt + carry.toInt) := by
  have word := integers_setRegister m x ((m.registers.get x).addWithCarry w carry).word
  rw [Word.toInt_word_addWithCarry] at word
  have overflow := Word.toInt_carry_addWithCarry (m.registers.get x) w carry
  have acc : m.integers.registers x = (m.registers.get x).toInt := rfl
  unfold IntegerMachine.putSum
  rw [acc, ← overflow]
  exact congrArg (fun s : IntegerMachine =>
    { s with carry := ((m.registers.get x).addWithCarry w carry).carry.toInt }) word

theorem integers_operate {op : AluOp} {x : Register} {w : Word} {v : Int} (add : op ≠ .add)
    (addc : op ≠ .addWithCarry)
    (h : (op.apply (m.registers.get x) w m.registers.carry).word.toInt = v) :
    (m.operate op x w).integers = m.integers.put x v := by
  rw [← h, ← integers_setRegister]
  cases op
  case add => exact absurd rfl add
  case addWithCarry => exact absurd rfl addc
  all_goals rfl

/-- One part of a division; by zero the dividend is left. -/
theorem toInt_divide_getD {part : Word.Division → Word} {f : Int → Int → Int} (a b : Word)
    (h : ∀ d, d.quotient.toInt = a.toInt.tdiv b.toInt → d.remainder.toInt = a.toInt.tmod b.toInt →
      (part d).toInt = f a.toInt b.toInt) :
    (((a.divide b).map part).getD a).toInt =
      if b.toInt = 0 then a.toInt else f a.toInt b.toInt := by
  obtain ⟨none, some⟩ := Word.toInt_divide a b
  by_cases zero : b.toInt = 0
  · rw [if_pos zero, none zero]
    rfl
  · obtain ⟨d, e, quotient, remainder⟩ := some zero
    rw [if_neg zero, e]
    exact h d quotient remainder

/-- Every instruction does to the integers what it does to the words. -/
theorem integers_execute (m : Machine) (i : Instruction) :
    (m.execute i).integers = m.integers.execute (m.order i) := by
  obtain ⟨opcode, direction, x, source⟩ := i
  cases opcode with
  | nop => rfl
  | mov => exact integers_setRegister m x _
  | cmp =>
    simp only [execute, Opcode.aluOp?, Registers.setFlag_compare]
    unfold integers
    simp only [Trit.toInt_sign]
    rfl
  | lod => cases direction <;> exact integers_transfer m _ x _
  | jmp => rfl
  | beq => exact integers_jumpIf m .zero _
  | bgt => exact integers_jumpIf m .plus _
  | blt => exact integers_jumpIf m .minus _
  | jal => exact congrArg (fun s : IntegerMachine => s.jump _) (integers_setRegister m .ra _)
  | add =>
    have sum := integers_sum m x (m.operand source) .zero
    rw [show Trit.zero.toInt = 0 from rfl, add_zero] at sum
    exact sum
  | addc => exact integers_sum m x (m.operand source) m.registers.carry
  | mul => exact integers_operate (by decide) (by decide) (Word.toInt_multiply _ _)
  | div =>
    exact integers_operate (by decide) (by decide)
      (toInt_divide_getD (f := Int.tdiv) _ _ fun d quotient _ => quotient)
  | mod =>
    exact integers_operate (by decide) (by decide)
      (toInt_divide_getD (f := Int.tmod) _ _ fun d _ remainder => remainder)
  | neg => exact integers_operate (by decide) (by decide) (Word.toInt_neg _)
  | min => exact integers_operate (by decide) (by decide) (Word.toInt_zipWith Trit.toInt_min _ _)
  | max => exact integers_operate (by decide) (by decide) (Word.toInt_zipWith Trit.toInt_max _ _)
  | xor => exact integers_operate (by decide) (by decide) (Word.toInt_zipWith Trit.toInt_xor _ _)
  | con =>
    exact integers_operate (by decide) (by decide) (Word.toInt_zipWith Trit.toInt_consensus _ _)
  | any => exact integers_operate (by decide) (by decide) (Word.toInt_zipWith Trit.toInt_any _ _)
  | rsh => exact integers_operate (by decide) (by decide) (Word.toInt_rotate _ _)
  | ush => exact integers_operate (by decide) (by decide) (Word.toInt_shift _ _)

/-! ### Decoding -/

theorem bmod_part (v : Int) :
    (Numeral.part v 0 2).bmod Word.count = Numeral.part v 0 2 := by
  apply Word.bmod_of_le <;> simp only [Numeral.part, Int.bmod, Word.limit] <;> omega

theorem operand_integers (m : Machine) (t : Trit) {y : Int} (small : y.bmod Word.count = y) :
    m.integers.operand? t.toInt y =
      (Instruction.readSource (.ofTrit t) y (some (m.memory.read m.registers.pc.succ))).toOption.map
        fun source => (m.operand source).toInt := by
  cases t with
  | zero =>
    show (Register.ofSelector? y).map m.registers.integers = _
    rw [← Instruction.toOption_readRegister, AddressMode.ofTrit, Instruction.readSource]
    cases Instruction.readRegister y <;> rfl
  | plus =>
    show some y = some (Word.wrap y).toInt
    rw [Word.toInt_wrap, small]
  | minus =>
    show some (m.memory.integers ((m.registers.pc.toInt + 1).bmod Word.count)) = some _
    rw [← Word.toInt_succ, Memory.integers_toInt]
    rfl

/-- The same words are instructions for both machines, and ask for the same. -/
theorem decode_integers (m : Machine) : m.integers.decode = m.fetch.toOption.map m.order := by
  have cell : m.integers.cells m.integers.pc = m.fetched.toInt := m.memory.integers_toInt _
  have opcode : m.fetched.field .opcode = Numeral.part m.fetched.toInt 6 3 :=
    m.fetched.field_eq_part .opcode
  have direction : m.fetched.field .direction = Numeral.digit m.fetched.toInt 4 :=
    m.fetched.field_eq_part .direction
  have x : m.fetched.field .x = Numeral.part m.fetched.toInt 2 2 := m.fetched.field_eq_part .x
  have y : m.fetched.field .y = Numeral.part m.fetched.toInt 0 2 := m.fetched.field_eq_part .y
  have digit := m.fetched.digit_toInt 5
  have mode : m.fetched.field .mode = (m.fetched.trits.getD 5 .zero).toInt :=
    (m.fetched.field_eq_part .mode).trans digit
  have small := bmod_part m.fetched.toInt
  unfold IntegerMachine.decode fetch Instruction.decode
  simp only [cell, opcode, direction, x, y, digit, mode, Trit.sign_toInt, toOption_bind,
    Instruction.toOption_readOpcode, Instruction.toOption_readDirection,
    Instruction.toOption_readRegister, operand_integers m _ small, Option.map_bind]
  refine congrArg (Option.bind _) (funext fun opcode => ?_)
  rw [Function.comp_apply, Option.map_bind]
  refine congrArg (Option.bind _) (funext fun direction => ?_)
  rw [Function.comp_apply, Option.map_bind]
  refine congrArg (Option.bind _) (funext fun x => ?_)
  cases read : Instruction.readSource (.ofTrit (m.fetched.trits.getD 5 .zero))
      (Numeral.part m.fetched.toInt 0 2) (some (m.memory.read m.registers.pc.succ)) with
  | error fault => rfl
  | ok source =>
    rw [← AddressMode.words_ofTrit, ← Instruction.mode_of_readSource read]
    rfl

/-! ### Steps -/

theorem order_advance (m : Machine) (n : Int) (i : Instruction) :
    Machine.order { m with registers := m.registers.advance n } i = m.order i := by
  unfold order
  rw [operand_advance]

theorem integers_advance (m : Machine) (n : Int) :
    Machine.integers { m with registers := m.registers.advance n } =
      m.integers.jump ((m.integers.pc + n).bmod Word.count) := by
  unfold integers IntegerMachine.jump Registers.advance
  simp only [Word.toInt_wrap]
  rfl

theorem integers_perform (m : Machine) (i : Instruction) :
    (m.perform i).integers =
      (m.integers.jump ((m.integers.pc + i.words).bmod Word.count)).execute (m.order i) := by
  show (Machine.execute _ i).integers = _
  rw [integers_execute, order_advance, integers_advance]

/-- A step of the machine is a step of the integer machine, which stops where the machine is
faulted. -/
theorem step_integers (running : m.status = .running) :
    m.integers.step = m.step.result.toOption.map fun _ => m.step.machine.integers := by
  unfold IntegerMachine.step
  rw [decode_integers]
  cases fetched : m.fetch with
  | error fault =>
    have stepped : m.step.result = .error (.decode fault) := by
      rw [step, running]
      simp only [fetched]
    rw [stepped]
    rfl
  | ok i =>
    rw [step_of_fetch running fetched]
    exact congrArg some (integers_perform m i).symm

/-- **Refinement**: where the word at the program counter is an instruction, a running machine
executes it, runs on, and does to its integers what the integer machine does. -/
theorem step_refines (running : m.status = .running) (decodes : m.fetch = .ok i) :
    m.step.result = .ok i ∧ m.step.machine.status = .running ∧
      m.integers.step = some m.step.machine.integers := by
  have stepped := step_of_fetch running decodes
  refine ⟨by rw [stepped], ?_, ?_⟩
  · rw [stepped, status_perform, running]
  · rw [step_integers running, stepped]
    rfl

/-- A sum that overflows, in the last cell of memory and with its value in the first. -/
theorem step_refines_around :
    ∃ m : Machine, m.registers.pc.toInt = 9841 ∧
      m.fetch = .ok ⟨.addc, .load, .r0, .word (.wrap 9841)⟩ ∧
      m.step.machine.integers.pc = -9840 ∧ m.step.machine.integers.registers .r0 = 0 ∧
      m.step.machine.integers.carry = 1 ∧
      m.step.result = .ok ⟨.addc, .load, .r0, .word (.wrap 9841)⟩ ∧
      m.step.machine.status = .running ∧ m.integers.step = some m.step.machine.integers := by
  have fetched (regs : Registers) (pc : regs.pc = .wrap 9841) : Machine.fetch
      ⟨regs, (Memory.empty.write (.wrap 9841) (.wrap (-8262))).write (.wrap (-9841)) (.wrap 9841),
        .running, 0, none⟩ = .ok ⟨.addc, .load, .r0, .word (.wrap 9841)⟩ := by
    have next : (Word.wrap 9841).succ = .wrap (-9841) := by decide
    unfold fetch Machine.fetched
    rw [pc, next, Memory.read_write_same, Memory.read_write_of_ne _ _ (by decide),
      Memory.read_write_same]
    decide
  have here := fetched ⟨Vector.replicate 9 (.wrap 9841), .wrap 9841, .zero, .plus⟩ rfl
  refine ⟨_, by decide, here, ?_, ?_, ?_, step_refines rfl here⟩ <;>
    simp only [step_of_fetch rfl here, integers_perform] <;> decide

/-- A run of the machine is a run of the integer machine. -/
theorem run_integers {n : Nat} (running : m.status = .running) (h : m.run n = ⟨m', .ok n⟩) :
    m.integers.run n = some m'.integers := by
  induction n generalizing m' with
  | zero =>
    cases h
    rfl
  | succ n ih =>
    obtain ⟨before, i, ran, stepped⟩ := run_succ_eq_ok_iff.mp h
    have step := step_integers (status_of_run running ran)
    rw [stepped] at step
    rw [IntegerMachine.run, ih ran]
    exact step

end Machine

end TernaryMachine
