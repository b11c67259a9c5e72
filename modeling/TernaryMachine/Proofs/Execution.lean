import TernaryMachine.Machine
import TernaryMachine.Proofs.Codec
import TernaryMachine.Proofs.Storage
/-! # Steps and runs

What one instruction can do to a machine, part by part, and how runs are made of steps.

* **Steps.**  `step_eq_ok_iff` says when a step succeeds and what it then does.  The program
  counter ends at the operand if the instruction jumps and after the instruction otherwise
  (`pc_perform`); memory changes only by a store (`memory_perform`).
* **Runs.**  `run_add` composes runs, so `run_succ_eq_ok_iff` peels the last step off a run, and
  what every step keeps holds after every run (`run_of_invariant`). -/

namespace TernaryMachine

namespace Instruction

/-- Whether an instruction moves the program counter to its operand, for a flag. -/
def jumps (i : Instruction) (flag : Trit) : Bool :=
  match i.opcode with
  | .jmp | .jal => true
  | .beq => flag == .zero
  | .bgt => flag == .plus
  | .blt => flag == .minus
  | _ => false

def stores (i : Instruction) : Bool :=
  i.opcode == .lod && i.direction == .store

theorem isControlFlow_of_jumps {i : Instruction} {flag : Trit} (h : i.jumps flag = true) :
    i.opcode.isControlFlow = true := by
  obtain ⟨opcode, direction, x, source⟩ := i
  cases opcode
  all_goals first | rfl | cases h

end Instruction

namespace Machine

variable {m m' : Machine} {i : Instruction}

/-! ### Parts of a step -/

theorem pc_execute (m : Machine) (i : Instruction) :
    (m.execute i).registers.pc =
      if i.jumps m.registers.flag then m.operand i.source else m.registers.pc := by
  obtain ⟨opcode, direction, x, source⟩ := i
  cases opcode
  case beq | bgt | blt =>
    simp only [execute, Opcode.aluOp?, jumpIf, Instruction.jumps, beq_iff_eq]
    split <;> rfl
  case lod => cases direction <;> rfl
  case cmp =>
    simp only [execute, Opcode.aluOp?, Registers.setFlag_compare]
    rfl
  all_goals rfl

theorem memory_execute (m : Machine) (i : Instruction) :
    (m.execute i).memory =
      if i.stores then m.memory.write (m.operand i.source) (m.registers.get i.x)
      else m.memory := by
  obtain ⟨opcode, direction, x, source⟩ := i
  cases opcode
  case beq | bgt | blt =>
    simp only [execute, Opcode.aluOp?, jumpIf]
    split <;> rfl
  case lod => cases direction <;> rfl
  all_goals rfl

theorem execute_eq (m : Machine) (i : Instruction) :
    m.execute i =
      { m with registers := (m.execute i).registers, memory := (m.execute i).memory } := by
  obtain ⟨opcode, direction, x, source⟩ := i
  cases opcode
  case beq | bgt | blt =>
    simp only [execute, Opcode.aluOp?, jumpIf]
    split <;> rfl
  case lod => cases direction <;> rfl
  all_goals rfl

theorem operand_advance (m : Machine) (n : Int) (source : Source) :
    Machine.operand { m with registers := m.registers.advance n } source = m.operand source := by
  cases source <;> rfl

theorem pc_perform (m : Machine) (i : Instruction) :
    (m.perform i).registers.pc =
      if i.jumps m.registers.flag then m.operand i.source
      else .wrap (m.registers.pc.toInt + i.words) := by
  show (Machine.execute _ i).registers.pc = _
  rw [pc_execute, operand_advance]
  rfl

theorem memory_perform (m : Machine) (i : Instruction) :
    (m.perform i).memory =
      if i.stores then m.memory.write (m.operand i.source) (m.registers.get i.x)
      else m.memory := by
  show (Machine.execute _ i).memory = _
  rw [memory_execute, operand_advance]
  rfl

theorem status_perform (m : Machine) (i : Instruction) : (m.perform i).status = m.status := by
  rw [perform, execute_eq]

theorem cycles_perform (m : Machine) (i : Instruction) :
    (m.perform i).cycles = m.cycles + 1 := by
  rw [perform, execute_eq]

/-! ### Steps -/

/-- A step succeeds on a running machine at an instruction, and performs it. -/
theorem step_eq_ok_iff :
    m.step = ⟨m', .ok i⟩ ↔ m.status = .running ∧ m.fetch = .ok i ∧ m' = m.perform i := by
  rw [step]
  cases m.status with
  | faulted => simp
  | running =>
    cases m.fetch with
    | error fault => simp
    | ok j =>
      simp only [Outcome.mk.injEq, Except.ok.injEq, true_and]
      constructor
      · rintro ⟨rfl, rfl⟩
        exact ⟨rfl, rfl⟩
      · rintro ⟨rfl, rfl⟩
        exact ⟨rfl, rfl⟩

theorem step_of_fetch (running : m.status = .running) (h : m.fetch = .ok i) :
    m.step = ⟨m.perform i, .ok i⟩ :=
  step_eq_ok_iff.mpr ⟨running, h, rfl⟩

end Machine

/-! ### Runs -/

theorem Outcome.eq_mk {α : Type} {o : Outcome α} {result : Except StepError α}
    (h : o.result = result) : o = ⟨o.machine, result⟩ := by
  rw [← h]

/-- Goes on with the machine of an outcome, unless it is an error. -/
def Outcome.andThen {α β : Type} (o : Outcome α) (next : α → Machine → Outcome β) : Outcome β :=
  match o.result with
  | .ok a => next a o.machine
  | .error e => ⟨o.machine, .error e⟩

namespace Machine

variable {m m' : Machine}

theorem runFrom_add (m : Machine) (done a b : Nat) :
    runFrom done (a + b) m = (runFrom done a m).andThen fun d m => runFrom d b m := by
  induction a generalizing done m with
  | zero => rw [Nat.zero_add, runFrom, Outcome.andThen]
  | succ a ih =>
    rw [Nat.add_right_comm, runFrom, runFrom]
    split
    · rfl
    · exact ih _ _

theorem run_add (m : Machine) (a b : Nat) :
    m.run (a + b) = (m.run a).andThen fun d m => runFrom d b m :=
  runFrom_add m 0 a b

/-- A run that ends well has executed all the steps asked for. -/
theorem eq_add_of_runFrom {done n d : Nat} (h : runFrom done n m = ⟨m', .ok d⟩) :
    d = done + n := by
  induction n generalizing done m with
  | zero =>
    cases h
    rfl
  | succ n ih =>
    rw [runFrom] at h
    split at h
    · cases h
    · have := ih h
      omega

theorem eq_of_run {n d : Nat} (h : m.run n = ⟨m', .ok d⟩) : d = n :=
  (eq_add_of_runFrom h).trans (Nat.zero_add n)

theorem run_succ_of_ok {n : Nat} (ran : m.run n = ⟨m', .ok n⟩) :
    m.run (n + 1) = ⟨m'.step.machine, m'.step.result.map fun _ => n + 1⟩ := by
  rw [run_add, ran, Outcome.andThen]
  simp only [runFrom]
  cases m'.step with
  | mk m'' outcome => cases outcome <;> rfl

theorem run_succ_eq_ok_iff {n : Nat} {m'' : Machine} :
    m.run (n + 1) = ⟨m'', .ok (n + 1)⟩ ↔
      ∃ m' i, m.run n = ⟨m', .ok n⟩ ∧ m'.step = ⟨m'', .ok i⟩ := by
  constructor
  · intro h
    cases ran : m.run n with
    | mk m' result =>
      cases result with
      | error e =>
        rw [run_add, ran] at h
        cases h
      | ok d =>
        obtain rfl := eq_of_run ran
        rw [run_succ_of_ok ran, Outcome.mk.injEq, map_eq_ok_iff] at h
        obtain ⟨rfl, i, stepped, -⟩ := h
        exact ⟨m', i, rfl, Outcome.eq_mk stepped⟩
  · rintro ⟨m', i, ran, stepped⟩
    rw [run_succ_of_ok ran, stepped]
    rfl

theorem status_of_run {n : Nat} (running : m.status = .running) (h : m.run n = ⟨m', .ok n⟩) :
    m'.status = .running := by
  induction n generalizing m' with
  | zero =>
    cases h
    exact running
  | succ n ih =>
    obtain ⟨before, i, ran, stepped⟩ := run_succ_eq_ok_iff.mp h
    obtain ⟨still, -, rfl⟩ := step_eq_ok_iff.mp stepped
    rw [status_perform]
    exact still

/-- What holds at first and is kept by every step, which then succeeds, holds after every run. -/
theorem run_of_invariant {P : Machine → Prop}
    (step : ∀ m, P m → ∃ m' i, m.step = ⟨m', .ok i⟩ ∧ P m') (init : P m) (n : Nat) :
    ∃ m', m.run n = ⟨m', .ok n⟩ ∧ P m' := by
  induction n with
  | zero => exact ⟨m, rfl, init⟩
  | succ n ih =>
    obtain ⟨m', ran, holds⟩ := ih
    obtain ⟨m'', i, stepped, holds⟩ := step m' holds
    exact ⟨m'', run_succ_eq_ok_iff.mpr ⟨m', i, ran, stepped⟩, holds⟩

end Machine

end TernaryMachine
