import TernaryMachine.Proofs.Faults
/-! # Footprints

Which cells a step depends on, and what becomes of a cell that is changed from outside.

* **The footprint** of a step is the cell of its instruction, the cell of the value word if the
  instruction has one, and the cell that `lod` loads or stores.  A step looks at the cell after
  every instruction, but that cell belongs to its footprint only if it holds a value word.
* **Steps.**  A change outside of the footprint can be made after the step as well (`step_poke`):
  the same instruction is fetched (`fetch_poke`) and does the same (`perform_poke`).
* **Runs.**  So such a change does nothing to a run that leaves the cell alone (`run_poke`), and can
  be made at any time of it. -/

namespace TernaryMachine

namespace Machine

variable {m : Machine} {i : Instruction} {a : Word} {k n : Nat}

/-- The machine with another word in a cell, put there from outside. -/
def poke (m : Machine) (a v : Word) : Machine :=
  { m with memory := m.memory.write a v }

/-- The cells that the next step depends on or writes. -/
def footprint (m : Machine) : List Word :=
  match m.status with
  | .faulted => []
  | .running =>
    m.registers.pc ::
      match m.fetch with
      | .error _ => []
      | .ok i =>
        (if i.mode = .word then [m.registers.pc.succ] else []) ++
          if i.opcode = .lod then [m.operand i.source] else []

/-- What comes of the next steps, those that fail included. -/
def results : Nat → Machine → List (Except StepError Instruction)
  | 0, _ => []
  | n + 1, m => m.step.result :: results n m.step.machine

/-! ### Single steps -/

theorem not_mem_footprint_iff (running : m.status = .running) :
    a ∉ m.footprint ↔ a ≠ m.registers.pc ∧ ∀ i, m.fetch = .ok i →
      (i.mode = .word → a ≠ m.registers.pc.succ) ∧ (i.opcode = .lod → a ≠ m.operand i.source) := by
  rw [footprint, running]
  cases m.fetch with
  | error fault => simp
  | ok i =>
    by_cases value : i.mode = .word <;> by_cases lod : i.opcode = .lod <;> simp [value, lod]

/-- The word after the instruction does not matter if it is no value word. -/
theorem fetch_poke (v : Word) (here : a ≠ m.registers.pc)
    (value : ∀ i, m.fetch = .ok i → i.mode = .word → a ≠ m.registers.pc.succ) :
    (m.poke a v).fetch = m.fetch := by
  have first : (m.poke a v).fetched = m.fetched := Memory.read_write_of_ne _ _ here.symm
  by_cases next : a = m.registers.pc.succ
  · rw [fetch, first, Instruction.decode_some _ (m.memory.read m.registers.pc.succ)]
    show m.fetch.map _ = m.fetch
    cases fetched : m.fetch with
    | error fault => rfl
    | ok i =>
      have short : i.mode ≠ .word := fun word => value i fetched word next
      rw [Except.map, if_neg short]
  · rw [fetch, first, fetch]
    congr 2
    exact Memory.read_write_of_ne _ _ (Ne.symm next)

theorem jumpIf_poke (m : Machine) (a v : Word) (flag : Trit) (address : Word) :
    (m.poke a v).jumpIf flag address = (m.jumpIf flag address).poke a v := by
  have registers : (m.poke a v).registers = m.registers := rfl
  rw [jumpIf, jumpIf, registers]
  split <;> rfl

theorem execute_poke (v : Word) (accessed : i.opcode = .lod → a ≠ m.operand i.source) :
    (m.poke a v).execute i = (m.execute i).poke a v := by
  obtain ⟨opcode, direction, x, source⟩ := i
  have operand : (m.poke a v).operand source = m.operand source := rfl
  cases opcode
  case beq | bgt | blt => exact jumpIf_poke m a v _ _
  case lod =>
    have other := accessed rfl
    simp only [execute, Opcode.aluOp?, operand]
    cases direction with
    | load =>
      rw [transfer, transfer, poke, Memory.read_write_of_ne _ _ other.symm]
      rfl
    | store =>
      rw [transfer, transfer, poke, poke, Memory.write_comm _ _ _ other]
  all_goals rfl

theorem perform_poke (v : Word) (accessed : i.opcode = .lod → a ≠ m.operand i.source) :
    (m.poke a v).perform i = (m.perform i).poke a v := by
  have executed := execute_poke (m := { m with registers := m.registers.advance i.words }) v
    (by rwa [operand_advance])
  exact congrArg (fun m : Machine => { m with cycles := m.cycles + 1, last := some i }) executed

/-- A change outside of the footprint of a step can be made after the step as well. -/
theorem step_poke (v : Word) (outside : a ∉ m.footprint) :
    (m.poke a v).step = ⟨m.step.machine.poke a v, m.step.result⟩ := by
  cases status : m.status with
  | faulted =>
    rw [step_of_faulted status]
    exact step_of_faulted status
  | running =>
    obtain ⟨here, others⟩ := (not_mem_footprint_iff status).mp outside
    have same := fetch_poke v here fun i fetched => (others i fetched).1
    have status' : (m.poke a v).status = .running := status
    rw [step, step, status, status', same]
    cases fetched : m.fetch with
    | error fault => rfl
    | ok i =>
      dsimp only
      rw [perform_poke v (others i fetched).2]

/-! ### Runs -/

theorem results_add (m : Machine) (k n : Nat) :
    m.results (k + n) = m.results k ++ (m.after k).results n := by
  induction k generalizing m with
  | zero =>
    rw [Nat.zero_add]
    rfl
  | succ k ih => rw [Nat.add_right_comm, results, ih, results, after_succ, List.cons_append]

theorem run_poke (v : Word) (outside : ∀ k < n, a ∉ (m.after k).footprint) :
    (m.poke a v).results n = m.results n ∧ (m.poke a v).after n = (m.after n).poke a v := by
  induction n generalizing m with
  | zero => exact ⟨rfl, rfl⟩
  | succ n ih =>
    have first : (m.poke a v).step = _ := step_poke v (outside 0 n.succ_pos)
    obtain ⟨results, machine⟩ := ih (m := m.step.machine) fun k hk => by
      rw [← after_succ]
      exact outside (k + 1) (Nat.succ_lt_succ hk)
    rw [Machine.results, Machine.results, after_succ, after_succ, first]
    exact ⟨congrArg _ results, machine⟩

/-- **Footprints**: a change to a cell that is in the footprint of none of `n` steps can be made at
any time, before the first of them, after the last or in between; what comes of the steps is the
same as without it, and so is the machine in the end but for that cell. -/
theorem poke_commutes (outside : ∀ k < n, a ∉ (m.after k).footprint) (v : Word) (hk : k ≤ n) :
    m.results k ++ ((m.after k).poke a v).results (n - k) = m.results n ∧
      ((m.after k).poke a v).after (n - k) = (m.after n).poke a v := by
  obtain ⟨d, rfl⟩ := Nat.exists_eq_add_of_le hk
  obtain ⟨results, machine⟩ := run_poke (m := m.after k) (n := d) v fun j hj => by
    rw [← after_add]
    exact outside (k + j) (Nat.add_lt_add_left hj k)
  rw [Nat.add_sub_cancel_left, results, machine, results_add, after_add]
  exact ⟨rfl, rfl⟩

/-- At the top of memory the cell after an instruction of one word is the lowest one.  A word that
is no instruction can be put there before the step or after it. -/
theorem poke_commutes_around :
    ∃ m : Machine, m.registers.pc.succ = .wrap (-9841) ∧
      (m.poke (.wrap (-9841)) (.wrap (-8748))).results 1 = [.ok .nop] ∧
      (m.poke (.wrap (-9841)) (.wrap (-8748))).after 1 =
        (m.after 1).poke (.wrap (-9841)) (.wrap (-8748)) := by
  obtain ⟨m, running, pc, memory⟩ : ∃ m : Machine, m.status = .running ∧
      m.registers.pc = .wrap 9841 ∧ m.memory = .empty :=
    ⟨{ empty with registers := { Registers.empty with pc := .wrap 9841 } }, rfl, rfl, rfl⟩
  have fetched : m.fetch = .ok .nop := by
    rw [fetch, Machine.fetched, memory, Memory.read_empty, Instruction.decode_zero]
  have outside : ∀ k < 1, Word.wrap (-9841) ∉ (m.after k).footprint := by
    intro k hk
    obtain rfl := Nat.lt_one_iff.mp hk
    refine (not_mem_footprint_iff running).mpr ⟨?_, fun i hi => ?_⟩
    · show _ ≠ m.registers.pc
      rw [pc]
      decide
    · cases fetched.symm.trans hi
      exact ⟨nofun, nofun⟩
  obtain ⟨results, machine⟩ := poke_commutes outside (.wrap (-8748)) (Nat.zero_le 1)
  refine ⟨m, ?_, results.trans ?_, machine⟩
  · rw [pc]
    decide
  · rw [Machine.results, step_of_fetch running fetched]
    rfl

end Machine

end TernaryMachine
