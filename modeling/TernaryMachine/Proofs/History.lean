import TernaryMachine.Proofs.Faults
/-! # Histories of a machine

A machine is stepped and run, reset and loaded again, and between that its host changes memory and
registers as it likes.  A `History` is a machine after any number of such operations, with the
results of all steps since it was last reset or loaded.

* **Starting again** leaves nothing of what was before: `reset_eq`, `loadImage_eq` and
  `loadProgram_eq` give the same machine whatever it was.
* **The record.**  `History.Kept` says that the count, the last instruction and the status of the
  machine are what the results say.  Every step keeps it (`Kept.step`), so every run does
  (`Kept.run`), and the other operations do not touch the record or start a new one
  (`Kept.extend`).
* **Faults.**  While it is not started again, a faulted machine refuses every step
  (`faulted_extend`). -/

namespace TernaryMachine

namespace Machine

/-! ### Starting again -/

theorem reset_eq (m : Machine) : m.reset = empty := by
  rw [reset, Memory.clear_eq_empty]
  rfl

theorem loadImage_eq (m : Machine) (image : Memory) : m.loadImage image = start image := by
  rw [loadImage, reset_eq]
  rfl

theorem loadProgram_eq (m : Machine) (program : List Word) :
    m.loadProgram program = ofProgram program := by
  rw [loadProgram, reset_eq, ofProgram]
  rfl

/-! ### Results of a run -/

/-- The results of the steps of a run, with the error that ends it if there is one. -/
def runResults : Nat → Machine → List (Except StepError Instruction)
  | 0, _ => []
  | n + 1, m =>
    match m.step with
    | ⟨_, .error e⟩ => [.error e]
    | ⟨m, .ok i⟩ => .ok i :: runResults n m

end Machine

/-- What a host does with a machine. -/
inductive HostOp where
  | step
  | run (n : Nat)
  | reset
  | loadImage (image : Memory)
  | loadProgram (program : List Word)
  /-- Changes cells from outside. -/
  | editMemory (edit : Memory → Memory)
  /-- Changes general registers, the program counter, the flag or the carry from outside. -/
  | editRegisters (edit : Registers → Registers)

def HostOp.restarts : HostOp → Bool
  | reset | loadImage _ | loadProgram _ => true
  | step | run _ | editMemory _ | editRegisters _ => false

/-- A machine in use, with the results of the steps since it was last reset or loaded. -/
structure History where
  machine : Machine
  results : List (Except StepError Instruction)

namespace History

variable {h : History}

def new : History :=
  ⟨.empty, []⟩

def extend (h : History) : HostOp → History
  | .step => ⟨h.machine.step.machine, h.results ++ [h.machine.step.result]⟩
  | .run n => ⟨(h.machine.run n).machine, h.results ++ h.machine.runResults n⟩
  | .reset => ⟨h.machine.reset, []⟩
  | .loadImage image => ⟨h.machine.loadImage image, []⟩
  | .loadProgram program => ⟨(h.machine.loadProgram program).1, []⟩
  | .editMemory edit => ⟨{ h.machine with memory := edit h.machine.memory }, h.results⟩
  | .editRegisters edit => ⟨{ h.machine with registers := edit h.machine.registers }, h.results⟩

def extendAll (h : History) (ops : List HostOp) : History :=
  ops.foldl extend h

/-- The instructions executed since the last reset or load. -/
def executed (h : History) : List Instruction :=
  h.results.filterMap Except.toOption

/-! ### The record -/

/-- The machine's own record agrees with the results of its steps. -/
structure Kept (h : History) : Prop where
  /-- The count is the number of steps that succeeded since the last reset or load. -/
  cycles : h.machine.cycles = h.executed.length
  /-- The last instruction is that of the last step that succeeded. -/
  last : h.machine.last = h.executed.getLast?
  encodable : ∀ i ∈ h.executed,
    ∃ e, i.encode = .ok e ∧ Instruction.decode e.first e.second = .ok i
  /-- The machine is faulted if a step since the last reset or load met no instruction. -/
  faulted_iff : h.machine.status = .faulted ↔ ∃ fault, .error (.decode fault) ∈ h.results

theorem kept_start (memory : Memory) : Kept ⟨.start memory, []⟩ where
  cycles := rfl
  last := rfl
  encodable := by simp [executed]
  faulted_iff := by simp [Machine.start]

theorem Kept.step (kept : h.Kept) : (h.extend .step).Kept := by
  cases stepped : h.machine.step with
  | mk m' result =>
    have same : h.extend .step = ⟨m', h.results ++ [result]⟩ := by rw [extend, stepped]
    rw [same]
    cases result with
    | error e =>
      have executed : executed ⟨m', h.results ++ [.error e]⟩ = h.executed := by
        simp [executed, Except.toOption]
      obtain ⟨rfl, why⟩ := Machine.step_eq_error_iff.mp stepped
      refine ⟨by rw [executed]; exact kept.cycles, by rw [executed]; exact kept.last,
        by rw [executed]; exact kept.encodable, ?_⟩
      simp only [List.mem_append, List.mem_singleton, true_iff]
      obtain ⟨faulted, -⟩ | ⟨-, fault, -, rfl⟩ := why
      · obtain ⟨fault, mem⟩ := kept.faulted_iff.mp faulted
        exact ⟨fault, .inl mem⟩
      · exact ⟨fault, .inr rfl⟩
    | ok i =>
      have executed : executed ⟨m', h.results ++ [.ok i]⟩ = h.executed ++ [i] := by
        simp [executed, Except.toOption]
      obtain ⟨running, fetched, rfl⟩ := Machine.step_eq_ok_iff.mp stepped
      refine ⟨?_, ?_, ?_, ?_⟩
      · rw [executed, Machine.cycles_perform, kept.cycles, List.length_append,
          List.length_singleton]
      · rw [executed, List.getLast?_append]
        rfl
      · rw [executed, List.forall_mem_append]
        exact ⟨kept.encodable, List.forall_mem_singleton.mpr (Instruction.encode_of_decode fetched)⟩
      · rw [Machine.status_perform, kept.faulted_iff]
        simp

theorem Kept.runFrom {m : Machine} {results : List (Except StepError Instruction)} (done n : Nat)
    (kept : Kept ⟨m, results⟩) :
    Kept ⟨(Machine.runFrom done n m).machine, results ++ m.runResults n⟩ := by
  induction n generalizing m results done with
  | zero =>
    rw [Machine.runResults, List.append_nil]
    exact kept
  | succ n ih =>
    have next := kept.step
    rw [extend] at next
    rw [Machine.runFrom, Machine.runResults]
    cases stepped : m.step with
    | mk m' result =>
      simp only [stepped] at next
      cases result with
      | error e => exact next
      | ok i =>
        have rest := ih (done + 1) next
        rw [List.append_assoc] at rest
        exact rest

/-- Every operation keeps the record, or starts a new one. -/
theorem Kept.extend (kept : h.Kept) (op : HostOp) : (h.extend op).Kept := by
  cases op with
  | step => exact kept.step
  | run n => exact kept.runFrom 0 n
  | reset =>
    rw [History.extend, Machine.reset_eq]
    exact kept_start _
  | loadImage image =>
    rw [History.extend, Machine.loadImage_eq]
    exact kept_start _
  | loadProgram program =>
    rw [History.extend, Machine.loadProgram_eq, Machine.ofProgram]
    split <;> exact kept_start _
  | editMemory edit => exact ⟨kept.cycles, kept.last, kept.encodable, kept.faulted_iff⟩
  | editRegisters edit => exact ⟨kept.cycles, kept.last, kept.encodable, kept.faulted_iff⟩

theorem kept_extendAll (ops : List HostOp) (kept : h.Kept) : (h.extendAll ops).Kept := by
  induction ops generalizing h with
  | nil => exact kept
  | cons op ops ih => exact ih (kept.extend op)

/-! ### Faults -/

theorem faulted_extend (faulted : h.machine.status = .faulted) {op : HostOp}
    (goes_on : op.restarts = false) :
    (h.extend op).machine.status = .faulted ∧ ∃ refused,
      (h.extend op).results = h.results ++ refused ∧ ∀ r ∈ refused, r = .error .faulted := by
  have stepped := Machine.step_of_faulted faulted
  cases op with
  | step =>
    rw [extend, stepped]
    exact ⟨faulted, _, rfl, by simp⟩
  | run n =>
    rw [extend, Machine.machine_run, Machine.after_of_faulted faulted]
    refine ⟨faulted, _, rfl, ?_⟩
    cases n with
    | zero => simp [Machine.runResults]
    | succ n => simp [Machine.runResults, stepped]
  | editMemory edit => exact ⟨faulted, [], by simp [extend], by simp⟩
  | editRegisters edit => exact ⟨faulted, [], by simp [extend], by simp⟩
  | reset | loadImage image | loadProgram program => cases goes_on

/-- A faulted machine refuses every step until it is started again. -/
theorem faulted_extendAll (faulted : h.machine.status = .faulted) {ops : List HostOp}
    (goes_on : ∀ op ∈ ops, op.restarts = false) :
    (h.extendAll ops).machine.status = .faulted ∧ ∃ refused,
      (h.extendAll ops).results = h.results ++ refused ∧ ∀ r ∈ refused, r = .error .faulted := by
  induction ops generalizing h with
  | nil => exact ⟨faulted, [], by simp [extendAll], by simp⟩
  | cons op ops ih =>
    obtain ⟨here, others⟩ := List.forall_mem_cons.mp goes_on
    obtain ⟨still, refused, results, all⟩ := faulted_extend faulted here
    obtain ⟨last, refused', results', all'⟩ := ih still others
    refine ⟨last, refused ++ refused', ?_, ?_⟩
    · rw [extendAll, List.foldl_cons, ← extendAll, results', results, List.append_assoc]
    · exact List.forall_mem_append.mpr ⟨all, all'⟩

/-! ### All histories -/

/-- What holds of a machine in use, and of what is done with it next. -/
structure Bookkeeping (h : History) : Prop extends Kept h where
  last_eq_none_iff : h.machine.last = none ↔ h.machine.cycles = 0
  /-- The last instruction has words, and is read back from them. -/
  last_encodable : ∀ i, h.machine.last = some i →
    ∃ e, i.encode = .ok e ∧ Instruction.decode e.first e.second = .ok i
  /-- A faulted machine refuses all steps until the next reset or load. -/
  refuses : h.machine.status = .faulted → ∀ ops : List HostOp, (∀ op ∈ ops, op.restarts = false) →
    (h.extendAll ops).machine.status = .faulted ∧ ∃ refused,
      (h.extendAll ops).results = h.results ++ refused ∧ ∀ r ∈ refused, r = .error .faulted
  loadImage : ∀ image, (h.extend (.loadImage image)).machine = .start image
  /-- A program that does not fit leaves the machine new. -/
  loadProgram : ∀ program e, (h.machine.loadProgram program).2 = .error e →
    (h.extend (.loadProgram program)).machine = .empty

/-- **Bookkeeping**: after any history of a machine its count, its last instruction and its status
are those of the steps since it was last reset or loaded, and a reset or load leaves no trace of
what was before. -/
theorem bookkeeping (ops : List HostOp) : (new.extendAll ops).Bookkeeping := by
  have kept : (new.extendAll ops).Kept := kept_extendAll ops (kept_start .empty)
  refine
    { toKept := kept
      last_eq_none_iff := ?_
      last_encodable := ?_
      refuses := fun faulted ops => faulted_extendAll faulted
      loadImage := ?_
      loadProgram := ?_ }
  · rw [kept.last, kept.cycles, List.getLast?_eq_none_iff, List.length_eq_zero_iff]
  · intro i last
    rw [kept.last] at last
    exact kept.encodable i (List.mem_of_getLast? last)
  · intro image
    rw [extend, Machine.loadImage_eq]
  · intro program e failed
    rw [Machine.loadProgram_eq, Machine.ofProgram] at failed
    rw [extend, Machine.loadProgram_eq, Machine.ofProgram]
    split at failed
    · cases failed
    · rfl

/-- A machine that is loaded and run into a word that is no instruction has executed what stands
before it, and refuses to go on where the host moves it to. -/
theorem bookkeeping_unused :
    ∃ h : History, h.machine.cycles = 1 ∧ h.machine.last = some .nop ∧
      (∃ fault, .error (.decode fault) ∈ h.results) ∧
      (h.extendAll [.editRegisters fun _ => .empty, .step]).machine.status = .faulted := by
  obtain ⟨ops, faulted, executed⟩ : ∃ ops, (new.extendAll ops).machine.status = .faulted ∧
      (new.extendAll ops).executed = [.nop] :=
    ⟨[.loadImage (Memory.empty.write (.wrap (-9840)) (.wrap (-8748))),
      .editRegisters fun regs => { regs with pc := .wrap (-9841) }, .run 5], by decide +kernel⟩
  have holds := bookkeeping ops
  refine ⟨new.extendAll ops, ?_, ?_, holds.faulted_iff.mp faulted, ?_⟩
  · rw [holds.cycles, executed]
    rfl
  · rw [holds.last, executed]
    rfl
  · exact (holds.refuses faulted _ (by simp [HostOp.restarts])).1

end History

end TernaryMachine
