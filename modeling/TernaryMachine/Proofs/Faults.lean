import Mathlib.Logic.Function.Iterate
import TernaryMachine.Proofs.Execution
/-! # Faults

What a step that fails leaves behind, and where a run stops that meets one.

* **Single steps.**  `step_eq_error_iff` says when a step fails, and that it then changes the status
  alone.  So a faulted machine stays as it is (`run_of_faulted`), and a machine whose fault is
  cleared stands where it was.
* **Runs as steps.**  `Machine.after` steps on, whatever comes of it.  A run does the same
  (`machine_run`), and it ends well if all of its steps do (`result_run_eq_ok_iff`).
* **Where a run stops.**  A run fails at its first step that does (`run_eq_error_iff`), after as
  many steps as it adds to the count (`cycles_of_run`). -/

namespace TernaryMachine

namespace Machine

variable {m m' : Machine} {e : StepError} {a k n : Nat}

/-! ### Steps that fail -/

/-- A step fails on a faulted machine, or where there is no instruction; it leaves a faulted machine
that is otherwise the same. -/
theorem step_eq_error_iff :
    m.step = ⟨m', .error e⟩ ↔ m' = { m with status := .faulted } ∧
      (m.status = .faulted ∧ e = .faulted ∨
        m.status = .running ∧ ∃ fault, m.fetch = .error fault ∧ e = .decode fault) := by
  obtain ⟨registers, memory, status, cycles, last⟩ := m
  rw [step]
  cases status with
  | faulted => simp [eq_comm]
  | running =>
    simp only [reduceCtorEq, false_and, false_or, true_and]
    cases fetch _ with
    | error fault => simp [eq_comm]
    | ok i => simp

theorem step_of_faulted (faulted : m.status = .faulted) : m.step = ⟨m, .error .faulted⟩ := by
  rw [step, faulted]

theorem run_of_faulted (faulted : m.status = .faulted) (n : Nat) :
    m.run (n + 1) = ⟨m, .error .faulted⟩ := by
  rw [run, runFrom, step_of_faulted faulted]

/-! ### Stepping on -/

/-- The machine after a number of steps, whatever comes of them. -/
def after (m : Machine) (n : Nat) : Machine :=
  (fun m => m.step.machine)^[n] m

theorem after_succ (m : Machine) (n : Nat) : m.after (n + 1) = m.step.machine.after n :=
  Function.iterate_succ_apply _ n m

theorem after_add (m : Machine) (a b : Nat) : m.after (a + b) = (m.after a).after b := by
  rw [after, Nat.add_comm]
  exact Function.iterate_add_apply _ b a m

theorem after_of_faulted (faulted : m.status = .faulted) (n : Nat) : m.after n = m :=
  Function.iterate_fixed (by rw [step_of_faulted faulted]) n

theorem machine_runFrom (done n : Nat) (m : Machine) :
    (runFrom done n m).machine = m.after n := by
  induction n generalizing done m with
  | zero => rfl
  | succ n ih =>
    rw [runFrom, after_succ]
    split
    · next m₁ e failed =>
      obtain ⟨rfl, -⟩ := step_eq_error_iff.mp failed
      rw [failed]
      exact (after_of_faulted rfl n).symm
    · next m₁ i stepped =>
      rw [stepped]
      exact ih _ _

theorem machine_run (m : Machine) (n : Nat) : (m.run n).machine = m.after n :=
  machine_runFrom 0 n m

theorem result_run_eq_ok_iff :
    (m.run n).result = .ok n ↔ ∀ k < n, ∃ i, (m.after k).step.result = .ok i := by
  induction n with
  | zero => simp [run, runFrom]
  | succ n ih =>
    rw [Nat.forall_lt_succ_right, ← ih]
    constructor
    · intro h
      obtain ⟨before, i, ran, stepped⟩ := run_succ_eq_ok_iff.mp (Outcome.eq_mk h)
      rw [← machine_run, ran, stepped]
      exact ⟨rfl, i, rfl⟩
    · rintro ⟨ran, i, stepped⟩
      rw [← machine_run] at stepped
      rw [run_succ_eq_ok_iff.mpr ⟨_, i, Outcome.eq_mk ran, Outcome.eq_mk stepped⟩]

/-! ### Going on -/

theorem result_runFrom_add (d done n : Nat) (m : Machine) :
    (runFrom (d + done) n m).result = (runFrom done n m).result.map (d + ·) := by
  induction n generalizing done m with
  | zero => rfl
  | succ n ih =>
    rw [runFrom, runFrom]
    split
    · rfl
    · rw [Nat.add_assoc]
      exact ih _ _

/-- A run goes on from where its first part ended, and the steps of both count. -/
theorem run_add_of_ok (ran : m.run a = ⟨m', .ok a⟩) (b : Nat) :
    m.run (a + b) = ⟨(m'.run b).machine, (m'.run b).result.map (a + ·)⟩ := by
  rw [run_add, ran, Outcome.andThen]
  apply (Outcome.eq_mk (result_runFrom_add a 0 b m')).trans
  rw [machine_runFrom, machine_run]
  rfl

theorem run_add_of_error (failed : m.run a = ⟨m', .error e⟩) (b : Nat) :
    m.run (a + b) = ⟨m', .error e⟩ := by
  rw [run_add, failed, Outcome.andThen]

/-! ### Where a run stops -/

/-- A run fails at its first step that does. -/
theorem run_eq_error_iff :
    m.run n = ⟨m', .error e⟩ ↔
      ∃ k < n, ∃ before, m.run k = ⟨before, .ok k⟩ ∧ before.step = ⟨m', .error e⟩ := by
  constructor
  · intro failed
    induction n with
    | zero => cases failed
    | succ n ih =>
      cases ran : m.run n with
      | mk before result =>
        cases result with
        | error e' =>
          rw [run_add_of_error ran] at failed
          cases failed
          obtain ⟨k, hk, found⟩ := ih ran
          exact ⟨k, by omega, found⟩
        | ok d =>
          obtain rfl := eq_of_run ran
          refine ⟨d, by omega, before, ran, ?_⟩
          rw [run_succ_of_ok ran] at failed
          cases stepped : before.step with
          | mk next outcome =>
            rw [stepped] at failed
            cases outcome with
            | error e' =>
              cases failed
              rfl
            | ok i => cases failed
  · rintro ⟨k, hk, before, ran, failed⟩
    obtain ⟨b, rfl⟩ := Nat.exists_eq_add_of_le hk
    apply run_add_of_error
    rw [run_succ_of_ok ran, failed]
    rfl

theorem cycles_of_run (ran : m.run n = ⟨m', .ok n⟩) : m'.cycles = m.cycles + n := by
  induction n generalizing m' with
  | zero =>
    cases ran
    rfl
  | succ n ih =>
    obtain ⟨before, i, earlier, stepped⟩ := run_succ_eq_ok_iff.mp ran
    obtain ⟨-, -, rfl⟩ := step_eq_ok_iff.mp stepped
    rw [cycles_perform, ih earlier, Nat.add_assoc]

/-- Up to a step that fails, and no further, a run ends well. -/
theorem result_run_of_failed {before : Machine} (ran : m.run k = ⟨before, .ok k⟩)
    (failed : before.step = ⟨m', .error e⟩) (j : Nat) : (m.run j).result = .ok j ↔ j ≤ k := by
  constructor
  · intro h
    by_contra beyond
    rw [run_eq_error_iff.mpr ⟨k, by omega, before, ran, failed⟩] at h
    cases h
  · intro h
    rw [result_run_eq_ok_iff]
    have all := result_run_eq_ok_iff.mp (congrArg Outcome.result ran)
    exact fun i hi => all i (by omega)

/-- How the runs of a machine are made of its steps, and what a step that fails leaves behind. -/
structure Stepwise (m : Machine) : Prop where
  /-- A step that fails changes nothing but the status. -/
  atomic : ∀ m' e, m.step = ⟨m', .error e⟩ → m' = { m with status := .faulted }
  /-- A machine that is faulted already does not change at all. -/
  sticky : m.status = .faulted →
    m.step = ⟨m, .error .faulted⟩ ∧ ∀ n, m.run (n + 1) = ⟨m, .error .faulted⟩
  /-- A run does the same as steps one after the other. -/
  machine_run : ∀ n, (m.run n).machine = m.after n
  result_run : ∀ n, (m.run n).result = .ok n ↔ ∀ k < n, ∃ i, (m.after k).step.result = .ok i
  /-- A run that ends well goes on like a run of the machine that it ends with. -/
  resumes : ∀ a r m', m.run a = ⟨m', .ok r⟩ → ∀ b,
    (m.run (a + b)).machine = (m'.run b).machine ∧
      ((m.run (a + b)).result = .ok (a + b) ↔ (m'.run b).result = .ok b) ∧
      ∀ e, (m.run (a + b)).result = .error e ↔ (m'.run b).result = .error e
  /-- A run that fails goes no further. -/
  stops : ∀ a m' e, m.run a = ⟨m', .error e⟩ → ∀ b, m.run (a + b) = ⟨m', .error e⟩
  /-- A run that meets a word that is no instruction leaves the machine in front of it, faulted. -/
  located : m.status = .running → ∀ n m' fault, m.run n = ⟨m', .error (.decode fault)⟩ →
    ∃! k, k < n ∧ (∀ j, (m.run j).result = .ok j ↔ j ≤ k) ∧ m'.cycles = m.cycles + k ∧
      m' = { (m.run k).machine with status := .faulted } ∧
      Machine.step { m' with status := .running } = ⟨m', .error (.decode fault)⟩

/-- **Faults**: a step that fails leaves no trace but the status, and a run is made of steps up to
the first that fails. -/
theorem stepwise (m : Machine) : m.Stepwise where
  atomic m' e failed := (step_eq_error_iff.mp failed).1
  sticky faulted := ⟨step_of_faulted faulted, run_of_faulted faulted⟩
  machine_run := m.machine_run
  result_run n := result_run_eq_ok_iff
  resumes a r m' ran b := by
    obtain rfl := eq_of_run ran
    rw [run_add_of_ok ran]
    refine ⟨rfl, ?_, fun e => ?_⟩ <;> cases (m'.run b).result <;> simp [Except.map]
  stops a m' e failed := run_add_of_error failed
  located running n m' fault failed := by
    obtain ⟨k, hk, before, ran, stopped⟩ := run_eq_error_iff.mp failed
    obtain ⟨rfl, faulted | ⟨here, -⟩⟩ := step_eq_error_iff.mp stopped
    · cases faulted.2
    · have cycles : before.cycles = m.cycles + k := cycles_of_run ran
      have again : Machine.step { before with status := .running } =
          ⟨{ before with status := .faulted }, .error (.decode fault)⟩ := by
        rw [← here]
        exact stopped
      refine ⟨k, ⟨hk, result_run_of_failed ran stopped, cycles, ?_, again⟩, ?_⟩
      · rw [ran]
      · rintro j ⟨-, -, count, -, -⟩
        simp only at count
        omega

/-- A machine in front of an empty cell and a cell with an opcode that is not used. -/
theorem stepwise_unused :
    ∃ m m' : Machine, m.run 5 = ⟨m', .error (.decode (.invalidOpcode (-12)))⟩ ∧
      m'.cycles = m.cycles + 1 ∧ m' = { (m.run 1).machine with status := .faulted } ∧
      m.run (5 + 3) = ⟨m', .error (.decode (.invalidOpcode (-12)))⟩ := by
  obtain ⟨m, running, failed, one⟩ : ∃ m : Machine, m.status = .running ∧
      (m.run 5).result = .error (.decode (.invalidOpcode (-12))) ∧ (m.run 1).result = .ok 1 ∧
      (m.run 2).result ≠ .ok 2 :=
    ⟨⟨{ Registers.empty with pc := .wrap (-9841) }, Memory.empty.write (.wrap (-9840))
      (.wrap (-8748)), .running, 0, none⟩, by decide +kernel⟩
  have failed := Outcome.eq_mk failed
  obtain ⟨k, ⟨-, good, cycles, stands, -⟩, -⟩ := (stepwise m).located running 5 _ _ failed
  obtain rfl : k = 1 := by
    have := (good 1).mp one.1
    have := mt (good 2).mpr one.2
    omega
  exact ⟨m, _, failed, cycles, stands, (stepwise m).stops 5 _ _ failed 3⟩

end Machine

end TernaryMachine
