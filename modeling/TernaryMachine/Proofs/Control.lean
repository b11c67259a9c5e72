import TernaryMachine.Proofs.Statement
import TernaryMachine.Proofs.Tracing
/-! # Programs that jump to labels

A statement is *tame* if it stores nothing and jumps, if it jumps at all, to a label.  A machine
that runs a program of tame statements never faults, however long it runs.

* **Boundaries.**  The program counter may stand at a recorded address or outside of the program.
  Labels are bound to such addresses (`boundary_label`), and every instruction ends at one
  (`boundary_end`), also where the program fills memory up to its last cell.
* **The invariant.**  `Machine.Follows` says that the memory is as assembled and that the program
  counter is at a boundary.  A step succeeds and keeps it (`follows_step`).
* **Drifting.**  Outside of the program all cells are zero, so the machine does nothing but count
  up, from the top of memory on to the bottom, until it is back at address zero (`drifts`). -/

namespace TernaryMachine

/-! ### Tame sources -/

/-- A statement that stores nothing and jumps, if it does, to a label. -/
structure Statement.Tame (s : Statement) : Prop where
  loads : s.direction = .load
  target : s.opcode.isControlFlow = true → s.operand.isLabel = true

instance (s : Statement) : Decidable s.Tame :=
  decidable_of_iff
    (s.direction = .load ∧ (s.opcode.isControlFlow = true → s.operand.isLabel = true))
    ⟨fun h => ⟨h.1, h.2⟩, fun h => ⟨h.loads, h.target⟩⟩

/-- A line that is no statement, or a tame one. -/
def Entry.Tame : Entry → Prop
  | label _ => True
  | statement s => s.Tame

instance : (e : Entry) → Decidable e.Tame
  | .label _ => inferInstanceAs (Decidable True)
  | .statement s => inferInstanceAs (Decidable s.Tame)

def Tame (source : String) : Prop :=
  ∀ line ∈ Text.significantLines source.toList, ∀ e ∈ (Entry.parse line.text).toOption, e.Tame

instance (source : String) : Decidable (Tame source) :=
  inferInstanceAs (Decidable (∀ line ∈ Text.significantLines source.toList,
    ∀ e ∈ (Entry.parse line.text).toOption, e.Tame))

theorem Tame.statement {source : String} (tame : Tame source) {line : Text.Line}
    (mem : line ∈ Text.significantLines source.toList) {s : Statement}
    (parsed : Entry.parse line.text = .ok (.statement s)) : s.Tame := by
  have entry := tame line mem (.statement s)
  rw [parsed] at entry
  exact entry rfl

namespace Program

variable {p : Program}

/-- An address where the program counter may stand: that of a recorded instruction, or one outside
of the program. -/
def Boundary (p : Program) (a : Word) : Prop :=
  a.toInt ∈ p.info.instructions.map Prod.fst ∨ ¬ p.Covers a

/-! ### Boundaries -/

namespace LaidOut

variable {source : List Char} {bs : List Block}

theorem boundary_label (h : p.LaidOut source bs) {name : String} {address : Word}
    (bound : (name, address) ∈ p.info.labels) : p.Boundary address := by
  unfold Boundary Covers
  rcases h.bound name address bound with e | ⟨b, hb, e⟩
  · right
    omega
  · left
    rw [e, h.instructions, List.map_map]
    exact List.mem_map_of_mem (f := Prod.fst ∘ Block.entry) hb

/-- The end of a recorded instruction, as the program counter holds it: the next one, the length of
the program, or the lowest address if memory is full. -/
theorem boundary_end (h : p.LaidOut source bs) {a : Int} {i : Instruction}
    (recorded : (a, i) ∈ p.info.instructions) : p.Boundary (.wrap (a + i.words)) := by
  have fits := h.fits
  unfold Boundary Covers
  rw [h.toInt_wrap_end recorded, ProgramInfo.after]
  split
  · next entry found =>
    left
    exact List.mem_map_of_mem (List.mem_of_find?_eq_some found)
  · right
    rw [Word.toInt_wrap]
    simp only [Word.limit, Word.count, Int.bmod] at *
    omega

theorem boundary_zero (h : p.LaidOut source bs) : p.Boundary .zero := by
  have tiles := h.tiles_instructions
  unfold Boundary Covers
  rw [Word.toInt_zero]
  cases entries : p.info.instructions with
  | nil =>
    right
    rw [entries] at tiles
    have length : (0 : Int) = p.info.length := tiles
    omega
  | cons entry rest =>
    left
    rw [entries] at tiles
    have first : entry.1 = 0 := tiles.1
    simp [first]

/-- Past an address outside of the program there is another one, or address zero. -/
theorem boundary_succ (h : p.LaidOut source bs) {a : Word} (out : ¬ p.Covers a) :
    p.Boundary (.wrap (a.toInt + 1)) := by
  by_cases last : a.toInt = -1
  · rw [last]
    exact h.boundary_zero
  · right
    have lower := a.neg_limit_le_toInt
    have upper := a.toInt_le_limit
    unfold Covers at *
    rw [Word.toInt_wrap]
    simp only [Word.limit, Word.count, Int.bmod] at *
    omega

/-- No boundary lies inside an instruction of two words. -/
theorem ne_second_word (h : p.LaidOut source bs) {pc : Word} (boundary : p.Boundary pc) {a : Int}
    {i : Instruction} (recorded : (a, i) ∈ p.info.instructions) (long : i.words = 2) :
    pc.toInt ≠ a + 1 := by
  intro inside
  have tiles := h.tiles_instructions
  have bounds := tiles.bounds recorded
  rcases boundary with key | out
  · obtain ⟨⟨b, j⟩, other, e⟩ := List.mem_map.mp key
    have pos := j.words_pos
    rcases tiles.separate recorded other with same | apart | apart
    · cases same
      simp only at e
      omega
    · simp only at e apart
      omega
    · simp only at e apart
      omega
  · apply out
    unfold Covers
    simp only at bounds
    omega

/-! ### Tame instructions -/

theorem statement_of_recorded (h : p.LaidOut source bs) {a : Int} {i : Instruction}
    (recorded : (a, i) ∈ p.info.instructions) :
    ∃ s, s.resolve p.info.labels = .ok i ∧
      ∃ line ∈ Text.significantLines source, Entry.parse line.text = .ok (.statement s) := by
  obtain ⟨b, hb, -, rfl⟩ := h.mem_instructions.mp recorded
  obtain ⟨line, mem, -, parsed⟩ := h.written b hb
  exact ⟨b.placed.statement, (h.resolved b hb).resolved, line, mem, parsed⟩

end LaidOut

end Program

section

variable {source : String} {p : Program} {bs : List Block} {a : Int} {i : Instruction}

theorem Tame.stores_eq_false (tame : Tame source) (h : p.LaidOut source.toList bs)
    (recorded : (a, i) ∈ p.info.instructions) : i.stores = false := by
  obtain ⟨s, resolved, line, mem, parsed⟩ := h.statement_of_recorded recorded
  obtain ⟨-, -, direction, -⟩ := Statement.resolve_eq_ok_iff.mp resolved
  rw [Instruction.stores, direction, (tame.statement mem parsed).loads]
  exact Bool.and_false _

theorem Tame.boundary_of_jumps (tame : Tame source) (h : p.LaidOut source.toList bs)
    (recorded : (a, i) ∈ p.info.instructions) {flag : Trit} (jumps : i.jumps flag = true)
    (m : Machine) : p.Boundary (m.operand i.source) := by
  obtain ⟨s, resolved, line, mem, parsed⟩ := h.statement_of_recorded recorded
  obtain ⟨operand, opcode, -, -⟩ := Statement.resolve_eq_ok_iff.mp resolved
  have flow := Instruction.isControlFlow_of_jumps jumps
  rw [opcode] at flow
  have label := (tame.statement mem parsed).target flow
  cases e : s.operand with
  | register r =>
    rw [e] at label
    cases label
  | immediate w =>
    rw [e] at label
    cases label
  | label name =>
    rw [e] at operand
    obtain ⟨address, found, word⟩ := Operand.resolve_label_eq_ok_iff.mp operand
    rw [word]
    exact h.boundary_label (Table.mem_of_find?_eq_some found)

end

/-! ### The invariant -/

namespace Machine

/-- A running machine with a program in its memory, at a boundary of it. -/
structure Follows (p : Program) (m : Machine) : Prop where
  running : m.status = .running
  memory : m.memory = p.memory
  boundary : p.Boundary m.registers.pc

variable {source : String} {p : Program} {bs : List Block} {m : Machine}

theorem follows_start (h : p.LaidOut source.toList bs) : Follows p (start p.memory) :=
  ⟨rfl, rfl, h.boundary_zero⟩

theorem fetched_outside (h : p.LaidOut source.toList bs) (memory : m.memory = p.memory)
    (out : ¬ p.Covers m.registers.pc) : m.fetched = .zero := by
  rw [fetched, memory]
  exact h.read_outside out

theorem step_outside (h : p.LaidOut source.toList bs) (running : m.status = .running)
    (memory : m.memory = p.memory) (out : ¬ p.Covers m.registers.pc) :
    m.step = ⟨m.perform .nop, .ok .nop⟩ := by
  apply step_of_fetch running
  rw [fetch, fetched_outside h memory out]
  exact Instruction.decode_zero _

/-- A step of a tame program succeeds and leaves the machine at a boundary again. -/
theorem follows_step (tame : Tame source) (h : p.LaidOut source.toList bs) (m : Machine)
    (follows : Follows p m) : ∃ m' i, m.step = ⟨m', .ok i⟩ ∧ Follows p m' := by
  obtain ⟨running, memory, boundary⟩ := follows
  rcases boundary with key | out
  · obtain ⟨⟨a, i⟩, recorded, here⟩ := List.mem_map.mp key
    simp only at here
    subst here
    have held : p.Holds m.memory := by
      intro a _
      rw [memory]
    have keeps := tame.stores_eq_false h recorded
    refine ⟨m.perform i, i, step_of_fetch running (h.fetch_of_holds held recorded), ?_, ?_, ?_⟩
    · rw [status_perform, running]
    · rw [memory_perform, keeps, if_neg (by decide), memory]
    · rw [pc_perform]
      by_cases jumps : i.jumps m.registers.flag = true
      · rw [if_pos jumps]
        exact tame.boundary_of_jumps h recorded jumps m
      · rw [if_neg jumps]
        exact h.boundary_end recorded
  · refine ⟨m.perform .nop, .nop, step_outside h running memory out, ?_, ?_, ?_⟩
    · rw [status_perform, running]
    · rw [memory_perform]
      exact memory
    · rw [pc_perform]
      exact h.boundary_succ out

/-! ### Drifting -/

/-- A machine outside of a program that does nothing until it is at address zero again. -/
def Drifts (p : Program) (m : Machine) : Prop :=
  ∃ k m', 0 < k ∧ m.run k = ⟨m', .ok k⟩ ∧ m'.registers.pc = .zero ∧
    ∀ j < k, ¬ p.Covers (m.run j).machine.registers.pc ∧ (m.run j).machine.fetched = .zero ∧
      (m.run j).machine.step.result = .ok .nop

/-- While it counts up outside of the program, a machine keeps its memory. -/
theorem run_outside (h : p.LaidOut source.toList bs) (running : m.status = .running)
    (memory : m.memory = p.memory) {k : Nat}
    (out : ∀ j < k, ¬ p.Covers (.wrap (m.registers.pc.toInt + j))) :
    ∃ m', m.run k = ⟨m', .ok k⟩ ∧ m'.status = .running ∧ m'.memory = p.memory ∧
      m'.registers.pc = .wrap (m.registers.pc.toInt + k) := by
  induction k with
  | zero => exact ⟨m, rfl, running, memory, by simp⟩
  | succ k ih =>
    obtain ⟨m', ran, running', memory', pc⟩ := ih fun j hj => out j (by omega)
    have here : ¬ p.Covers m'.registers.pc := by
      rw [pc]
      exact out k (by omega)
    have stepped := step_outside h running' memory' here
    refine ⟨m'.perform .nop, run_succ_eq_ok_iff.mpr ⟨m', .nop, ran, stepped⟩, ?_, ?_, ?_⟩
    · rw [status_perform, running']
    · rw [memory_perform]
      exact memory'
    · rw [pc_perform]
      show Word.wrap (m'.registers.pc.toInt + 1) = _
      rw [pc, Word.wrap_eq_wrap_iff, Word.toInt_wrap, Int.bmod_add_bmod, Nat.cast_succ, add_assoc]

/-- From outside of a program, counting up leads to address zero, past no address of the program;
all around memory if the program is empty. -/
theorem exists_distance {a : Word} (out : ¬ p.Covers a) :
    ∃ k : Nat, 0 < k ∧ Word.wrap (a.toInt + k) = .zero ∧
      ∀ j < k, ¬ p.Covers (.wrap (a.toInt + j)) := by
  have lower := a.neg_limit_le_toInt
  have upper := a.toInt_le_limit
  unfold Program.Covers at *
  simp only [← Word.toInt_inj, Word.toInt_wrap, Word.toInt_zero]
  simp only [Word.limit, Word.count, Int.bmod] at *
  by_cases below : a.toInt < 0
  · refine ⟨(-a.toInt).toNat, by omega, by omega, fun j hj => ?_⟩
    omega
  · refine ⟨(19683 - a.toInt).toNat, by omega, by omega, fun j hj => ?_⟩
    omega

theorem drifts (h : p.LaidOut source.toList bs) (running : m.status = .running)
    (memory : m.memory = p.memory) (out : ¬ p.Covers m.registers.pc) : m.Drifts p := by
  obtain ⟨k, pos, back, away⟩ := exists_distance out
  obtain ⟨m', ran, -, -, pc⟩ := run_outside h running memory away
  refine ⟨k, m', pos, ran, by rw [pc, back], fun j hj => ?_⟩
  obtain ⟨m'', ran, running, memory, pc⟩ :=
    run_outside h running memory (k := j) fun i hi => away i (by omega)
  have here : ¬ p.Covers m''.registers.pc := by
    rw [pc]
    exact away j hj
  rw [ran]
  refine ⟨here, fetched_outside h memory here, ?_⟩
  rw [step_outside h running memory here]

/-! ### Runs -/

/-- **No faults**: a program of tame statements never faults.  At every moment of a run the
machine is at a recorded address, or drifts outside of the program; it is never inside an
instruction of two words. -/
theorem run_tame (assembled : assemble source = .ok p) (tame : Tame source) (n : Nat) :
    ∃ m, (start p.memory).run n = ⟨m, .ok n⟩ ∧ m.isFaulted = false ∧
      (m.registers.pc.toInt ∈ p.info.instructions.map Prod.fst ∨
        ¬ p.Covers m.registers.pc ∧ m.Drifts p) ∧
      ∀ a i, (a, i) ∈ p.info.instructions → i.words = 2 → m.registers.pc.toInt ≠ a + 1 := by
  obtain ⟨bs, laid⟩ := Program.laidOut_of_assemble assembled
  obtain ⟨m, ran, running, memory, boundary⟩ :=
    run_of_invariant (follows_step tame laid) (follows_start laid) n
  refine ⟨m, ran, ?_, ?_, fun a i recorded long => laid.ne_second_word boundary recorded long⟩
  · rw [isFaulted, running]
    rfl
  · exact boundary.imp_right fun out => ⟨out, drifts laid running memory out⟩

/-- A loop that counts up, calls a line and runs off its end when the count wraps around. -/
theorem run_tame_loop :
    ∃ p, assemble
        ".top\nADD r0, oooooooo+\nJAL .test\n.test\nCMP r0, oooooooo-\nBGT .top\nBLT .end\n.end" =
        .ok p ∧ p.info.length = 8 ∧
      ∃ m, (start p.memory).run 1000000 = ⟨m, .ok 1000000⟩ ∧ m.isFaulted = false ∧
        (m.registers.pc.toInt ∈ p.info.instructions.map Prod.fst ∨
          ¬ p.Covers m.registers.pc ∧ m.Drifts p) ∧
        ∀ a i, (a, i) ∈ p.info.instructions → i.words = 2 → m.registers.pc.toInt ≠ a + 1 := by
  have length : (assemble
      ".top\nADD r0, oooooooo+\nJAL .test\n.test\nCMP r0, oooooooo-\nBGT .top\nBLT .end\n.end").map
      (fun p => p.info.length) = .ok 8 := by decide +kernel
  obtain ⟨p, assembled, length⟩ := map_eq_ok_iff.mp length
  exact ⟨p, assembled, length, run_tame assembled (by decide +kernel) 1000000⟩

end Machine

end TernaryMachine
