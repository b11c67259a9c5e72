import TernaryMachine.Proofs.Execution
import TernaryMachine.Proofs.Program
/-! # Runs of an assembled program

A machine that starts on an assembled program executes what the record of the program says, as
long as it does not overwrite the program.

* **Program cells.**  A store changes only the cell it names (`read_step_of_ne`), so the cells of
  the program are still as assembled after every run whose stores are outside of it
  (`holds_of_run`).
* **Fetching.**  While they are, the machine fetches at the address of a recorded instruction
  exactly that instruction, with the second word of a long one (`fetch_of_holds`).
* **Falling through.**  After an instruction that does not jump comes the next one of the record,
  or the end of the program (`toInt_wrap_end`). -/

namespace TernaryMachine

namespace Program

def Covers (p : Program) (a : Word) : Prop :=
  0 ≤ a.toInt ∧ a.toInt < p.info.length

/-- Whether a memory is as assembled on the program's addresses. -/
def Holds (p : Program) (m : Memory) : Prop :=
  ∀ a, p.Covers a → m.read a = p.memory.read a

theorem holds_self (p : Program) : p.Holds p.memory :=
  fun _ _ => rfl

end Program

namespace ProgramInfo

/-- The address after the instruction at an address: that of the next recorded instruction, or the
end of the program as the program counter holds it. -/
def after (info : ProgramInfo) (address : Int) : Int :=
  match List.find? (fun entry => address < entry.1) info.instructions with
  | some entry => entry.1
  | none => (Word.wrap info.length).toInt

end ProgramInfo

/-! ### Program cells -/

namespace Machine

variable {m m' : Machine} {i : Instruction}

/-- The address that the next step stores to, if it is a store. -/
def storeTarget? (m : Machine) : Option Word :=
  match m.step.result with
  | .ok i => if i.stores then some (m.operand i.source) else none
  | .error _ => none

/-- A step leaves every cell alone but the one it stores to. -/
theorem read_step_of_ne (h : m.step = ⟨m', .ok i⟩) {a : Word} (apart : m.storeTarget? ≠ some a) :
    m'.memory.read a = m.memory.read a := by
  obtain ⟨-, -, rfl⟩ := step_eq_ok_iff.mp h
  rw [memory_perform]
  by_cases stores : i.stores
  · have target : m.storeTarget? = some (m.operand i.source) := by
      simp [storeTarget?, h, stores]
    have ne : m.operand i.source ≠ a := by
      intro e
      exact apart (by rw [target, e])
    rw [if_pos stores, Memory.read_write_of_ne _ _ ne.symm]
  · rw [if_neg stores]

theorem holds_of_run {p : Program} {n : Nat} (init : p.Holds m.memory)
    (ran : m.run n = ⟨m', .ok n⟩)
    (apart : ∀ k < n, ∀ a, (m.run k).machine.storeTarget? = some a → ¬ p.Covers a) :
    p.Holds m'.memory := by
  induction n generalizing m' with
  | zero =>
    cases ran
    exact init
  | succ n ih =>
    obtain ⟨before, i, ran, stepped⟩ := run_succ_eq_ok_iff.mp ran
    have held := ih ran fun k hk => apart k (by omega)
    have last := apart n (by omega)
    rw [ran] at last
    intro a covers
    rw [read_step_of_ne stepped fun target => last a target covers]
    exact held a covers

end Machine

/-! ### Fetching -/

namespace Program.LaidOut

variable {source : List Char} {p : Program} {bs : List Block} {m : Machine} {i : Instruction}

theorem fetch_of_holds (h : p.LaidOut source bs) (held : p.Holds m.memory)
    (recorded : (m.registers.pc.toInt, i) ∈ p.info.instructions) : m.fetch = .ok i := by
  obtain ⟨b, hb, at_block, rfl⟩ := h.mem_instructions.mp recorded
  unfold Machine.fetch Machine.fetched
  apply h.decode_at hb (fun a lower upper => held a ⟨lower, upper⟩) at_block.symm
  intro n hn
  have succ : m.registers.pc.succ = n := by
    rw [← Word.toInt_inj, Word.toInt_succ, ← at_block, ← hn, Word.bmod_toInt]
  rw [succ]

/-! ### Falling through -/

theorem toInt_wrap_end (h : p.LaidOut source bs) {a : Int}
    (mem : (a, i) ∈ p.info.instructions) :
    (Word.wrap (a + i.words)).toInt = p.info.after a := by
  have tiles := h.tiles_instructions
  unfold ProgramInfo.after
  rcases tiles.find?_after (fun entry _ => entry.2.words_pos) mem with
    ⟨none, stop⟩ | ⟨entry, hm, found, next⟩
  · rw [none, stop]
  · have bounds := tiles.bounds hm
    have pos := entry.2.words_pos
    simp only [next] at bounds
    simp only [found, next]
    exact h.toInt_wrap (by omega) (by omega)

end Program.LaidOut

namespace Machine

variable {source : String} {p : Program} {n : Nat} {m : Machine} {i : Instruction}

/-- **Tracing**: after a run whose stores are all outside the program, the machine at a recorded
address executes the recorded instruction, and then stands at the address after it unless the
instruction jumps. -/
theorem step_recorded (assembled : assemble source = .ok p)
    (ran : (start p.memory).run n = ⟨m, .ok n⟩)
    (apart : ∀ k < n, ∀ a, ((start p.memory).run k).machine.storeTarget? = some a → ¬ p.Covers a)
    (recorded : (m.registers.pc.toInt, i) ∈ p.info.instructions) :
    m.step.result = .ok i ∧
      (i.jumps m.registers.flag = false →
        m.step.machine.registers.pc.toInt = p.info.after m.registers.pc.toInt) := by
  obtain ⟨bs, laid⟩ := Program.laidOut_of_assemble assembled
  have held := holds_of_run p.holds_self ran apart
  have running := status_of_run rfl ran
  have stepped := step_of_fetch running (laid.fetch_of_holds held recorded)
  refine ⟨by rw [stepped], fun stays => ?_⟩
  rw [stepped, pc_perform, stays, if_neg (by decide)]
  exact laid.toInt_wrap_end recorded

/-- A program that stores below itself and goes on: the sum at address two is executed, and the
machine then stands at address three. -/
theorem step_recorded_past_store :
    ∃ p m, assemble ".top\nSTA r1, -oooooooo\nADD r1, oooooooo+\nJMP .top" = .ok p ∧
      (start p.memory).storeTarget?.map Word.toInt = some (-6561) ∧
      (start p.memory).run 1 = ⟨m, .ok 1⟩ ∧
      m.step.result = .ok ⟨.add, .load, .r1, .short 1⟩ ∧
      m.step.machine.registers.pc.toInt = 3 := by
  have table : (assemble ".top\nSTA r1, -oooooooo\nADD r1, oooooooo+\nJMP .top").map
      (fun p => p.info.instructions) = .ok
        [(0, ⟨.lod, .store, .r1, .word (.wrap (-6561))⟩), (2, ⟨.add, .load, .r1, .short 1⟩),
          (3, ⟨.jmp, .load, .r0, .word .zero⟩)] := by decide +kernel
  obtain ⟨p, assembled, table⟩ := map_eq_ok_iff.mp table
  obtain ⟨bs, laid⟩ := Program.laidOut_of_assemble assembled
  have stepped := step_of_fetch rfl
    (laid.fetch_of_holds (m := start p.memory) p.holds_self (by rw [table]; exact .head _))
  have target : (start p.memory).storeTarget? = some (.wrap (-6561)) := by
    simp [storeTarget?, stepped, Instruction.stores, operand]
  have ran : (start p.memory).run 1 = ⟨_, .ok 1⟩ := run_succ_eq_ok_iff.mpr ⟨_, _, rfl, stepped⟩
  have here : (Machine.perform (start p.memory)
      ⟨.lod, .store, .r1, .word (.wrap (-6561))⟩).registers.pc.toInt = 2 := by
    rw [pc_perform]
    show (Word.wrap (0 + 2)).toInt = 2
    decide
  have apart : ∀ k < 1, ∀ a, ((start p.memory).run k).machine.storeTarget? = some a →
      ¬ p.Covers a := by
    intro k hk a stores covers
    obtain rfl : k = 0 := by omega
    have e : some (Word.wrap (-6561)) = some a := target.symm.trans stores
    cases e
    exact absurd covers.1 (by decide)
  have recorded := step_recorded (i := ⟨.add, .load, .r1, .short 1⟩) assembled ran apart
    (by rw [here, table]; simp)
  refine ⟨p, _, assembled, by rw [target]; decide, ran, recorded.1, ?_⟩
  rw [recorded.2 rfl, here, ProgramInfo.after, table]
  rfl

end Machine

end TernaryMachine
