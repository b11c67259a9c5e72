import TernaryMachine.Memory
import TernaryMachine.Proofs.Word
import TernaryMachine.Register
/-! # Memory and registers as total maps

A read after a write gives the word written if the place is the same, and otherwise what was there
before; this holds for cells (`Memory.read_write`) and for registers (`Registers.get_set`).
Accesses by an integer address are accesses by the word of that integer, wherever there is one
(`Memory.load_toInt`, `Memory.store_toInt`, `Memory.region_toInt`). -/

namespace TernaryMachine

namespace Memory

/-! ### Cells -/

theorem slot_inj {a b : Word} : slot a = slot b ↔ a = b := by
  have := a.neg_limit_le_toInt
  have := b.neg_limit_le_toInt
  simp only [slot, Fin.mk.injEq, ← Word.toInt_inj, Word.limit] at *
  omega

theorem read_write (m : Memory) (a b v : Word) :
    (m.write a v).read b = if b = a then v else m.read b := by
  show (m.cells.set (slot a).val v (slot a).isLt)[(slot b).val] = _
  rw [Vector.getElem_set]
  simp only [← Fin.ext_iff, slot_inj, eq_comm (a := a)]
  rfl

@[simp] theorem read_write_same (m : Memory) (a v : Word) : (m.write a v).read a = v := by
  rw [read_write, if_pos rfl]

theorem read_write_of_ne (m : Memory) {a b : Word} (v : Word) (h : b ≠ a) :
    (m.write a v).read b = m.read b := by
  rw [read_write, if_neg h]

@[simp] theorem read_empty (a : Word) : empty.read a = .zero :=
  Vector.getElem_replicate (slot a).isLt

theorem eq_of_read_eq {m m' : Memory} (h : ∀ a, m.read a = m'.read a) : m = m' := by
  obtain ⟨cells⟩ := m
  obtain ⟨cells'⟩ := m'
  rw [mk.injEq]
  apply Vector.ext
  intro i hi
  have cell : (slot (.wrap ((i : Int) - Word.limit))).val = i := by
    have := Word.toInt_wrap_of_le (v := (i : Int) - Word.limit)
      (by simp only [Word.limit]; omega) (by simp only [Word.limit, Word.count] at *; omega)
    simp only [slot]
    omega
  have read : cells[(slot (.wrap ((i : Int) - Word.limit))).val] =
      cells'[(slot (.wrap ((i : Int) - Word.limit))).val] := h _
  simpa only [cell] using read

theorem write_comm (m : Memory) {a b : Word} (v w : Word) (h : a ≠ b) :
    (m.write a v).write b w = (m.write b w).write a v := by
  apply eq_of_read_eq
  intro c
  rw [read_write, read_write, read_write, read_write]
  by_cases at_a : c = a
  · rw [if_pos at_a, if_neg (at_a ▸ h), if_pos at_a]
  · rw [if_neg at_a, if_neg at_a]

theorem clear_eq_empty (m : Memory) : m.clear = empty := by
  apply eq_of_read_eq
  intro a
  rw [read_empty]
  exact Vector.getElem_map _ (slot a).isLt

/-! ### Integer addresses -/

theorem slot?_toInt (a : Word) : slot? a.toInt = .ok (slot a) := by
  rw [slot?, dif_pos ⟨a.neg_limit_le_toInt, a.toInt_le_limit⟩]
  rfl

@[simp] theorem load_toInt (m : Memory) (a : Word) : m.load a.toInt = .ok (m.read a) := by
  rw [load, slot?_toInt]
  rfl

theorem load_of_out (m : Memory) {a : Int} (out : ¬ (-Word.limit ≤ a ∧ a ≤ Word.limit)) :
    m.load a = .error (.addressOutOfRange a) := by
  rw [load, slot?, dif_neg out]

@[simp] theorem store_toInt (m : Memory) (a v : Word) :
    m.store a.toInt v = .ok (m.write a v) := by
  rw [store, slot?_toInt]
  rfl

/-- A store succeeds at the integer of a word alone, and writes that cell. -/
theorem store_eq_ok_iff {m m' : Memory} {a : Int} {v : Word} :
    m.store a v = .ok m' ↔ ∃ w : Word, w.toInt = a ∧ m' = m.write w v := by
  constructor
  · intro h
    by_cases range : -Word.limit ≤ a ∧ a ≤ Word.limit
    · have e := Word.toInt_wrap_of_le range.1 range.2
      rw [← e, store_toInt] at h
      cases h
      exact ⟨.wrap a, e, rfl⟩
    · rw [store, slot?, dif_neg range] at h
      cases h
  · rintro ⟨w, rfl, rfl⟩
    exact store_toInt m w v

theorem region_toInt (m : Memory) (a : Word) {n : Nat} (h : a.toInt + n ≤ Word.limit + 1) :
    m.region a.toInt n = .ok ((List.range n).map fun k : Nat => m.read (.wrap (a.toInt + k))) := by
  have low := a.neg_limit_le_toInt
  have first : ((slot a).val : Int) = a.toInt + Word.limit := by
    simp only [slot]
    omega
  have fits : ¬ Word.count < (slot a).val + n := by
    simp only [Word.limit, Word.count] at *
    omega
  rw [region, slot?_toInt]
  simp only [if_neg fits]
  congr 1
  apply List.ext_getElem
  · simp only [Array.length_toList, Array.size_extract, Vector.size_toArray, List.length_map,
      List.length_range]
    omega
  · intro k hk hk'
    rw [List.length_map, List.length_range] at hk'
    have cell : (slot (.wrap (a.toInt + k))).val = (slot a).val + k := by
      have := Word.toInt_wrap_of_le (v := a.toInt + k) (by omega) (by omega)
      simp only [slot] at first ⊢
      omega
    simp only [Array.getElem_toList, Array.getElem_extract, List.getElem_map, List.getElem_range]
    show m.cells[(slot a).val + k] = m.cells[(slot (.wrap (a.toInt + k))).val]
    simp only [cell]

end Memory

namespace Registers

theorem get_set (regs : Registers) (r s : Register) (w : Word) :
    (regs.set r w).get s = if s = r then w else regs.get s := by
  show (regs.general.set r.index.val w r.index.isLt)[s.index.val] = _
  rw [Vector.getElem_set]
  simp only [← Fin.ext_iff, Register.index_inj, eq_comm (a := r)]
  rfl

/-- A comparison leaves the sign of the difference, which does not wrap. -/
theorem setFlag_compare (regs : Registers) (a b : Word) :
    regs.setFlag (a.compare b) = { regs with flag := .sign (a.toInt - b.toInt) } := by
  rw [Word.compare, Trit.sign]
  split
  · rw [if_neg (by omega), if_pos (by omega)]
    rfl
  · split
    · rw [if_pos (by omega)]
      rfl
    · rw [if_neg (by omega), if_neg (by omega)]
      rfl

end Registers

end TernaryMachine
