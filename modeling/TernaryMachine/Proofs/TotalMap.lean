import Mathlib.Logic.Function.Basic
import TernaryMachine.Proofs.Image
/-! # Memory as a total map of its cells

The cells of a memory are a total map from the integers between `-9841` and `9841` to words, and
every operation on the cells is one on the map.

* **The map.**  `CellMap.Does` says what an operation may answer and what it leaves, with a rule for
  each way to end.  A cell has an integer as its only name, so a word and its integer name the same
  one.  Nothing outside of the domain of the map can be named.
* **The memory.**  `Memory.toMap` is the map of a memory, and it determines the memory
  (`Memory.toMap_inj`).  `Memory.perform` carries an operation out, and does what the map does
  (`Memory.does_perform`), so a list of operations does too (`Memory.runs_replies`).
* **Contents.**  `Memory.used` lists the cells of the map that are not zero, in ascending order. -/

namespace TernaryMachine

/-! ### Addresses -/

/-- Whether an integer is the address of a cell. -/
def IsCell (a : Int) : Prop :=
  -Word.limit ≤ a ∧ a ≤ Word.limit

abbrev CellAddress := {a : Int // IsCell a}

/-- What an operation names a cell by: a word, or an integer that is not checked yet. -/
inductive Address where
  | word (a : Word)
  | int (a : Int)

namespace Address

def toInt : Address → Int
  | word a => a.toInt
  | int a => a

end Address

namespace Word

def cell (a : Word) : CellAddress :=
  ⟨a.toInt, a.neg_limit_le_toInt, a.toInt_le_limit⟩

theorem cell_inj {a b : Word} : a.cell = b.cell ↔ a = b :=
  Subtype.ext_iff.trans toInt_inj

theorem exists_toInt {a : Int} (h : IsCell a) : ∃ w : Word, w.toInt = a :=
  ⟨wrap a, toInt_wrap_of_le h.1 h.2⟩

theorem exists_cell (a : CellAddress) : ∃ w : Word, w.cell = a := by
  obtain ⟨w, same⟩ := exists_toInt a.2
  exact ⟨w, Subtype.ext same⟩

end Word

/-! ### Operations -/

inductive MemoryOp where
  | load (a : Address)
  | store (a : Address) (v : Word)
  | read (a : Word)
  | write (a v : Word)
  | clear
  | install (start : Int) (program : List Word)
  | region (start : Int) (length : Nat)

namespace MemoryOp

def InRange : MemoryOp → Prop
  | load a | store a _ => IsCell a.toInt
  | read _ | write _ _ | clear => True
  | install start program => IsCell start ∧ start + program.length ≤ Word.limit + 1
  | region start length => IsCell start ∧ start + length ≤ Word.limit + 1

/-- The addresses that an operation indexes the cells with. -/
def addresses : MemoryOp → List Int
  | load a | store a _ => [a.toInt]
  | read a | write a _ => [a.toInt]
  | clear => []
  | install start program => (List.range program.length).map fun k : Nat => start + k
  | region start length => (List.range length).map fun k : Nat => start + k

theorem InRange.isCell {op : MemoryOp} {a : Int} (h : op.InRange) (mem : a ∈ op.addresses) :
    IsCell a := by
  cases op with
  | load b | store b _ => exact List.mem_singleton.mp mem ▸ h
  | read b | write b _ => exact List.mem_singleton.mp mem ▸ b.cell.2
  | clear => exact absurd mem List.not_mem_nil
  | install start program | region start length =>
    obtain ⟨k, lt, rfl⟩ := List.mem_map.mp mem
    have low := h.1.1
    have high := h.2
    rw [List.mem_range] at lt
    constructor <;> omega

end MemoryOp

inductive MemoryReply where
  | done
  | word (w : Word)
  | words (ws : List Word)
deriving DecidableEq, Repr

/-- A memory after an operation, and what the operation gave. -/
structure Performed where
  memory : Memory
  reply : Except MemoryError MemoryReply

namespace Memory

/-- A memory that was changed, or the one there was and the error. -/
def change (m : Memory) : Except MemoryError Memory → Performed
  | .ok m' => ⟨m', .ok .done⟩
  | .error e => ⟨m, .error e⟩

def perform (m : Memory) : MemoryOp → Performed
  | .load (.word a) => ⟨m, .ok (.word (m.read a))⟩
  | .load (.int a) => ⟨m, (m.load a).map .word⟩
  | .store (.word a) v => ⟨m.write a v, .ok .done⟩
  | .store (.int a) v => m.change (m.store a v)
  | .read a => ⟨m, .ok (.word (m.read a))⟩
  | .write a v => ⟨m.write a v, .ok .done⟩
  | .clear => ⟨m.clear, .ok .done⟩
  | .install start program => m.change (m.install start program)
  | .region start length => ⟨m, (m.region start length).map .words⟩

/-- The memory after operations one after the other. -/
def performAll (m : Memory) : List MemoryOp → Memory
  | [] => m
  | op :: ops => (m.perform op).memory.performAll ops

/-- What operations give one after the other. -/
def replies (m : Memory) : List MemoryOp → List (Except MemoryError MemoryReply)
  | [] => []
  | op :: ops => (m.perform op).reply :: (m.perform op).memory.replies ops

end Memory

/-! ### Maps -/

/-- A word for every cell. -/
def CellMap : Type :=
  CellAddress → Word

namespace CellMap

def zero : CellMap :=
  fun _ => .zero

/-- The map with another word in a cell. -/
def set (f : CellMap) (a : CellAddress) (v : Word) : CellMap :=
  Function.update f a v

/-- The map with words in the cells from an address on. -/
def overwrite (f : CellMap) (start : Int) (ws : List Word) : CellMap := fun a =>
  if start ≤ a.1 then ws[(a.1 - start).toNat]?.getD (f a) else f a

/-- The words of the cells from an address on, all of them cells. -/
def slice (f : CellMap) (start : Int) (length : Nat) (first : IsCell start)
    (fits : start + length ≤ Word.limit + 1) : List Word :=
  List.ofFn fun k : Fin length => f ⟨start + k, by
    have := k.isLt
    have := first.1
    constructor <;> omega⟩

/-- What an operation may give on a map, and the map that it leaves. -/
inductive Does (f : CellMap) :
    MemoryOp → Except MemoryError MemoryReply → CellMap → Prop where
  | load {a : Address} (cell : IsCell a.toInt) :
    Does f (.load a) (.ok (.word (f ⟨a.toInt, cell⟩))) f
  | load_outside {a : Address} (outside : ¬ IsCell a.toInt) :
    Does f (.load a) (.error (.addressOutOfRange a.toInt)) f
  | store {a : Address} (v : Word) (cell : IsCell a.toInt) :
    Does f (.store a v) (.ok .done) (f.set ⟨a.toInt, cell⟩ v)
  | store_outside {a : Address} (v : Word) (outside : ¬ IsCell a.toInt) :
    Does f (.store a v) (.error (.addressOutOfRange a.toInt)) f
  | read (a : Word) : Does f (.read a) (.ok (.word (f a.cell))) f
  | write (a v : Word) : Does f (.write a v) (.ok .done) (f.set a.cell v)
  | clear : Does f .clear (.ok .done) zero
  | install {start : Int} {ws : List Word} (first : IsCell start)
    (fits : start + ws.length ≤ Word.limit + 1) :
    Does f (.install start ws) (.ok .done) (f.overwrite start ws)
  /-- The size that is reported is the true one, and so is the number of cells left. -/
  | install_too_large {start : Int} {ws : List Word} {available : Nat} (first : IsCell start)
    (large : Word.limit + 1 < start + ws.length) (left : available = Word.limit + 1 - start) :
    Does f (.install start ws) (.error (.programTooLarge ws.length available)) f
  | install_outside {start : Int} {ws : List Word} (outside : ¬ IsCell start) :
    Does f (.install start ws) (.error (.addressOutOfRange start)) f
  | region {start : Int} {length : Nat} (first : IsCell start)
    (fits : start + length ≤ Word.limit + 1) :
    Does f (.region start length) (.ok (.words (f.slice start length first fits))) f
  /-- The address that is reported is that of no cell. -/
  | region_past {start reported : Int} {length : Nat} (first : IsCell start)
    (large : Word.limit + 1 < start + length) (outside : ¬ IsCell reported) :
    Does f (.region start length) (.error (.addressOutOfRange reported)) f
  | region_outside {start : Int} {length : Nat} (outside : ¬ IsCell start) :
    Does f (.region start length) (.error (.addressOutOfRange start)) f

/-- Operations one after the other. -/
inductive Runs : CellMap → List MemoryOp → List (Except MemoryError MemoryReply) → CellMap → Prop
  | nil (f : CellMap) : Runs f [] [] f
  | cons {f g h : CellMap} {op : MemoryOp} {ops : List MemoryOp}
    {reply : Except MemoryError MemoryReply} {replies : List (Except MemoryError MemoryReply)}
    (does : f.Does op reply g) (rest : Runs g ops replies h) :
    Runs f (op :: ops) (reply :: replies) h

/-! ### Maps and memories -/

theorem ext_cell {f g : CellMap} (h : ∀ w : Word, f w.cell = g w.cell) : f = g := by
  funext a
  obtain ⟨w, rfl⟩ := Word.exists_cell a
  exact h w

theorem set_apply (f : CellMap) (a b : CellAddress) (v : Word) :
    f.set a v b = if b = a then v else f b :=
  Function.update_apply f a v b

theorem Does.eq_of_error {f g : CellMap} {op : MemoryOp} {e : MemoryError}
    (h : f.Does op (.error e) g) : g = f := by
  cases h <;> rfl

end CellMap

namespace Memory

variable {m m' : Memory} {start : Int} {length : Nat} {ws : List Word}

def toMap (m : Memory) : CellMap := fun a =>
  m.cells.get ⟨(a.1 + Word.limit).toNat, by
    have := a.2.2
    simp only [Word.limit, Word.count] at *
    omega⟩

theorem toMap_cell (m : Memory) (w : Word) : m.toMap w.cell = m.read w :=
  rfl

theorem toMap_apply (m : Memory) (a : CellAddress) : m.toMap a = m.read (.wrap a.1) := by
  rw [← toMap_cell]
  exact congrArg m.toMap (Subtype.ext (Word.toInt_wrap_of_le a.2.1 a.2.2).symm)

theorem toMap_inj : m.toMap = m'.toMap ↔ m = m' := by
  constructor
  · intro h
    apply eq_of_read_eq
    intro w
    rw [← toMap_cell, h, toMap_cell]
  · rintro rfl
    rfl

theorem toMap_empty : empty.toMap = .zero := by
  apply CellMap.ext_cell
  intro w
  rw [toMap_cell, read_empty]
  rfl

theorem toMap_write (m : Memory) (a v : Word) : (m.write a v).toMap = m.toMap.set a.cell v := by
  apply CellMap.ext_cell
  intro w
  rw [toMap_cell, read_write, CellMap.set_apply, toMap_cell]
  simp only [Word.cell_inj]

theorem toMap_of_written (h : m.Written m' start ws) :
    m'.toMap = m.toMap.overwrite start ws := by
  apply CellMap.ext_cell
  intro w
  show m'.read w =
    if start ≤ w.toInt then ws[(w.toInt - start).toNat]?.getD (m.read w) else m.read w
  by_cases below : start ≤ w.toInt
  · rw [if_pos below]
    cases word : ws[(w.toInt - start).toNat]? with
    | none =>
      rw [List.getElem?_eq_none_iff] at word
      exact h.outside w (by omega)
    | some v => exact h.inside _ v w word (by omega)
  · rw [if_neg below]
    exact h.outside w fun within => below within.1

theorem region_eq_slice (m : Memory) (first : IsCell start)
    (fits : start + length ≤ Word.limit + 1) :
    m.region start length = .ok (m.toMap.slice start length first fits) := by
  obtain ⟨w, rfl⟩ := Word.exists_toInt first
  rw [m.region_toInt w fits, CellMap.slice, List.ofFn_eq_map]
  simp only [toMap_apply]
  rw [← List.map_coe_finRange_eq_range, List.map_map]
  rfl

/-! ### Operations on a memory -/

theorem perform_load (m : Memory) (a : Address) :
    m.perform (.load a) = ⟨m, (m.load a.toInt).map .word⟩ := by
  cases a with
  | word w =>
    rw [Address.toInt, load_toInt]
    rfl
  | int a => rfl

theorem perform_store (m : Memory) (a : Address) (v : Word) :
    m.perform (.store a v) = m.change (m.store a.toInt v) := by
  cases a with
  | word w =>
    rw [Address.toInt, store_toInt]
    rfl
  | int a => rfl

theorem load_of_isCell (m : Memory) (cell : IsCell start) :
    m.load start = .ok (m.toMap ⟨start, cell⟩) := by
  obtain ⟨w, rfl⟩ := Word.exists_toInt cell
  exact m.load_toInt w

theorem slot?_of_not_isCell (outside : ¬ IsCell start) :
    slot? start = .error (.addressOutOfRange start) :=
  dif_neg outside

/-- A program that has too many words is refused with the number of its words and of the cells
that are left. -/
theorem install_of_large (m : Memory) (first : IsCell start)
    (large : Word.limit + 1 < start + ws.length) :
    m.install start ws =
      .error (.programTooLarge ws.length (Word.limit + 1 - start).toNat) := by
  obtain ⟨w, rfl⟩ := Word.exists_toInt first
  have low := w.neg_limit_le_toInt
  have left : Word.count - (slot w).val = (Word.limit + 1 - w.toInt).toNat := by
    simp only [slot, Word.limit, Word.count] at *
    omega
  rw [install, slot?_toInt]
  simp only [left]
  rw [if_pos (by omega)]

/-- A region that runs past the top of memory is refused with the address after its end, if that
can be reported. -/
theorem region_of_large (m : Memory) (first : IsCell start)
    (large : Word.limit + 1 < start + length) :
    m.region start length = .error (.addressOutOfRange (endReported start length)) := by
  obtain ⟨w, rfl⟩ := Word.exists_toInt first
  have low := w.neg_limit_le_toInt
  have past : Word.count < (slot w).val + length := by
    simp only [slot, Word.limit, Word.count] at *
    omega
  rw [region, slot?_toInt]
  simp only [if_pos past]

/-- What is reported of such a region is not the address of a cell, even if it is cut down. -/
theorem not_isCell_endReported (large : Word.limit + 1 < start + length) :
    ¬ IsCell (endReported start length) := by
  intro cell
  have upper := cell.2
  have largest : ¬ (reportLimit : Int) ≤ Word.limit := by decide
  rw [endReported] at upper
  split at upper
  · exact largest upper
  · split at upper
    · exact largest upper
    · omega

theorem does_install (m : Memory) (start : Int) (ws : List Word) :
    m.toMap.Does (.install start ws) (m.perform (.install start ws)).reply
      (m.perform (.install start ws)).memory.toMap := by
  rw [perform]
  by_cases first : IsCell start
  · by_cases fits : start + ws.length ≤ Word.limit + 1
    · obtain ⟨w, rfl⟩ := Word.exists_toInt first
      obtain ⟨m', installed, written⟩ := m.install_eq_ok w fits
      rw [installed, change, toMap_of_written written]
      exact .install first fits
    · have left : 0 ≤ Word.limit + 1 - start := by
        have := first.2
        omega
      rw [m.install_of_large first (by omega)]
      exact .install_too_large first (by omega) (Int.toNat_of_nonneg left)
  · rw [install, slot?_of_not_isCell first]
    exact .install_outside first

theorem does_region (m : Memory) (start : Int) (length : Nat) :
    m.toMap.Does (.region start length) (m.perform (.region start length)).reply
      (m.perform (.region start length)).memory.toMap := by
  rw [perform]
  by_cases first : IsCell start
  · by_cases fits : start + length ≤ Word.limit + 1
    · rw [m.region_eq_slice first fits]
      exact .region first fits
    · have large : Word.limit + 1 < start + length := by omega
      rw [m.region_of_large first large]
      exact .region_past first large (not_isCell_endReported large)
  · rw [region, slot?_of_not_isCell first]
    exact .region_outside first

theorem does_load (m : Memory) (a : Address) :
    m.toMap.Does (.load a) (m.perform (.load a)).reply (m.perform (.load a)).memory.toMap := by
  rw [perform_load]
  by_cases cell : IsCell a.toInt
  · rw [m.load_of_isCell cell]
    exact .load cell
  · rw [m.load_of_out cell]
    exact .load_outside cell

theorem does_store (m : Memory) (a : Address) (v : Word) :
    m.toMap.Does (.store a v) (m.perform (.store a v)).reply
      (m.perform (.store a v)).memory.toMap := by
  rw [perform_store]
  by_cases cell : IsCell a.toInt
  · obtain ⟨w, same⟩ := Word.exists_toInt cell
    have here : w.cell = ⟨a.toInt, cell⟩ := Subtype.ext same
    rw [← same, store_toInt, change, toMap_write, here]
    exact .store v cell
  · rw [store, slot?_of_not_isCell cell]
    exact .store_outside v cell

/-- An operation on a memory does what it does on the map. -/
theorem does_perform (m : Memory) (op : MemoryOp) :
    m.toMap.Does op (m.perform op).reply (m.perform op).memory.toMap := by
  cases op with
  | load a => exact m.does_load a
  | store a v => exact m.does_store a v
  | read a => exact .read a
  | write a v =>
    rw [perform, toMap_write]
    exact .write a v
  | clear =>
    rw [perform, clear_eq_empty, toMap_empty]
    exact .clear
  | install start program => exact m.does_install start program
  | region start length => exact m.does_region start length

theorem runs_replies (m : Memory) (ops : List MemoryOp) :
    m.toMap.Runs ops (m.replies ops) (m.performAll ops).toMap := by
  induction ops generalizing m with
  | nil => exact .nil _
  | cons op ops ih => exact .cons (m.does_perform op) (ih _)

theorem exists_ok_iff (m : Memory) (op : MemoryOp) :
    (∃ reply, (m.perform op).reply = .ok reply) ↔ op.InRange := by
  have does := m.does_perform op
  generalize (m.perform op).reply = r at does
  generalize (m.perform op).memory.toMap = g at does
  cases does with
  | load cell | store _ cell => simpa [MemoryOp.InRange] using cell
  | load_outside outside | store_outside _ outside => simpa [MemoryOp.InRange] using outside
  | read | write | clear => simp [MemoryOp.InRange]
  | install first fits | region first fits => simp [MemoryOp.InRange, first, fits]
  | install_too_large first large | region_past first large => simp [MemoryOp.InRange, large]
  | install_outside outside | region_outside outside => simp [MemoryOp.InRange, outside]

theorem memory_of_error {m : Memory} {op : MemoryOp} {e : MemoryError}
    (h : (m.perform op).reply = .error e) : (m.perform op).memory = m := by
  have does := m.does_perform op
  rw [h] at does
  exact toMap_inj.mp does.eq_of_error

theorem load_of_store {a b : Address} (m : Memory) (v : Word) (ne : a.toInt ≠ b.toInt) :
    ((m.perform (.store a v)).memory.perform (.load b)).reply = (m.perform (.load b)).reply := by
  rw [perform_store, perform_load, perform_load]
  by_cases stored : IsCell a.toInt
  · obtain ⟨w, same⟩ := Word.exists_toInt stored
    rw [← same, store_toInt, change]
    by_cases loaded : IsCell b.toInt
    · obtain ⟨w', same'⟩ := Word.exists_toInt loaded
      have apart : w' ≠ w := fun e => ne (by rw [← same, ← same', e])
      rw [← same', load_toInt, load_toInt, read_write_of_ne m v apart]
    · rw [load_of_out _ loaded, load_of_out _ loaded]
  · rw [store, slot?_of_not_isCell stored]
    rfl

/-! ### Contents -/

theorem getElem?_cells_iff {i : Nat} {w : Word} :
    m.cells.toList[i]? = some w ↔
      ∃ cell : IsCell (i - Word.limit), m.toMap ⟨i - Word.limit, cell⟩ = w := by
  rw [List.getElem?_eq_some_iff]
  have index : ((i : Int) - Word.limit + Word.limit).toNat = i := by omega
  have lt_iff : i < m.cells.toList.length ↔ IsCell (i - Word.limit) := by
    rw [Vector.length_toList]
    simp only [IsCell, Word.limit, Word.count]
    omega
  constructor
  · rintro ⟨lt, rfl⟩
    refine ⟨lt_iff.mp lt, ?_⟩
    simp only [toMap, index]
    rfl
  · rintro ⟨cell, rfl⟩
    refine ⟨lt_iff.mpr cell, ?_⟩
    simp only [toMap, index]
    rfl

/-- What is kept of a word and its place in the list of the cells that are not zero. -/
theorem usedCell_eq_some_iff {w : Word} {i : Nat} {c : Cell} :
    (if w.isZero then none else some (⟨i - Word.limit, w⟩ : Cell)) = some c ↔
      w ≠ .zero ∧ (i : Int) - Word.limit = c.address ∧ w = c.word := by
  obtain ⟨address, word⟩ := c
  have zero : w.isZero = true ↔ w = .zero := by
    rw [Word.isZero_iff, ← Word.toInt_zero, Word.toInt_inj]
  by_cases h : w = .zero
  · rw [if_pos (zero.mpr h)]
    simp [h]
  · rw [if_neg fun z => h (zero.mp z)]
    simp [h]

theorem mem_used_iff {c : Cell} :
    c ∈ m.used ↔
      ∃ cell : IsCell c.address, m.toMap ⟨c.address, cell⟩ = c.word ∧ c.word ≠ .zero := by
  rw [used, List.mem_filterMap]
  simp only [Prod.exists, List.mem_zipIdx_iff_getElem?, usedCell_eq_some_iff, getElem?_cells_iff]
  obtain ⟨address, word⟩ := c
  constructor
  · rintro ⟨w, i, ⟨cell, here⟩, nonzero, rfl, rfl⟩
    exact ⟨cell, here, nonzero⟩
  · rintro ⟨cell, here, nonzero⟩
    have place : (((address + Word.limit).toNat : Nat) : Int) - Word.limit = address := by
      have low : -Word.limit ≤ address := cell.1
      omega
    refine ⟨word, (address + Word.limit).toNat, ⟨place.symm ▸ cell, ?_⟩, nonzero, place, rfl⟩
    simpa only [place] using here

theorem pairwise_used (m : Memory) : m.used.Pairwise fun c d => c.address < d.address := by
  have places : m.cells.toList.zipIdx.Pairwise fun x y => x.2 < y.2 := by
    rw [← List.pairwise_map, List.zipIdx_map_snd]
    exact List.pairwise_lt_range'
  rw [used, List.pairwise_filterMap]
  refine places.imp ?_
  intro x y lt c at_x d at_y
  obtain ⟨-, left, -⟩ := usedCell_eq_some_iff.mp at_x
  obtain ⟨-, right, -⟩ := usedCell_eq_some_iff.mp at_y
  omega

/-! ### Memory as a map -/

/-- What is so of a memory because it is a total map. -/
structure ActsAsMap (m : Memory) : Prop where
  does (op : MemoryOp) :
    m.toMap.Does op (m.perform op).reply (m.perform op).memory.toMap
  succeeds_iff (op : MemoryOp) : (∃ reply, (m.perform op).reply = .ok reply) ↔ op.InRange
  /-- Every address that the cells are indexed with has its place among them. -/
  indexed {op : MemoryOp} {reply : MemoryReply} (h : (m.perform op).reply = .ok reply) :
    ∀ a ∈ op.addresses, ∃ i : Fin Word.count, slot? a = .ok i ∧ (i : Int) = a + Word.limit
  kept {op : MemoryOp} {e : MemoryError} (h : (m.perform op).reply = .error e) :
    (m.perform op).memory = m
  same_load {a b : Address} (h : a.toInt = b.toInt) : m.perform (.load a) = m.perform (.load b)
  same_store {a b : Address} (v : Word) (h : a.toInt = b.toInt) :
    m.perform (.store a v) = m.perform (.store b v)
  apart {a b : Address} (v : Word) (ne : a.toInt ≠ b.toInt) :
    ((m.perform (.store a v)).memory.perform (.load b)).reply = (m.perform (.load b)).reply
  ascending : m.used.Pairwise fun c d => c.address < d.address
  mem_used_iff {c : Cell} : c ∈ m.used ↔
    ∃ cell : IsCell c.address, m.toMap ⟨c.address, cell⟩ = c.word ∧ c.word ≠ .zero

theorem actsAsMap (m : Memory) : m.ActsAsMap where
  does := m.does_perform
  succeeds_iff := m.exists_ok_iff
  indexed h a mem := by
    obtain ⟨w, rfl⟩ := Word.exists_toInt (((m.exists_ok_iff _).mp ⟨_, h⟩).isCell mem)
    refine ⟨slot w, slot?_toInt w, Int.toNat_of_nonneg ?_⟩
    have := w.neg_limit_le_toInt
    omega
  kept := memory_of_error
  same_load h := by rw [perform_load, perform_load, h]
  same_store v h := by rw [perform_store, perform_store, h]
  apart v ne := m.load_of_store v ne
  ascending := m.pairwise_used
  mem_used_iff := m.mem_used_iff

/-- **Memory as a total map**: whatever is done with a memory that was empty at first is done with
the map that was zero everywhere, and gives the same. -/
theorem runs_total_map (ops : List MemoryOp) :
    CellMap.zero.Runs ops (empty.replies ops) (empty.performAll ops).toMap ∧
      (empty.performAll ops).ActsAsMap := by
  constructor
  · rw [← toMap_empty]
    exact runs_replies empty ops
  · exact actsAsMap _

/-- Both ends of the memory: a store at the lowest address and one past the highest, a load by the
word of the lowest, and a region from the highest on whose length is the largest there is. -/
theorem runs_total_map_ends :
    CellMap.zero.Runs
        [.store (.int (-9841)) (.wrap 7), .store (.int 9842) (.wrap 1),
          .load (.word (.wrap (-9841))), .region 9841 18446744073709551615]
        [.ok .done, .error (.addressOutOfRange 9842), .ok (.word (.wrap 7)),
          .error (.addressOutOfRange 2147483647)]
        (CellMap.zero.set (Word.cell (.wrap (-9841))) (.wrap 7)) ∧
      ((empty.write (.wrap (-9841)) (.wrap 7)).perform
        (.region 9841 18446744073709551615)).memory = empty.write (.wrap (-9841)) (.wrap 7) := by
  obtain ⟨runs, acts⟩ := runs_total_map
    [.store (.int (-9841)) (.wrap 7), .store (.int 9842) (.wrap 1),
      .load (.word (.wrap (-9841))), .region 9841 18446744073709551615]
  have stored : empty.perform (.store (.int (-9841)) (.wrap 7)) =
      ⟨empty.write (.wrap (-9841)) (.wrap 7), .ok .done⟩ := by
    have lowest := empty.store_toInt (.wrap (-9841)) (.wrap 7)
    rw [Word.toInt_wrap_of_le (by decide) (by decide)] at lowest
    rw [perform_store, Address.toInt, lowest, change]
  have outside (m : Memory) : m.perform (.store (.int 9842) (.wrap 1)) =
      ⟨m, .error (.addressOutOfRange 9842)⟩ := rfl
  have loaded (m : Memory) : m.perform (.load (.word (.wrap (-9841)))) =
      ⟨m, .ok (.word (m.read (.wrap (-9841))))⟩ := rfl
  have past (m : Memory) : m.perform (.region 9841 18446744073709551615) =
      ⟨m, .error (.addressOutOfRange 2147483647)⟩ := by
    rw [perform, m.region_of_large ⟨by decide, by decide⟩ (by decide)]
    rfl
  simp only [replies, performAll, stored, outside, loaded, past, read_write_same, toMap_write,
    toMap_empty] at runs acts
  exact ⟨runs, acts.kept (congrArg Performed.reply (past _))⟩

end Memory

end TernaryMachine
