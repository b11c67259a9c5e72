import TernaryMachine.Word.Basic
/-! # Memory

One cell for each word: `19683` cells, addressed from `-9841` to `9841`, all zero at first.

* **Word addresses** always name a cell: `Memory.read` and `Memory.write` are total.
* **Integer addresses** are checked against the range: `Memory.load` and `Memory.store`.
* **Regions.**  `Memory.install` copies words to consecutive cells and `Memory.region` gives
  consecutive cells back; neither runs past the top of memory. -/

namespace TernaryMachine

/-- Why a memory access is refused. -/
inductive MemoryError where
  /-- No cell has this address. -/
  | addressOutOfRange (address : Int)
  /-- A program has more words than there are cells left. -/
  | programTooLarge (size available : Nat)
deriving DecidableEq, Repr

namespace MemoryError

def message : MemoryError → String
  | addressOutOfRange address =>
    s!"memory address {address} out of range (-9841 to +9841)"
  | programTooLarge size available =>
    s!"program of {size} words does not fit in the {available} cells left"

end MemoryError

/-- The cells in address order. -/
structure Memory where
  cells : Vector Word Word.count
deriving DecidableEq

/-- A cell that is not zero. -/
structure Cell where
  address : Int
  word : Word
deriving DecidableEq, Repr

namespace Memory

/-- The memory whose cells are all zero. -/
def empty : Memory :=
  ⟨Vector.replicate Word.count .zero⟩

instance : Inhabited Memory := ⟨empty⟩

/-! ### Single cells -/

/-- The place of an address among the cells. -/
def slot (address : Word) : Fin Word.count :=
  ⟨(address.toInt + Word.limit).toNat, by
    have := address.toInt_le_limit
    simp only [Word.limit, Word.count] at *
    omega⟩

def read (m : Memory) (address : Word) : Word :=
  m.cells.get (slot address)

/-- The memory with another word at an address. -/
def write (m : Memory) (address value : Word) : Memory :=
  ⟨m.cells.set (slot address).val value (slot address).isLt⟩

/-- The place of an integer address among the cells. -/
def slot? (address : Int) : Except MemoryError (Fin Word.count) :=
  if h : -Word.limit ≤ address ∧ address ≤ Word.limit then
    .ok ⟨(address + Word.limit).toNat, by simp only [Word.limit, Word.count] at *; omega⟩
  else
    .error (.addressOutOfRange address)

/-- The word at an integer address. -/
def load (m : Memory) (address : Int) : Except MemoryError Word :=
  match slot? address with
  | .ok i => .ok (m.cells.get i)
  | .error e => .error e

/-- The memory with another word at an integer address. -/
def store (m : Memory) (address : Int) (value : Word) : Except MemoryError Memory :=
  match slot? address with
  | .ok i => .ok ⟨m.cells.set i.val value i.isLt⟩
  | .error e => .error e

/-- The memory with every cell zero again. -/
def clear (m : Memory) : Memory :=
  ⟨m.cells.map fun _ => .zero⟩

/-! ### Runs of cells -/

/-- Replaces cells one after the other, from a place on. -/
def fill (cells : Vector Word Word.count) (i : Nat) : List Word → Vector Word Word.count
  | [] => cells
  | w :: ws => fill (cells.setIfInBounds i w) (i + 1) ws

/-- Copies a program into the cells from `start` on. -/
def install (m : Memory) (start : Int) (program : List Word) : Except MemoryError Memory :=
  match slot? start with
  | .error e => .error e
  | .ok first =>
    let available := Word.count - first.val
    if available < program.length then
      .error (.programTooLarge program.length available)
    else
      .ok ⟨fill m.cells first.val program⟩

/-- The largest address that an error reports. -/
def reportLimit : Nat := 2147483647

/-- The address reported for a region that runs past the top of memory: the one after its end,
or the largest if the length or the end is larger still. -/
def endReported (start : Int) (length : Nat) : Int :=
  if reportLimit < length then
    reportLimit
  else if reportLimit < start + length then
    reportLimit
  else
    start + length

/-- The words of the `length` cells from `start` on. -/
def region (m : Memory) (start : Int) (length : Nat) : Except MemoryError (List Word) :=
  match slot? start with
  | .error e => .error e
  | .ok first =>
    if Word.count < first.val + length then
      .error (.addressOutOfRange (endReported start length))
    else
      .ok (m.cells.toArray.extract first.val (first.val + length)).toList

/-! ### Contents -/

/-- The cells that are not zero, in address order. -/
def used (m : Memory) : List Cell :=
  m.cells.toList.zipIdx.filterMap fun (w, i) =>
    if w.isZero then none else some ⟨(i : Int) - Word.limit, w⟩

/-- The text of a memory for inspection: its size and the number of cells that are not zero. -/
def inspect (m : Memory) : String :=
  s!"Memory \x7b cells: {Word.count}, used: {m.used.length} \x7d"

end Memory

end TernaryMachine
