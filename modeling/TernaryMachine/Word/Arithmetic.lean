import TernaryMachine.Word.Basic
/-! # Arithmetic on words

* **Sums and products** work trit by trit, low order first, with a carry that ripples upward.
  `Numeral.add` is the ripple-carry adder and `Numeral.mulAdd` the row-by-row multiplier; on words
  they give `Word.addWithCarry` and `Word.multiply`, whose carry and high word make the result
  exact.
* **Quotients** round toward zero, and the remainder has the sign of the dividend.
* **Shifts and rotations** move trits; a positive amount moves them to the most significant end. -/

namespace TernaryMachine

namespace Numeral

/-! ### Ripple-carry rows -/

/-- Adds two numerals of one length and a carry: the trits of the sum and the carry out. -/
def add : List Trit → List Trit → Trit → List Trit × Trit
  | a :: as, b :: bs, c =>
    let here := Trit.fullAdd a b c
    let rest := add as bs here.2
    (here.1 :: rest.1, rest.2)
  | _, _, c => ([], c)

theorem length_add (as bs : List Trit) (c : Trit) (h : as.length = bs.length) :
    (add as bs c).1.length = as.length := by
  induction as generalizing bs c with
  | nil => simp [add]
  | cons a as ih =>
    cases bs with
    | nil => simp at h
    | cons b bs => simpa [add] using ih bs _ (by simpa using h)

/-- Adds a carry to a numeral until it is used up; a carry out of the last trit is dropped. -/
def addCarry : List Trit → Trit → List Trit
  | [], _ => []
  | x :: xs, c =>
    if c.isZero then
      x :: xs
    else
      let here := Trit.fullAdd x c .zero
      here.1 :: addCarry xs here.2

theorem length_addCarry (xs : List Trit) (c : Trit) : (addCarry xs c).length = xs.length := by
  induction xs generalizing c with
  | nil => rfl
  | cons x xs ih =>
    simp only [addCarry]
    split <;> simp [ih]

/-- Adds a carry and `t` times the numeral `bs` to the low end of an accumulator. -/
def addRow (t : Trit) : List Trit → List Trit → Trit → List Trit
  | [], _, _ => []
  | x :: xs, [], c => addCarry (x :: xs) c
  | x :: xs, b :: bs, c =>
    let here := Trit.fullAdd x (t.mul b) c
    here.1 :: addRow t xs bs here.2

theorem length_addRow (t : Trit) (xs bs : List Trit) (c : Trit) :
    (addRow t xs bs c).length = xs.length := by
  induction xs generalizing bs c with
  | nil => simp [addRow]
  | cons x xs ih =>
    cases bs with
    | nil => simp [addRow, length_addCarry]
    | cons b bs => simp [addRow, ih]

/-- Adds the product of two numerals to an accumulator, one row for each trit of the first.  Once
its row is added, the lowest trit of the accumulator is final. -/
def mulAdd : List Trit → List Trit → List Trit → List Trit
  | [], _, acc => acc
  | a :: as, bs, acc =>
    match if a.isZero then acc else addRow a acc bs .zero with
    | [] => []
    | x :: xs => x :: mulAdd as bs xs

theorem length_mulAdd (as bs acc : List Trit) : (mulAdd as bs acc).length = acc.length := by
  induction as generalizing acc with
  | nil => rfl
  | cons a as ih =>
    have row : (if a.isZero then acc else addRow a acc bs .zero).length = acc.length := by
      split
      · rfl
      · exact length_addRow a acc bs .zero
    simp only [mulAdd]
    split
    · next h => simpa [h] using row
    · next x xs h =>
      rw [h] at row
      simpa [ih] using row

end Numeral

namespace Word

/-! ### Sums -/

/-- A sum and the carry out of its top trit. -/
structure Sum where
  word : Word
  carry : Trit
deriving DecidableEq, Repr

/-- The sum of two words and a carry. -/
def addWithCarry (a b : Word) (carry : Trit) : Sum where
  word := ⟨(Numeral.add a.trits b.trits carry).1, by
    rw [Numeral.length_add _ _ _ (by rw [a.length_trits, b.length_trits]), a.length_trits]⟩
  carry := (Numeral.add a.trits b.trits carry).2

def add (a b : Word) : Sum :=
  addWithCarry a b .zero

/-- The difference of two words; its carry is the borrow. -/
def subtract (a b : Word) : Sum :=
  add a b.neg

/-! ### Products and quotients -/

/-- The two halves of a product. -/
structure Product where
  low : Word
  high : Word
deriving DecidableEq, Repr

/-- The eighteen trits of a product. -/
def productTrits (a b : Word) : List Trit :=
  Numeral.mulAdd a.trits b.trits (List.replicate 18 .zero)

theorem length_productTrits (a b : Word) : (productTrits a b).length = 18 := by
  simp [productTrits, Numeral.length_mulAdd]

def multiply (a b : Word) : Product where
  low := ⟨(productTrits a b).take 9, by simp [length_productTrits]⟩
  high := ⟨(productTrits a b).drop 9, by simp [length_productTrits]⟩

/-- A quotient and its remainder. -/
structure Division where
  quotient : Word
  remainder : Word
deriving DecidableEq, Repr

/-- The quotient, rounded toward zero, and the remainder; there is none by zero. -/
def divide (a b : Word) : Option Division :=
  if b.isZero then
    none
  else
    some ⟨wrap (a.toInt.tdiv b.toInt), wrap (a.toInt.tmod b.toInt)⟩

/-! ### Shifts -/

/-- Moves the trits toward the high end and fills with `zero`. -/
def shiftUp (w : Word) (n : Nat) : Word :=
  ⟨(List.replicate n Trit.zero ++ w.trits).take 9, by simp [w.length_trits]⟩

/-- Moves the trits toward the low end and fills with `zero`. -/
def shiftDown (w : Word) (n : Nat) : Word :=
  ⟨(w.trits ++ List.replicate n Trit.zero).drop n, by simp [w.length_trits]⟩

/-- Shifts a word by a signed number of positions; nothing is left after nine. -/
def shift (w : Word) (amount : Int) : Word :=
  if 9 ≤ amount.natAbs then
    zero
  else if 0 ≤ amount then
    w.shiftUp amount.natAbs
  else
    w.shiftDown amount.natAbs

/-- Rotates a word by a signed number of positions. -/
def rotate (w : Word) (amount : Int) : Word :=
  let k := (-amount % 9).toNat
  ⟨w.trits.drop k ++ w.trits.take k, by simp [w.length_trits]; omega⟩

/-! ### Order -/

def compare (a b : Word) : Ordering :=
  if a.toInt < b.toInt then .lt else if b.toInt < a.toInt then .gt else .eq

end Word

end TernaryMachine
