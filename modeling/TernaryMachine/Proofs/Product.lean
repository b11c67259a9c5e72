import Mathlib.Algebra.Order.Ring.Abs
import Mathlib.Tactic.LinearCombination
import TernaryMachine.Proofs.Word
/-! # Products row by row

The multiplier adds one row for each trit of its first factor, and the carry of a row runs on to
the end of the accumulator, where it would be dropped.

* **Carries.**  `Numeral.row` is a row together with the carry that is left at its end, so its law
  is an equation of integers and not of remainders (`value_row`).
* **Rows.**  `partialProduct` is the accumulator after some of the rows, and one more row is added
  above the trits that are final (`partialProduct_succ`).  A row of a zero trit is skipped, which
  makes no difference (`row_of_skipped`).
* **The invariant** is that the accumulator is worth the product of the trits so far by the second
  factor.  That is within the limit of the accumulator, so a row that starts from it has no carry
  left and leads to it again (`partialProduct_step`).  So it holds after every row
  (`value_partialProduct`), and nothing of the product of two words is lost. -/

namespace TernaryMachine

namespace Numeral

/-! ### Carries -/

/-- Adds a carry to a numeral until it is used up, and gives what is left of it at the end. -/
def ripple : List Trit → Trit → List Trit × Trit
  | [], c => ([], c)
  | x :: xs, c =>
    if c.isZero then
      (x :: xs, c)
    else
      let here := Trit.fullAdd x c .zero
      let rest := ripple xs here.2
      (here.1 :: rest.1, rest.2)

/-- Adds a carry and `t` times the numeral `bs` to the low end of an accumulator, and gives the
carry that is left at the end of the accumulator. -/
def row (t : Trit) : List Trit → List Trit → Trit → List Trit × Trit
  | [], _, c => ([], c)
  | x :: xs, [], c => ripple (x :: xs) c
  | x :: xs, b :: bs, c =>
    let here := Trit.fullAdd x (t.mul b) c
    let rest := row t xs bs here.2
    (here.1 :: rest.1, rest.2)

theorem ripple_fst (xs : List Trit) (c : Trit) : (ripple xs c).1 = addCarry xs c := by
  induction xs generalizing c with
  | nil => rfl
  | cons x xs ih =>
    rw [ripple, addCarry]
    split
    · rfl
    · simp only [ih]

theorem row_fst (t : Trit) (xs bs : List Trit) (c : Trit) :
    (row t xs bs c).1 = addRow t xs bs c := by
  induction xs generalizing bs c with
  | nil => rfl
  | cons x xs ih =>
    cases bs with
    | nil => exact ripple_fst _ c
    | cons b bs => simp only [row, addRow, ih]

theorem value_ripple (xs : List Trit) (c : Trit) :
    value (ripple xs c).1 + 3 ^ xs.length * (ripple xs c).2.toInt = value xs + c.toInt := by
  induction xs generalizing c with
  | nil => simp [ripple]
  | cons x xs ih =>
    rw [ripple]
    split
    · next h =>
      rw [Trit.isZero, beq_iff_eq] at h
      rw [h, Trit.toInt, mul_zero]
    · have here := Trit.fullAdd_value x c .zero
      have rest := ih (Trit.fullAdd x c .zero).2
      rw [Trit.toInt, add_zero] at here
      simp only [value_cons, List.length_cons, pow_succ]
      linarith

/-- A row loses nothing if the accumulator is as long as the numeral that it adds. -/
theorem value_row (t : Trit) {xs bs : List Trit} (c : Trit) (h : bs.length ≤ xs.length) :
    value (row t xs bs c).1 + 3 ^ xs.length * (row t xs bs c).2.toInt =
      value xs + t.toInt * value bs + c.toInt := by
  induction xs generalizing bs c with
  | nil =>
    obtain rfl := List.length_eq_zero_iff.mp (Nat.le_zero.mp h)
    simp [row]
  | cons x xs ih =>
    cases bs with
    | nil =>
      rw [row, value_ripple, value_nil, mul_zero, add_zero]
    | cons b bs =>
      have here := Trit.fullAdd_value x (t.mul b) c
      have rest := ih (Trit.fullAdd x (t.mul b) c).2 (Nat.le_of_succ_le_succ h)
      rw [Trit.toInt_mul] at here
      simp only [row, value_cons, List.length_cons, pow_succ]
      linarith

theorem row_zero (xs bs : List Trit) : row .zero xs bs .zero = (xs, .zero) := by
  induction xs generalizing bs with
  | nil => rfl
  | cons x xs ih =>
    cases bs with
    | nil => rfl
    | cons b bs =>
      have here : Trit.fullAdd x (Trit.mul .zero b) .zero = (x, .zero) := by
        cases x <;> cases b <;> rfl
      simp only [row, here, ih]

theorem row_of_skipped (t : Trit) (xs bs : List Trit) :
    (if t.isZero then xs else addRow t xs bs .zero) = (row t xs bs .zero).1 := by
  split
  · next h =>
    rw [Trit.isZero, beq_iff_eq] at h
    rw [h, row_zero]
  · rw [row_fst]

/-! ### Rows -/

/-- The accumulator of `n` trits after the rows of the first `i` trits. -/
def partialProduct (as bs : List Trit) (n i : Nat) : List Trit :=
  mulAdd (as.take i) bs (List.replicate n .zero)

/-- The row of the trit at `i`, added to the trits that are not final yet. -/
def productRow (as bs : List Trit) (n i : Nat) : List Trit × Trit :=
  row (as.getD i .zero) ((partialProduct as bs n i).drop i) bs .zero

theorem length_partialProduct (as bs : List Trit) (n i : Nat) :
    (partialProduct as bs n i).length = n := by
  rw [partialProduct, length_mulAdd, List.length_replicate]

theorem mulAdd_take_succ (as bs acc : List Trit) (i : Nat) :
    mulAdd (as.take (i + 1)) bs acc = (mulAdd (as.take i) bs acc).take i ++
      (row (as.getD i .zero) ((mulAdd (as.take i) bs acc).drop i) bs .zero).1 := by
  induction as generalizing acc i with
  | nil =>
    rw [List.take_nil, List.take_nil, List.getD_nil, row_zero, List.take_append_drop]
  | cons a as ih =>
    cases i with
    | zero =>
      rw [List.take_succ_cons, List.take_zero, mulAdd, row_of_skipped]
      simp only [mulAdd, List.take_zero, List.drop_zero, List.getD_cons_zero, List.nil_append]
      split
      · next h => exact h.symm
      · next x xs h => exact h.symm
    | succ i =>
      rw [List.take_succ_cons, List.take_succ_cons, List.getD_cons_succ, mulAdd, mulAdd]
      split
      · rw [List.take_nil, List.drop_nil]
        rfl
      · rw [ih, List.take_succ_cons, List.drop_succ_cons, List.cons_append]

theorem partialProduct_succ (as bs : List Trit) (n i : Nat) :
    partialProduct as bs n (i + 1) =
      (partialProduct as bs n i).take i ++ (productRow as bs n i).1 :=
  mulAdd_take_succ as bs _ i

theorem value_take_succ {ts : List Trit} {i : Nat} (h : i < ts.length) :
    value (ts.take (i + 1)) = value (ts.take i) + 3 ^ i * (ts.getD i .zero).toInt := by
  rw [List.take_succ_eq_append_getElem h, value_append, List.length_take_of_le h.le,
    List.getD_eq_getElem?_getD, List.getElem?_eq_getElem h, Option.getD_some, value_cons,
    value_nil, mul_zero, add_zero]

/-! ### The invariant -/

theorem abs_value_le (ts : List Trit) : |value ts| ≤ limit ts.length :=
  abs_le.mpr ⟨neg_limit_le_value ts, value_le_limit ts⟩

theorem limit_mul_limit_le (m n : Nat) : limit m * limit n ≤ limit (m + n) := by
  have left := two_mul_limit_add_one m
  have right := two_mul_limit_add_one n
  have sum := two_mul_limit_add_one (m + n)
  have m_nonneg : 0 ≤ limit m := limit_mono (Nat.zero_le m)
  have n_nonneg : 0 ≤ limit n := limit_mono (Nat.zero_le n)
  rw [pow_add, Nat.cast_mul, ← left, ← right] at sum
  nlinarith

theorem abs_value_mul_value_le {as bs : List Trit} {n : Nat} (h : as.length + bs.length ≤ n) :
    |value as * value bs| ≤ limit n := by
  have nonneg : 0 ≤ limit as.length := limit_mono (Nat.zero_le _)
  calc |value as * value bs| = |value as| * |value bs| := abs_mul _ _
    _ ≤ limit as.length * limit bs.length :=
      mul_le_mul (abs_value_le as) (abs_value_le bs) (abs_nonneg _) nonneg
    _ ≤ limit (as.length + bs.length) := limit_mul_limit_le _ _
    _ ≤ limit n := limit_mono h

/-- There is no carry out of a numeral that has room for the sum. -/
theorem carry_eq_zero {n : Nat} {v w : Int} {c : Trit} (sum : v + 3 ^ n * c.toInt = w)
    (hv : |v| ≤ limit n) (hw : |w| ≤ limit n) : c = .zero := by
  have size := two_mul_limit_add_one n
  rw [Nat.cast_pow, Nat.cast_ofNat] at size
  obtain ⟨v_low, v_high⟩ := abs_le.mp hv
  obtain ⟨w_low, w_high⟩ := abs_le.mp hw
  rw [← size] at sum
  cases c with
  | minus =>
    rw [Trit.toInt] at sum
    omega
  | zero => rfl
  | plus =>
    rw [Trit.toInt] at sum
    omega

variable {as bs : List Trit} {n i : Nat}

theorem value_partialProduct_succ (fits : i + bs.length ≤ n) (lt : i < as.length)
    (h : value (partialProduct as bs n i) = value (as.take i) * value bs) :
    value (partialProduct as bs n (i + 1)) + 3 ^ n * (productRow as bs n i).2.toInt =
      value (as.take (i + 1)) * value bs := by
  have length := length_partialProduct as bs n i
  have room : bs.length ≤ ((partialProduct as bs n i).drop i).length := by
    rw [List.length_drop, length]
    omega
  have added := value_row (as.getD i .zero) .zero room
  have whole := value_take_add_drop (partialProduct as bs n i) i
  have size : (3 : Int) ^ n = 3 ^ i * 3 ^ (n - i) := by
    rw [← pow_add, Nat.add_sub_cancel' (by omega)]
  rw [List.length_drop, length, Trit.toInt, add_zero] at added
  rw [partialProduct_succ, value_append, List.length_take_of_le (by omega), value_take_succ lt,
    size]
  rw [← productRow] at added
  linear_combination 3 ^ i * added + whole + h

/-- **The invariant** of the rows: no carry is left at the end of a row, and the accumulator is
worth the product of one trit more. -/
theorem partialProduct_step (fits : as.length + bs.length ≤ n) (lt : i < as.length)
    (h : value (partialProduct as bs n i) = value (as.take i) * value bs) :
    (productRow as bs n i).2 = .zero ∧
      value (partialProduct as bs n (i + 1)) = value (as.take (i + 1)) * value bs := by
  have sum := value_partialProduct_succ (by omega) lt h
  have short : (as.take (i + 1)).length + bs.length ≤ n := by
    rw [List.length_take]
    omega
  have bound := abs_value_le (partialProduct as bs n (i + 1))
  rw [length_partialProduct] at bound
  have none := carry_eq_zero sum bound (abs_value_mul_value_le short)
  refine ⟨none, ?_⟩
  rw [none, Trit.toInt, mul_zero, add_zero] at sum
  exact sum

theorem value_partialProduct (fits : as.length + bs.length ≤ n) (le : i ≤ as.length) :
    value (partialProduct as bs n i) = value (as.take i) * value bs := by
  induction i with
  | zero =>
    rw [partialProduct, List.take_zero, mulAdd, value_replicate_zero, value_nil, zero_mul]
  | succ i ih => exact (partialProduct_step fits le (ih (by omega))).2

/-- No row has a carry left at the end of an accumulator that has room for both factors. -/
theorem carry_productRow (fits : as.length + bs.length ≤ n) (lt : i < as.length) :
    (productRow as bs n i).2 = .zero :=
  (partialProduct_step fits lt (value_partialProduct fits lt.le)).1

end Numeral

namespace Word

variable {a b : Word} {i : Nat}

theorem partialProduct_nine (a b : Word) :
    Numeral.partialProduct a.trits b.trits 18 9 = productTrits a b := by
  rw [Numeral.partialProduct, List.take_of_length_le a.length_trits.le, productTrits]

theorem length_factors (a b : Word) : a.trits.length + b.trits.length ≤ 18 := by
  rw [a.length_trits, b.length_trits]

theorem toInt_low_add_high (a b : Word) :
    (a.multiply b).low.toInt + count * (a.multiply b).high.toInt =
      Numeral.value (productTrits a b) :=
  Numeral.value_take_add_drop (productTrits a b) 9

theorem value_productTrits (a b : Word) :
    Numeral.value (productTrits a b) = a.toInt * b.toInt := by
  have all := Numeral.value_partialProduct (a.length_factors b) a.length_trits.ge
  rwa [partialProduct_nine, List.take_of_length_le a.length_trits.le] at all

theorem productRow_of_zero (b : Word) (zero : a.get? i = some .zero) :
    Numeral.productRow a.trits b.trits 18 i =
      ((Numeral.partialProduct a.trits b.trits 18 i).drop i, .zero) := by
  rw [get?] at zero
  rw [Numeral.productRow, List.getD_eq_getElem?_getD, zero, Option.getD_some, Numeral.row_zero]

/-- What the multiplier does to the eighteen trits of the accumulator, and what it leaves there. -/
structure MultipliesExactly (a b : Word) : Prop where
  start : Numeral.partialProduct a.trits b.trits 18 0 = List.replicate 18 .zero
  /-- The rows of zero trits are among these, and might as well be added. -/
  row (i : Nat) : Numeral.partialProduct a.trits b.trits 18 (i + 1) =
    (Numeral.partialProduct a.trits b.trits 18 i).take i ++
      (Numeral.productRow a.trits b.trits 18 i).1
  stop : Numeral.partialProduct a.trits b.trits 18 9 =
    (a.multiply b).low.trits ++ (a.multiply b).high.trits
  skipped {i : Nat} (zero : a.get? i = some .zero) :
    Numeral.productRow a.trits b.trits 18 i =
      ((Numeral.partialProduct a.trits b.trits 18 i).drop i, .zero)
  value {i : Nat} (le : i ≤ 9) : Numeral.value (Numeral.partialProduct a.trits b.trits 18 i) =
    Numeral.value (a.trits.take i) * b.toInt
  carry {i : Nat} (lt : i < 9) : (Numeral.productRow a.trits b.trits 18 i).2 = .zero
  product : (a.multiply b).low.toInt + 19683 * (a.multiply b).high.toInt = a.toInt * b.toInt
  lower : -9841 ≤ (a.multiply b).low.toInt
  upper : (a.multiply b).low.toInt ≤ 9841

/-- **Products are exact**: the two halves of a product are all of it, no carry is left at the end
of a row, and the rows that are skipped change nothing. -/
theorem multiply_exact (a b : Word) : a.MultipliesExactly b where
  start := rfl
  row := Numeral.partialProduct_succ _ _ _
  stop := by
    rw [partialProduct_nine]
    exact (List.take_append_drop 9 _).symm
  skipped zero := productRow_of_zero b zero
  value le := Numeral.value_partialProduct (a.length_factors b) (le.trans a.length_trits.ge)
  carry lt := Numeral.carry_productRow (a.length_factors b) (lt.trans_le a.length_trits.ge)
  product := (toInt_low_add_high a b).trans (value_productTrits a b)
  lower := (a.multiply b).low.neg_limit_le_toInt
  upper := (a.multiply b).low.toInt_le_limit

/-- The largest product, whose last row has no carry left either. -/
theorem multiply_exact_largest :
    (multiply ⟨List.replicate 9 .plus, rfl⟩ ⟨List.replicate 9 .plus, rfl⟩).low.toInt +
        19683 * (multiply ⟨List.replicate 9 .plus, rfl⟩ ⟨List.replicate 9 .plus, rfl⟩).high.toInt =
      96845281 ∧
      (Numeral.productRow (List.replicate 9 .plus) (List.replicate 9 .plus) 18 8).2 = .zero := by
  have largest := multiply_exact ⟨List.replicate 9 .plus, rfl⟩ ⟨List.replicate 9 .plus, rfl⟩
  have square : toInt ⟨List.replicate 9 .plus, rfl⟩ * toInt ⟨List.replicate 9 .plus, rfl⟩ =
      96845281 := by decide
  exact ⟨largest.product.trans square, largest.carry (by decide)⟩

end Word

end TernaryMachine
