import Mathlib.Data.List.Induction
import Mathlib.Tactic.Linarith
import Mathlib.Tactic.Ring
import TernaryMachine.Word.Arithmetic
/-! # Numerals and their integers

A numeral of `n` trits stands for an integer of absolute value at most `limit n`, which is half of
`3 ^ n`, so it is the balanced remainder of every integer in its class modulo `3 ^ n`.

* **Uniqueness.**  Numerals of one length with one value are equal (`value_inj`), and the `n` low
  trits of `v` have the value `v.bmod (3 ^ n)` (`value_low`).
* **Rows.**  `value_add` gives the sum with its carry exactly.  A row of the multiplier drops the
  carry out of its last trit, so its law is a remainder: `value_addRow`, `value_mulAdd`.

All inductions on rows rest on `toInt_add_three_mul_bmod`: one more low trit turns a remainder
modulo `3 ^ n` into one modulo `3 ^ (n + 1)`. -/

namespace TernaryMachine

namespace Numeral

/-! ### Bounds and remainders -/

theorem two_mul_limit_add_one (n : Nat) : 2 * limit n + 1 = ((3 ^ n : Nat) : Int) := by
  induction n with
  | zero => rfl
  | succ n ih =>
    simp only [limit, Nat.pow_succ, Nat.cast_mul]
    omega

theorem limit_mono {m n : Nat} (h : m ≤ n) : limit m ≤ limit n := by
  have hm := two_mul_limit_add_one m
  have hn := two_mul_limit_add_one n
  have : 3 ^ m ≤ 3 ^ n := Nat.pow_le_pow_right (by decide) h
  omega

theorem bmod_eq_self {n : Nat} {v : Int} (lower : -limit n ≤ v) (upper : v ≤ limit n) :
    v.bmod (3 ^ n) = v := by
  have := two_mul_limit_add_one n
  apply Int.bmod_eq_of_le <;> omega

theorem bmod_value (ts : List Trit) : (value ts).bmod (3 ^ ts.length) = value ts :=
  bmod_eq_self (neg_limit_le_value ts) (value_le_limit ts)

/-- One more low trit turns a remainder modulo `3 ^ n` into one modulo `3 ^ (n + 1)`. -/
theorem toInt_add_three_mul_bmod (t : Trit) (v : Int) (n : Nat) :
    t.toInt + 3 * v.bmod (3 ^ n) = (t.toInt + 3 * v).bmod (3 ^ (n + 1)) := by
  have half := two_mul_limit_add_one n
  have pos : 0 < 3 ^ n := by positivity
  have lower := Int.le_bmod (x := v) pos
  have upper := Int.bmod_lt (x := v) pos
  have low := t.neg_one_le_toInt
  have high := t.toInt_le_one
  obtain ⟨k, hk⟩ := Int.dvd_bmod_sub_self (x := v) (m := 3 ^ n)
  symm
  rw [Int.bmod_eq_iff (by positivity), Nat.pow_succ]
  refine ⟨by omega, by omega, k, ?_⟩
  rw [Nat.cast_mul, mul_right_comm, ← hk]
  push_cast
  ring

/-! ### Splitting -/

theorem value_append (as bs : List Trit) :
    value (as ++ bs) = value as + 3 ^ as.length * value bs := by
  induction as with
  | nil => simp
  | cons a as ih =>
    rw [List.cons_append, value_cons, ih, value_cons, List.length_cons]
    ring

theorem value_take_add_drop (ts : List Trit) (k : Nat) :
    value (ts.take k) + 3 ^ k * value (ts.drop k) = value ts := by
  rcases Nat.le_total k ts.length with h | h
  · have := value_append (ts.take k) (ts.drop k)
    rw [List.take_append_drop, List.length_take, Nat.min_eq_left h] at this
    exact this.symm
  · rw [List.take_of_length_le h, List.drop_eq_nil_of_le h, value_nil, mul_zero, add_zero]

theorem value_replicate_zero (n : Nat) : value (List.replicate n .zero) = 0 := by
  induction n with
  | zero => rfl
  | succ n ih => simp [List.replicate_succ, ih, Trit.toInt]

theorem value_map_neg (ts : List Trit) : value (ts.map Trit.neg) = -value ts := by
  induction ts with
  | nil => rfl
  | cons t ts ih =>
    rw [List.map_cons, value_cons, value_cons, ih, Trit.toInt_neg]
    ring

/-- Text order is low order reversed. -/
theorem read_eq_value_reverse (ds : List Trit) : read ds = value ds.reverse := by
  induction ds using List.reverseRec with
  | nil => rfl
  | append_singleton ds d ih =>
    rw [List.reverse_append, read, List.foldl_append, ← read, ih]
    simp only [List.foldl_cons, List.foldl_nil, List.reverse_singleton, List.singleton_append,
      value_cons]
    ring

theorem read_bounds (ds : List Trit) : -limit ds.length ≤ read ds ∧ read ds ≤ limit ds.length := by
  rw [read_eq_value_reverse, ← List.length_reverse]
  exact ⟨neg_limit_le_value _, value_le_limit _⟩

theorem read_append (as bs : List Trit) :
    read (as ++ bs) = read as * 3 ^ bs.length + read bs := by
  rw [read_eq_value_reverse, List.reverse_append, value_append, List.length_reverse,
    ← read_eq_value_reverse, ← read_eq_value_reverse]
  ring

theorem read_singleton (t : Trit) : read [t] = t.toInt := by
  rw [read_eq_value_reverse, List.reverse_singleton, value_cons, value_nil, mul_zero, add_zero]

theorem read_cons (t : Trit) (ts : List Trit) :
    read (t :: ts) = t.toInt * 3 ^ ts.length + read ts := by
  rw [← List.singleton_append, read_append, read_singleton]

theorem read_replicate_zero (n : Nat) : read (List.replicate n .zero) = 0 := by
  rw [read_eq_value_reverse, List.reverse_replicate, value_replicate_zero]

theorem read_map_neg (ds : List Trit) : read (ds.map Trit.neg) = -read ds := by
  rw [read_eq_value_reverse, ← List.map_reverse, value_map_neg, ← read_eq_value_reverse]

/-! ### Low trits -/

theorem lowTrit_toInt_add (t : Trit) (v : Int) : lowTrit (t.toInt + 3 * v) = t := by
  unfold lowTrit
  cases t with
  | minus =>
    rw [Trit.toInt, show (-1 + 3 * v) % 3 = 2 by omega]
    rfl
  | zero =>
    rw [Trit.toInt, show (0 + 3 * v) % 3 = 0 by omega]
    rfl
  | plus =>
    rw [Trit.toInt, show (1 + 3 * v) % 3 = 1 by omega]
    rfl

theorem toInt_lowTrit_add (v : Int) :
    (lowTrit v).toInt + 3 * ((v - (lowTrit v).toInt) / 3) = v := by
  have : (v - (lowTrit v).toInt) % 3 = 0 := by
    unfold lowTrit
    split
    · rw [Trit.toInt]
      omega
    · rw [Trit.toInt]
      omega
    · next h0 h1 =>
      have h0 : v % 3 ≠ 0 := h0
      have h1 : v % 3 ≠ 1 := h1
      rw [Trit.toInt]
      omega
  omega

theorem low_value (ts : List Trit) : low ts.length (value ts) = ts := by
  induction ts with
  | nil => rfl
  | cons t ts ih =>
    rw [List.length_cons, low, value_cons, lowTrit_toInt_add, add_sub_cancel_left,
      Int.mul_ediv_cancel_left _ (by decide), ih]

theorem value_inj {as bs : List Trit} (length : as.length = bs.length) :
    value as = value bs ↔ as = bs := by
  constructor
  · intro h
    rw [← low_value as, ← low_value bs, h, length]
  · intro h
    rw [h]

theorem value_low (n : Nat) (v : Int) : value (low n v) = v.bmod (3 ^ n) := by
  induction n generalizing v with
  | zero => simp [low, Int.bmod_one]
  | succ n ih => rw [low, value_cons, ih, toInt_add_three_mul_bmod, toInt_lowTrit_add]

/-! ### Rows of arithmetic -/

/-- The adder loses nothing: the carry out has the weight of one more trit. -/
theorem value_add {as bs : List Trit} (length : as.length = bs.length) (c : Trit) :
    value (add as bs c).1 + 3 ^ as.length * (add as bs c).2.toInt =
      value as + value bs + c.toInt := by
  induction as generalizing bs c with
  | nil =>
    cases List.length_eq_zero_iff.mp length.symm
    simp [add]
  | cons a as ih =>
    cases bs with
    | nil => simp at length
    | cons b bs =>
      have here := Trit.fullAdd_value a b c
      have rest := ih (by simpa using length) (Trit.fullAdd a b c).2
      simp only [add, value_cons, List.length_cons, pow_succ]
      linarith

theorem value_addCarry (xs : List Trit) (c : Trit) :
    value (addCarry xs c) = (value xs + c.toInt).bmod (3 ^ xs.length) := by
  induction xs generalizing c with
  | nil => simp [addCarry, Int.bmod_one]
  | cons x xs ih =>
    rw [addCarry]
    split
    · next h =>
      rw [Trit.isZero, beq_iff_eq] at h
      rw [h, Trit.toInt, add_zero, bmod_value]
    · have here := Trit.fullAdd_value x c .zero
      rw [value_cons, ih, toInt_add_three_mul_bmod, List.length_cons, value_cons]
      congr 1
      rw [Trit.toInt, add_zero] at here
      linarith

theorem value_addRow (t : Trit) (xs bs : List Trit) (c : Trit) :
    value (addRow t xs bs c) =
      (value xs + t.toInt * value bs + c.toInt).bmod (3 ^ xs.length) := by
  induction xs generalizing bs c with
  | nil => simp [addRow, Int.bmod_one]
  | cons x xs ih =>
    cases bs with
    | nil => rw [addRow, value_addCarry, value_nil, mul_zero, add_zero]
    | cons b bs =>
      have here := Trit.fullAdd_value x (t.mul b) c
      rw [Trit.toInt_mul] at here
      rw [addRow, value_cons, ih, toInt_add_three_mul_bmod, List.length_cons]
      congr 1
      rw [value_cons, value_cons]
      linarith

/-- The multiplier adds the product, modulo the size of the accumulator.  The row of a zero trit is
skipped, which is the same as adding nothing. -/
theorem value_mulAdd (as bs acc : List Trit) :
    value (mulAdd as bs acc) =
      (value acc + value as * value bs).bmod (3 ^ acc.length) := by
  induction as generalizing acc with
  | nil => simp [mulAdd, bmod_value]
  | cons a as ih =>
    have row : value (if a.isZero then acc else addRow a acc bs .zero) =
        (value acc + a.toInt * value bs).bmod (3 ^ acc.length) := by
      split
      · next h =>
        rw [Trit.isZero, beq_iff_eq] at h
        rw [h, Trit.toInt, zero_mul, add_zero, bmod_value]
      · rw [value_addRow, Trit.toInt, add_zero]
    have length : (if a.isZero then acc else addRow a acc bs .zero).length = acc.length := by
      split
      · rfl
      · exact length_addRow a acc bs .zero
    rw [mulAdd]
    split
    · next h =>
      rw [h, List.length_nil] at length
      rw [← length]
      simp [Int.bmod_one]
    · next x xs h =>
      rw [h] at row length
      rw [value_cons, ih, toInt_add_three_mul_bmod, ← List.length_cons (a := x), length]
      have : x.toInt + 3 * (value xs + value as * value bs) =
          value (x :: xs) + 3 * (value as * value bs) := by
        rw [value_cons]
        ring
      rw [this, row, Int.bmod_add_bmod, value_cons]
      congr 1
      ring

end Numeral

end TernaryMachine
