import Mathlib.Algebra.BigOperators.Intervals
import Mathlib.Algebra.BigOperators.Ring.Finset
import TernaryMachine.Proofs.Numeral
/-! # Balanced digits of integers

What lists of trits do by position, said of integers alone.

* `scaleDown v k` is `v / 3 ^ k` rounded to the nearest integer, which drops the `k` low trits.
* `part v low width` is the integer of the `width` trits from position `low` on, and `digit v i`
  is the trit at position `i`.
* `compose n f` puts an integer together from `n` digits.

`scaleDown_value`, `part_value`, `digit_value` and `compose_getD` say that these are `drop`,
`take`, the elements and the value of a numeral. -/

namespace TernaryMachine

namespace Numeral

/-- `v / 3 ^ k`, rounded to the nearest integer.  There are no ties, since `3 ^ k` is odd. -/
def scaleDown (v : Int) (k : Nat) : Int :=
  (2 * v + 3 ^ k) / (2 * 3 ^ k)

/-- The integer of `width` balanced digits, from position `low` on. -/
def part (v : Int) (low width : Nat) : Int :=
  (scaleDown v low).bmod (3 ^ width)

def digit (v : Int) (i : Nat) : Int :=
  part v i 1

/-- The integer of `n` digits. -/
def compose (n : Nat) (f : Nat → Int) : Int :=
  ∑ i ∈ Finset.range n, 3 ^ i * f i

/-- The rounded quotient is the only integer within half a divisor. -/
theorem scaleDown_eq {v q r : Int} {k : Nat} (split : v = r + 3 ^ k * q)
    (lower : -limit k ≤ r) (upper : r ≤ limit k) : scaleDown v k = q := by
  have half := two_mul_limit_add_one k
  push_cast at half
  have pos : (0 : Int) < 3 ^ k := by positivity
  rw [scaleDown, split, show 2 * (r + 3 ^ k * q) + 3 ^ k = 2 * r + 3 ^ k + q * (2 * 3 ^ k) by ring,
    Int.add_mul_ediv_right _ _ (by omega), Int.ediv_eq_zero_of_lt (by omega) (by omega), zero_add]

theorem value_take_le_limit (ts : List Trit) (k : Nat) : value (ts.take k) ≤ limit k :=
  (value_le_limit _).trans (limit_mono (List.length_take_le k ts))

theorem neg_limit_le_value_take (ts : List Trit) (k : Nat) : -limit k ≤ value (ts.take k) :=
  (neg_le_neg (limit_mono (List.length_take_le k ts))).trans (neg_limit_le_value _)

theorem scaleDown_value (ts : List Trit) (k : Nat) :
    scaleDown (value ts) k = value (ts.drop k) :=
  scaleDown_eq (value_take_add_drop ts k).symm (neg_limit_le_value_take ts k)
    (value_take_le_limit ts k)

theorem value_take (ts : List Trit) (k : Nat) :
    value (ts.take k) = (value ts).bmod (3 ^ k) := by
  rw [← value_take_add_drop ts k, show (3 : Int) ^ k = ((3 ^ k : Nat) : Int) by push_cast; rfl,
    Int.add_mul_bmod_self_left,
    bmod_eq_self (neg_limit_le_value_take ts k) (value_take_le_limit ts k)]

theorem part_value (ts : List Trit) (low width : Nat) :
    part (value ts) low width = value ((ts.drop low).take width) := by
  rw [part, scaleDown_value, value_take]

theorem digit_value (ts : List Trit) (i : Nat) :
    digit (value ts) i = (ts.getD i .zero).toInt := by
  rw [digit, part_value, List.getD_eq_getElem?_getD]
  rcases Nat.lt_or_ge i ts.length with h | h
  · rw [List.drop_eq_getElem_cons h, List.getElem?_eq_getElem h, List.take_succ_cons,
      List.take_zero, value_cons, value_nil, mul_zero, add_zero, Option.getD_some]
  · rw [List.drop_eq_nil_of_le h, List.getElem?_eq_none h]
    rfl

theorem compose_getD (ts : List Trit) :
    compose ts.length (fun i => (ts.getD i .zero).toInt) = value ts := by
  induction ts with
  | nil => rfl
  | cons t ts ih =>
    rw [compose] at ih
    rw [compose, List.length_cons, Finset.sum_range_succ', value_cons, ← ih, Finset.mul_sum]
    simp only [List.getD_cons_succ, List.getD_cons_zero, pow_zero, one_mul]
    rw [add_comm]
    congr 1
    apply Finset.sum_congr rfl
    intro i _
    ring

theorem value_eq_compose {ts : List Trit} {n : Nat} {f : Nat → Int} (length : ts.length = n)
    (h : ∀ i < n, (ts.getD i .zero).toInt = f i) : value ts = compose n f := by
  rw [← compose_getD, length]
  apply Finset.sum_congr rfl
  intro i hi
  simp only [h i (Finset.mem_range.mp hi)]

end Numeral

end TernaryMachine
