import TernaryMachine.Alu
import TernaryMachine.Proofs.Digits
/-! # Words and their integers

`Word.toInt` is a bijection between words and the integers from `-9841` to `9841`, with inverse
`Word.wrap` (`wrap_toInt`, `toInt_wrap`).  Along it every operation on words is an operation on
integers:

* sums and products are remainders of sums and products, and the carry is the overflow
  (`toInt_addWithCarry`, `toInt_multiply`);
* quotients and remainders are exact (`toInt_divide`);
* shifts scale by powers of three (`toInt_shift`);
* rotations and connectives move and combine balanced digits (`toInt_rotate`, `toInt_zipWith`). -/

namespace TernaryMachine

namespace Word

/-! ### Words as remainders -/

theorem toInt_inj {a b : Word} : a.toInt = b.toInt ↔ a = b := by
  cases a with
  | mk as ha =>
    cases b with
    | mk bs hb =>
      simp only [toInt, mk.injEq]
      exact Numeral.value_inj (ha.trans hb.symm)

theorem bmod_toInt (w : Word) : w.toInt.bmod count = w.toInt := by
  have := Numeral.bmod_value w.trits
  rwa [w.length_trits] at this

theorem toInt_encode (v : Int) : (encode v).toInt = v.bmod count :=
  Numeral.value_low 9 v

@[simp] theorem toInt_wrap (v : Int) : (wrap v).toInt = v.bmod count := by
  rw [wrap, toInt_encode, Int.bmod_bmod]

@[simp] theorem wrap_toInt (w : Word) : wrap w.toInt = w := by
  rw [← toInt_inj, toInt_wrap, bmod_toInt]

theorem bmod_of_le {v : Int} (lower : -limit ≤ v) (upper : v ≤ limit) : v.bmod count = v :=
  Numeral.bmod_eq_self (n := 9) lower upper

theorem toInt_wrap_of_le {v : Int} (lower : -limit ≤ v) (upper : v ≤ limit) :
    (wrap v).toInt = v := by
  rw [toInt_wrap, bmod_of_le lower upper]

theorem wrap_eq_wrap_iff {a b : Int} : wrap a = wrap b ↔ a.bmod count = b.bmod count := by
  rw [← toInt_inj, toInt_wrap, toInt_wrap]

theorem ofInt_eq_ok_iff {v : Int} {w : Word} : ofInt v = .ok w ↔ w.toInt = v := by
  rw [ofInt]
  split
  · next h =>
    rw [Except.ok.injEq, ← toInt_inj, toInt_encode, bmod_of_le h.1 h.2]
    exact eq_comm
  · next h =>
    constructor
    · intro e
      cases e
    · intro e
      exact absurd ⟨e ▸ w.neg_limit_le_toInt, e ▸ w.toInt_le_limit⟩ h

@[simp] theorem toInt_zero : zero.toInt = 0 :=
  Numeral.value_replicate_zero 9

theorem toInt_eq_zero_iff {w : Word} : w.toInt = 0 ↔ w = zero := by
  rw [← toInt_zero, toInt_inj]

theorem isZero_iff {w : Word} : w.isZero = true ↔ w.toInt = 0 := by
  constructor
  · intro h
    have : w.trits = List.replicate 9 .zero := by
      rw [List.eq_replicate_iff]
      refine ⟨w.length_trits, fun t ht => ?_⟩
      simpa [Trit.isZero] using List.all_eq_true.mp h t ht
    rw [toInt, this, Numeral.value_replicate_zero]
  · intro h
    rw [← toInt_zero, toInt_inj] at h
    rw [h]
    decide

@[simp] theorem toInt_neg (w : Word) : w.neg.toInt = -w.toInt :=
  Numeral.value_map_neg w.trits

theorem toInt_succ (w : Word) : w.succ.toInt = (w.toInt + 1).bmod count :=
  toInt_wrap _

/-! ### Sums, products and quotients -/

/-- A sum and its carry lose nothing. -/
theorem toInt_addWithCarry (a b : Word) (c : Trit) :
    (a.addWithCarry b c).word.toInt + count * (a.addWithCarry b c).carry.toInt =
      a.toInt + b.toInt + c.toInt := by
  have := Numeral.value_add (a.length_trits.trans b.length_trits.symm) c
  rw [a.length_trits] at this
  exact this

/-- The word of a sum is its remainder. -/
theorem toInt_word_addWithCarry (a b : Word) (c : Trit) :
    (a.addWithCarry b c).word.toInt = (a.toInt + b.toInt + c.toInt).bmod count := by
  rw [← toInt_addWithCarry, Int.add_mul_bmod_self_left, bmod_toInt]

theorem toInt_carry_addWithCarry (a b : Word) (c : Trit) :
    (a.addWithCarry b c).carry.toInt =
      (a.toInt + b.toInt + c.toInt - (a.toInt + b.toInt + c.toInt).bmod count) / count := by
  have := toInt_addWithCarry a b c
  have := toInt_word_addWithCarry a b c
  simp only [count] at *
  omega

theorem toInt_multiply (a b : Word) :
    (a.multiply b).low.toInt = (a.toInt * b.toInt).bmod count := by
  have product := Numeral.value_mulAdd a.trits b.trits (List.replicate 18 .zero)
  rw [Numeral.value_replicate_zero, zero_add, List.length_replicate] at product
  show Numeral.value ((productTrits a b).take 9) = _
  rw [Numeral.value_take, productTrits, product]
  exact Int.bmod_bmod_of_dvd (by decide)

theorem natAbs_le_limit {v : Int} {w : Word} (h : v.natAbs ≤ w.toInt.natAbs) :
    -limit ≤ v ∧ v ≤ limit := by
  have := w.toInt_le_limit
  have := w.neg_limit_le_toInt
  simp only [limit] at *
  omega

/-- There is a quotient unless the divisor is zero, and neither it nor the remainder wraps. -/
theorem toInt_divide (a b : Word) :
    (b.toInt = 0 → a.divide b = none) ∧
      (b.toInt ≠ 0 → ∃ d, a.divide b = some d ∧ d.quotient.toInt = a.toInt.tdiv b.toInt ∧
        d.remainder.toInt = a.toInt.tmod b.toInt) := by
  constructor
  · intro h
    rw [divide, if_pos (isZero_iff.mpr h)]
  · intro h
    refine ⟨_, by rw [divide, if_neg (fun z => h (isZero_iff.mp z))], ?_, ?_⟩
    · have le : (a.toInt.tdiv b.toInt).natAbs ≤ a.toInt.natAbs := Int.natAbs_tdiv_le_natAbs _ _
      exact toInt_wrap_of_le (natAbs_le_limit le).1 (natAbs_le_limit le).2
    · have le : (a.toInt.tmod b.toInt).natAbs ≤ a.toInt.natAbs := by
        rw [Int.natAbs_tmod]
        exact Nat.mod_le _ _
      exact toInt_wrap_of_le (natAbs_le_limit le).1 (natAbs_le_limit le).2

/-! ### Shifts -/

theorem toInt_shiftUp (w : Word) (n : Nat) :
    (w.shiftUp n).toInt = (w.toInt * 3 ^ n).bmod count := by
  rw [toInt, shiftUp, Numeral.value_take, Numeral.value_append, Numeral.value_replicate_zero,
    List.length_replicate, zero_add, mul_comm]
  rfl

theorem toInt_shiftDown (w : Word) (n : Nat) :
    (w.shiftDown n).toInt = Numeral.scaleDown w.toInt n := by
  rw [toInt, shiftDown, ← Numeral.scaleDown_value, Numeral.value_append,
    Numeral.value_replicate_zero, mul_zero, add_zero]
  rfl

/-- A shift up is a product, and a shift down is a rounded quotient; both hold beyond nine
positions, where nothing is left. -/
theorem toInt_shift (w : Word) (amount : Int) :
    (w.shift amount).toInt =
      if 0 ≤ amount then (w.toInt * 3 ^ amount.natAbs).bmod count
      else Numeral.scaleDown w.toInt amount.natAbs := by
  rw [shift]
  split
  · next far =>
    rw [toInt_zero]
    split
    · obtain ⟨k, hk⟩ := Nat.exists_eq_add_of_le far
      rw [hk, pow_add, ← mul_assoc, mul_right_comm]
      exact (Int.mul_bmod_left _ count).symm
    · have := Numeral.scaleDown_value w.trits amount.natAbs
      rw [List.drop_eq_nil_of_le (w.length_trits.trans_le far)] at this
      exact this.symm
  · split
    · exact toInt_shiftUp w _
    · exact toInt_shiftDown w _

/-! ### Digits -/

theorem digit_toInt (w : Word) (i : Nat) :
    Numeral.digit w.toInt i = (w.trits.getD i .zero).toInt :=
  Numeral.digit_value w.trits i

/-- The digit that a rotation by `amount` brings to position `i` is the one `amount` below. -/
theorem toInt_rotate (w : Word) (amount : Int) :
    (w.rotate amount).toInt =
      Numeral.compose 9 fun i => Numeral.digit w.toInt ((i - amount) % 9).toNat := by
  apply Numeral.value_eq_compose (w.rotate amount).length_trits
  intro i hi
  have length := w.length_trits
  rw [digit_toInt, rotate]
  simp only [List.getD_eq_getElem?_getD]
  rcases Nat.lt_or_ge i (w.trits.drop (-amount % 9).toNat).length with h | h
  · rw [List.getElem?_append_left h, List.getElem?_drop]
    rw [List.length_drop] at h
    congr 3
    omega
  · rw [List.getElem?_append_right h]
    rw [List.length_drop] at h ⊢
    rw [List.getElem?_take_of_lt (by omega)]
    congr 3
    omega

theorem toInt_zipWith {f : Trit → Trit → Trit} {g : Int → Int → Int}
    (h : ∀ s t, (f s t).toInt = g s.toInt t.toInt) (a b : Word) :
    (a.zipWith f b).toInt =
      Numeral.compose 9 fun i => g (Numeral.digit a.toInt i) (Numeral.digit b.toInt i) := by
  apply Numeral.value_eq_compose (a.zipWith f b).length_trits
  intro i hi
  have ha : i < a.trits.length := by rwa [a.length_trits]
  have hb : i < b.trits.length := by rwa [b.length_trits]
  rw [digit_toInt, digit_toInt, zipWith, ← h]
  simp [List.getD_eq_getElem?_getD, ha, hb]

end Word

end TernaryMachine
