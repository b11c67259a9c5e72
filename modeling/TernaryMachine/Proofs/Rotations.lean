import Mathlib.Algebra.Group.Action.Defs
import Mathlib.Data.Set.Function
import Mathlib.Tactic.LinearCombination
import TernaryMachine.Proofs.Shifts
/-! # Rotations

A rotation moves the trits of a word to other powers of three, and a trit that leaves the word at
one end enters it at the other.

* **An action.**  The trit at every power is the one from `amount` below, counted modulo nine
  (`Word.coefficient_rotate`), so rotations one after the other are one rotation by the sum of the
  amounts (`Word.rotate_rotate`), and all that matters of an amount is its remainder modulo nine.
* **The loop.**  `Word.checkedRotate` moves one trit after the other to its new power.  Every power
  is the new one of some trit, so the loop leaves no power out (`Word.checkedRotate_eq`).
* **Integers.**  The trits that go round lose the weight `3 ^ 9` and get the weight one.  Modulo
  `3 ^ 9 - 1` these are the same, so there a rotation is a product by a power of three
  (`Word.toInt_rotate_modEq`). -/

namespace TernaryMachine

namespace Word

variable {w : Word} {n : Int} {i k : Nat}

/-! ### An action of the integers -/

/-- A rotation brings the trit from `amount` below, around the end, to every power. -/
theorem coefficient_rotate (w : Word) (amount : Int) (lt : i < 9) :
    (w.rotate amount).coefficient i = w.coefficient ((i - amount) % 9) := by
  have length := w.length_trits
  rw [coefficient_natCast, rotate, coefficient, if_pos (by omega)]
  simp only [List.getD_eq_getElem?_getD]
  congr 1
  rcases Nat.lt_or_ge i (9 - (-amount % 9).toNat) with low | high
  · rw [List.getElem?_append_left (by rw [List.length_drop]; omega), List.getElem?_drop]
    congr 1
    omega
  · rw [List.getElem?_append_right (by rw [List.length_drop]; omega), List.length_drop,
      List.getElem?_take_of_lt (by omega)]
    congr 1
    omega

theorem rotate_rotate (w : Word) (m n : Int) : (w.rotate m).rotate n = w.rotate (m + n) := by
  apply ext_coefficient
  intro i lt
  have between : (((i - n) % 9).toNat : Int) = (i - n) % 9 := by omega
  rw [coefficient_rotate _ _ lt, coefficient_rotate _ _ lt, ← between,
    coefficient_rotate _ _ (by omega), between]
  congr 1
  omega

theorem rotate_nine_mul (w : Word) (k : Int) : w.rotate (9 * k) = w := by
  apply ext_coefficient
  intro i lt
  rw [coefficient_rotate _ _ lt]
  congr 1
  omega

theorem rotate_zero (w : Word) : w.rotate 0 = w :=
  rotate_nine_mul w 0

theorem rotate_neg_cancel (w : Word) (n : Int) : (w.rotate n).rotate (-n) = w := by
  rw [rotate_rotate, add_neg_cancel, rotate_zero]

/-- Rotations are an action of the integers on words. -/
instance : AddAction Int Word where
  vadd n w := w.rotate n
  zero_vadd := rotate_zero
  add_vadd m n w := by
    change w.rotate (m + n) = (w.rotate n).rotate m
    rw [rotate_rotate, add_comm]

theorem vadd_eq_rotate (n : Int) (w : Word) : n +ᵥ w = w.rotate n :=
  rfl

theorem perm_rotate (w : Word) (n : Int) : (w.rotate n).trits.Perm w.trits := by
  unfold rotate
  have around : (w.trits.drop (-n % 9).toNat ++ w.trits.take (-n % 9).toNat).Perm
      (w.trits.take (-n % 9).toNat ++ w.trits.drop (-n % 9).toNat) := List.perm_append_comm
  rwa [List.take_append_drop] at around

/-! ### Trit by trit -/

/-- The power to which a rotation moves the trit of another. -/
def turned (n : Int) (i : Nat) : Nat :=
  ((i + n) % 9).toNat

theorem turned_lt (n : Int) (i : Nat) : turned n i < 9 := by
  unfold turned
  omega

theorem turned_neg_turned (lt : i < 9) : turned (-n) (turned n i) = i := by
  unfold turned
  omega

theorem turned_turned_neg (lt : i < 9) : turned n (turned (-n) i) = i := by
  unfold turned
  omega

/-- Every power is the new one of one trit. -/
theorem bijOn_turned (n : Int) : Set.BijOn (turned n) (Set.Iio 9) (Set.Iio 9) := by
  have inverse : Set.InvOn (turned (-n)) (turned n) (Set.Iio 9) (Set.Iio 9) :=
    ⟨fun _ => turned_neg_turned, fun _ => turned_turned_neg⟩
  apply inverse.bijOn
  · intro i _
    exact turned_lt n i
  · intro i _
    exact turned_lt (-n) i

theorem coefficient_turned (w : Word) (n : Int) (lt : i < 9) :
    (w.rotate n).coefficient (turned n i) = w.coefficient i := by
  rw [coefficient_rotate _ _ (turned_lt n i)]
  congr 1
  unfold turned
  omega

/-- Moves the trit of one power to its new one. -/
def rotateRound (w : Word) (amount : Int) (moved : Word) (i : Nat) : Option Word := do
  let sum ← Numeral.keep? Numeral.half32 (i + amount)
  let t ← w.get? i
  moved.set? (sum % 9).toNat t

/-- Rotates a word trit by trit, with all numbers kept in thirty-two bits. -/
def checkedRotate (w : Word) (amount : Int) : Option Word :=
  (List.range 9).foldlM (w.rotateRound amount) zero

theorem exists_rotateRound {moved : Word} (lower : -2147483648 ≤ n) (upper : n + 8 ≤ 2147483647)
    (lt : k < 9) (h : Toward (w.rotate n) (fun j => ∃ i < k, turned n i = j) moved) :
    ∃ moved', w.rotateRound n moved k = some moved' ∧
      Toward (w.rotate n) (fun j => ∃ i < k + 1, turned n i = j) moved' := by
  obtain ⟨moved', written, toward⟩ := h.set (turned_lt n k)
  refine ⟨moved', ?_, toward.congr ?_⟩
  · rw [rotateRound, Numeral.keep?_half32 (by omega) (by omega)]
    simp only [Option.bind_eq_bind, Option.bind_some]
    rw [get?_of_lt w lt, Option.bind_some, ← coefficient_turned w n lt]
    exact written
  · intro j _
    constructor
    · rintro (⟨i, before, rfl⟩ | rfl)
      · exact ⟨i, by omega, rfl⟩
      · exact ⟨k, by omega, rfl⟩
    · rintro ⟨i, before, rfl⟩
      rcases Nat.lt_or_ge i k with earlier | now
      · exact .inl ⟨i, earlier, rfl⟩
      · obtain rfl : i = k := by omega
        exact .inr rfl

theorem checkedRotate_eq (w : Word) (lower : -2147483648 ≤ n) (upper : n + 8 ≤ 2147483647) :
    w.checkedRotate n = some (w.rotate n) := by
  have start : Toward (w.rotate n) (fun j => ∃ i < 0, turned n i = j) zero :=
    (toward_zero _).congr (by simp)
  obtain ⟨moved, ran, toward⟩ := exists_loop
    (P := fun k => Toward (w.rotate n) (fun j => ∃ i < k, turned n i = j)) start
    (fun k lt moved kept => exists_rotateRound lower upper lt kept)
  have all : ∀ j < 9, ∃ i < 9, turned n i = j := by
    intro j lt
    exact ⟨turned (-n) j, turned_lt (-n) j, turned_turned_neg lt⟩
  rw [checkedRotate, ran, toward.eq all]

/-- The last trit has no place any more for the sum of its power and a larger amount. -/
example : zero.checkedRotate 2147483640 = none := by decide

/-! ### Integers -/

theorem toInt_rotate_modEq (w : Word) (n : Int) :
    (w.rotate n).toInt ≡ w.toInt * 3 ^ (n % 9).toNat [ZMOD 19682] := by
  have length := w.length_trits
  have whole := Numeral.value_take_add_drop w.trits (-n % 9).toNat
  have moved := Numeral.value_append (w.trits.drop (-n % 9).toNat) (w.trits.take (-n % 9).toNat)
  rw [List.length_drop, length] at moved
  change Numeral.value _ ≡ Numeral.value w.trits * _ [ZMOD _]
  rw [rotate]
  rcases Nat.eq_zero_or_pos (-n % 9).toNat with none | some
  · have stays : (n % 9).toNat = 0 := by omega
    simp only [none, stays, List.drop_zero, List.take_zero, List.append_nil, pow_zero, mul_one]
    exact Int.ModEq.refl _
  · have around : (3 : Int) ^ (-n % 9).toNat * 3 ^ (n % 9).toNat = 19683 := by
      rw [← pow_add, show (-n % 9).toNat + (n % 9).toNat = 9 by omega]
      rfl
    rw [moved, ← whole, show 9 - (-n % 9).toNat = (n % 9).toNat by omega, Int.modEq_iff_dvd]
    refine ⟨Numeral.value (w.trits.drop (-n % 9).toNat), ?_⟩
    linear_combination Numeral.value (w.trits.drop (-n % 9).toNat) * around

/-- What rotations do to a word. -/
structure RotationLaws (w : Word) : Prop where
  acts (n : Int) : n +ᵥ w = w.rotate n
  zero : w.rotate 0 = w
  add (m n : Int) : (w.rotate m).rotate n = w.rotate (m + n)
  whole (k : Int) : w.rotate (9 * k) = w
  back (n : Int) : (w.rotate n).rotate (-n) = w
  /-- Every power is written once, with the trit that belongs there. -/
  powers (n : Int) : Set.BijOn (turned n) (Set.Iio 9) (Set.Iio 9)
  moved (n : Int) {i : Nat} (lt : i < 9) : (w.rotate n).get? (turned n i) = w.get? i
  perm (n : Int) : (w.rotate n).trits.Perm w.trits
  congruent (n : Int) : (w.rotate n).toInt ≡ w.toInt * 3 ^ (n % 9).toNat [ZMOD 19682]
  checked {n : Int} (lower : -2147483648 ≤ n) (upper : n + 8 ≤ 2147483647) :
    w.checkedRotate n = some (w.rotate n)

/-- **Rotations are an action** of the integers, in which the multiples of nine do nothing, and
modulo `3 ^ 9 - 1` they are products by powers of three. -/
theorem rotation_laws (w : Word) : w.RotationLaws where
  acts n := vadd_eq_rotate n w
  zero := rotate_zero w
  add := rotate_rotate w
  whole := rotate_nine_mul w
  back := rotate_neg_cancel w
  powers := bijOn_turned
  moved n {i} lt := by
    rw [get?_of_lt _ (turned_lt n i), get?_of_lt _ lt, coefficient_turned w n lt]
  perm := perm_rotate w
  congruent := toInt_rotate_modEq w
  checked := checkedRotate_eq w

/-- The largest amount at which no number leaves thirty-two bits; it is two modulo nine, and the
trit of the highest power goes round to the second lowest. -/
theorem rotation_laws_largest :
    (wrap (-6560)).checkedRotate 2147483639 = some ((wrap (-6560)).rotate 2) ∧
      ((wrap (-6560)).rotate 2147483639).get? 1 = some .minus := by
  obtain ⟨-, -, add, whole, -, -, moved, -, -, checked⟩ := rotation_laws (wrap (-6560))
  have same : (wrap (-6560)).rotate 2147483639 = (wrap (-6560)).rotate 2 := by
    rw [show (2147483639 : Int) = 9 * 238609293 + 2 by decide, ← add, whole]
  have top : (wrap (-6560)).get? 8 = some .minus := by decide
  refine ⟨?_, (moved 2147483639 (by decide)).trans top⟩
  rw [checked (by decide) (by decide), same]

end Word

end TernaryMachine
