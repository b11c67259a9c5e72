import TernaryMachine.Alu
import TernaryMachine.Proofs.Wrapping
/-! # Quotients

A word is divided by another one as their integers are.  The quotient is rounded toward zero, and
the remainder has the sign of the dividend.

* **Integers.**  `Truncates a b q r` says what a quotient and a remainder are.  There is one pair of
  them for every divisor but zero (`truncates_iff`).
* **Words.**  Neither the quotient nor the remainder is further from zero than the dividend, so
  wrapping leaves both as they are (`Word.ofInt_of_divide`), and `Word.checkedDivide` never runs out
  of bits (`Word.checkedDivide_eq`).
* **The arithmetic unit** gives one of the two.  By zero there is neither, and it gives back what it
  had (`AluOp.truncates_apply`, `AluOp.apply_zero`). -/

namespace TernaryMachine

/-- A quotient that is rounded toward zero, and what is left of the dividend. -/
structure Truncates (a b q r : Int) : Prop where
  exact : a = q * b + r
  small : |r| < |b|
  side : r = 0 ∨ r.sign = a.sign

theorem truncates_tdiv {b : Int} (a : Int) (nonzero : b ≠ 0) :
    Truncates a b (a.tdiv b) (a.tmod b) where
  exact := by
    rw [mul_comm]
    exact (Int.mul_tdiv_add_tmod a b).symm
  small := by
    rw [Int.abs_eq_natAbs, Int.abs_eq_natAbs, Int.natAbs_tmod]
    exact_mod_cast Nat.mod_lt _ (Int.natAbs_pos.mpr nonzero)
  side := by
    rw [Int.sign_tmod]
    split
    · next multiple => exact .inl (Int.tmod_eq_zero_of_dvd multiple)
    · exact .inr rfl

theorem truncates_iff {a b q r : Int} (nonzero : b ≠ 0) :
    Truncates a b q r ↔ q = a.tdiv b ∧ r = a.tmod b := by
  constructor
  · rintro ⟨exact, small, side⟩
    have sum : r + b * q = a := by rw [exact, mul_comm, add_comm]
    rw [Int.abs_eq_natAbs, Int.abs_eq_natAbs] at small
    rcases Int.le_total 0 a with nonneg | nonpos
    · have lower : 0 ≤ r := by
        rcases side with rfl | same
        · exact le_rfl
        · rw [← Int.sign_nonneg_iff, same, Int.sign_nonneg_iff]
          exact nonneg
      have unique := (Int.tdiv_tmod_unique nonneg nonzero).mpr ⟨sum, lower, by omega⟩
      exact ⟨unique.1.symm, unique.2.symm⟩
    · have upper : r ≤ 0 := by
        rcases side with rfl | same
        · exact le_rfl
        · rw [← Int.sign_nonpos_iff, same, Int.sign_nonpos_iff]
          exact nonpos
      have unique := (Int.tdiv_tmod_unique' nonpos nonzero).mpr ⟨sum, by omega, upper⟩
      exact ⟨unique.1.symm, unique.2.symm⟩
  · rintro ⟨rfl, rfl⟩
    exact truncates_tdiv a nonzero

namespace Word

variable {a b : Word} {d : Division}

theorem divide_eq_none_iff : a.divide b = none ↔ b = zero := by
  obtain ⟨none, some⟩ := toInt_divide a b
  rw [← toInt_eq_zero_iff]
  constructor
  · intro refused
    by_contra nonzero
    obtain ⟨d, divided, -⟩ := some nonzero
    rw [refused] at divided
    cases divided
  · exact none

theorem divide_eq_some_iff_tdiv : a.divide b = some d ↔ b ≠ zero ∧
    d.quotient.toInt = a.toInt.tdiv b.toInt ∧ d.remainder.toInt = a.toInt.tmod b.toInt := by
  constructor
  · intro divided
    have nonzero : b ≠ zero := by
      intro zero
      rw [divide_eq_none_iff.mpr zero] at divided
      cases divided
    obtain ⟨d', divided', results⟩ := (toInt_divide a b).2 (toInt_eq_zero_iff.not.mpr nonzero)
    obtain rfl : d = d' := Option.some.inj (divided.symm.trans divided')
    exact ⟨nonzero, results⟩
  · rintro ⟨nonzero, quotient, remainder⟩
    obtain ⟨d', divided, quotient', remainder'⟩ :=
      (toInt_divide a b).2 (toInt_eq_zero_iff.not.mpr nonzero)
    rw [divided, Option.some.injEq]
    cases d
    cases d'
    rw [Division.mk.injEq, ← toInt_inj, ← toInt_inj]
    exact ⟨quotient'.trans quotient.symm, remainder'.trans remainder.symm⟩

theorem divide_eq_some_iff : a.divide b = some d ↔
    b ≠ zero ∧ Truncates a.toInt b.toInt d.quotient.toInt d.remainder.toInt := by
  rw [divide_eq_some_iff_tdiv]
  apply and_congr_right
  intro nonzero
  rw [truncates_iff (toInt_eq_zero_iff.not.mpr nonzero)]

/-- Both results are in range before they are wrapped. -/
theorem ofInt_of_divide (divided : a.divide b = some d) :
    ofInt (a.toInt.tdiv b.toInt) = .ok d.quotient ∧
      ofInt (a.toInt.tmod b.toInt) = .ok d.remainder := by
  obtain ⟨-, quotient, remainder⟩ := divide_eq_some_iff_tdiv.mp divided
  exact ⟨ofInt_eq_ok_iff.mpr quotient, ofInt_eq_ok_iff.mpr remainder⟩

/-- Divides with all results kept in thirty-two bits; there is none by zero. -/
def checkedDivide (a b : Word) : Option (Option Division) :=
  if b.isZero then
    some none
  else do
    let dividend ← Numeral.checkedRead a.digits
    let divisor ← Numeral.checkedRead b.digits
    guard (divisor ≠ 0)
    let quotient ← Numeral.keep? Numeral.half32 (dividend.tdiv divisor)
    let remainder ← Numeral.keep? Numeral.half32 (dividend.tmod divisor)
    return some ⟨← checkedWrap quotient, ← checkedWrap remainder⟩

theorem checkedWrap_of_ofInt {v : Int} {w : Word} (made : ofInt v = .ok w) :
    Numeral.keep? Numeral.half32 v = some v ∧ checkedWrap v = some w := by
  obtain rfl := ofInt_eq_ok_iff.mp made
  have lower := w.neg_limit_le_toInt
  have upper := w.toInt_le_limit
  rw [limit] at lower upper
  rw [Numeral.keep?_half32 (by omega) (by omega), checkedWrap_eq (by omega) (by omega), wrap_toInt]
  exact ⟨rfl, rfl⟩

theorem checkedDivide_eq (a b : Word) : a.checkedDivide b = some (a.divide b) := by
  unfold checkedDivide
  cases divided : a.divide b with
  | none =>
    rw [if_pos]
    rw [isZero_iff, toInt_eq_zero_iff]
    exact divide_eq_none_iff.mp divided
  | some d =>
    have nonzero := toInt_eq_zero_iff.not.mpr (divide_eq_some_iff.mp divided).1
    obtain ⟨quotient, remainder⟩ := ofInt_of_divide divided
    obtain ⟨quotient_kept, quotient_wrapped⟩ := checkedWrap_of_ofInt quotient
    obtain ⟨remainder_kept, remainder_wrapped⟩ := checkedWrap_of_ofInt remainder
    rw [if_neg (fun zero => nonzero (isZero_iff.mp zero)), oneToOne.checkedRead,
      oneToOne.checkedRead]
    simp [guard, nonzero, quotient_kept, remainder_kept, quotient_wrapped, remainder_wrapped]

end Word

namespace AluOp

variable {a b : Word}

/-- The unit gives the quotient for the one operation and the remainder for the other. -/
theorem truncates_apply (nonzero : b ≠ .zero) (carry : Trit) :
    Truncates a.toInt b.toInt (divide.apply a b carry).word.toInt
      (modulo.apply a b carry).word.toInt := by
  cases divided : a.divide b with
  | none => exact absurd (Word.divide_eq_none_iff.mp divided) nonzero
  | some d =>
    unfold apply
    simp only [divided, Option.map_some, Option.getD_some]
    exact (Word.divide_eq_some_iff.mp divided).2

theorem apply_zero (a : Word) (carry : Trit) :
    divide.apply a .zero carry = ⟨a, .zero⟩ ∧ modulo.apply a .zero carry = ⟨a, .zero⟩ := by
  have refused : a.divide .zero = none := Word.divide_eq_none_iff.mpr rfl
  simp [apply, refused]

end AluOp

namespace Word

variable {a b : Word}

/-- When two words may be divided, and what comes of it. -/
structure DividesExactly (a b : Word) : Prop where
  none_iff : a.divide b = none ↔ b = zero
  some_iff {d : Division} : a.divide b = some d ↔
    b ≠ zero ∧ Truncates a.toInt b.toInt d.quotient.toInt d.remainder.toInt
  /-- Neither result is changed by wrapping, since both are in range. -/
  in_range {d : Division} (divided : a.divide b = some d) :
    ofInt (a.toInt.tdiv b.toInt) = .ok d.quotient ∧
      ofInt (a.toInt.tmod b.toInt) = .ok d.remainder
  checked : a.checkedDivide b = some (a.divide b)
  by_unit (nonzero : b ≠ zero) (carry : Trit) :
    Truncates a.toInt b.toInt (AluOp.divide.apply a b carry).word.toInt
      (AluOp.modulo.apply a b carry).word.toInt
  by_zero (h : b = zero) (carry : Trit) :
    AluOp.divide.apply a b carry = ⟨a, .zero⟩ ∧ AluOp.modulo.apply a b carry = ⟨a, .zero⟩

/-- **Division is exact** for every divisor but zero, by which the unit does nothing. -/
theorem divide_exact (a b : Word) : a.DividesExactly b where
  none_iff := divide_eq_none_iff
  some_iff := divide_eq_some_iff
  in_range := ofInt_of_divide
  checked := checkedDivide_eq a b
  by_unit := AluOp.truncates_apply
  by_zero h carry := by
    rw [h]
    exact AluOp.apply_zero a carry

/-- The lowest word by the opposite of one, a remainder that is negative as its dividend is, and a
division by zero. -/
theorem divide_exact_lowest :
    (wrap (-9841)).divide (wrap (-1)) = some ⟨wrap 9841, zero⟩ ∧
      ofInt ((wrap (-9841)).toInt.tdiv (wrap (-1)).toInt) = .ok (wrap 9841) ∧
      Truncates (-17) 5 (AluOp.divide.apply (wrap (-17)) (wrap 5) .plus).word.toInt
        (AluOp.modulo.apply (wrap (-17)) (wrap 5) .plus).word.toInt ∧
      AluOp.modulo.apply (wrap (-17)) zero .plus = ⟨wrap (-17), .zero⟩ := by
  obtain ⟨-, some_iff, in_range, -, -, -⟩ := divide_exact (wrap (-9841)) (wrap (-1))
  obtain ⟨-, -, -, -, by_unit, -⟩ := divide_exact (wrap (-17)) (wrap 5)
  obtain ⟨-, -, -, -, -, by_zero⟩ := divide_exact (wrap (-17)) zero
  have divided : (wrap (-9841)).divide (wrap (-1)) = some ⟨wrap 9841, zero⟩ :=
    some_iff.mpr ⟨by decide, by decide, by decide, by decide⟩
  exact ⟨divided, (in_range divided).1, by_unit (by decide) .plus, (by_zero rfl .plus).2⟩

end Word

end TernaryMachine
