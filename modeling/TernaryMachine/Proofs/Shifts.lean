import Mathlib.Algebra.Order.Ring.Abs
import TernaryMachine.Proofs.Wrapping
/-! # Shifts

A shift moves the trits of a word to other powers of three, and a trit that leaves the word is lost.

* **Coefficients.**  `Word.coefficient w i` is the trit at `3 ^ i`, and `zero` where the word has
  none, so shifts are described by one equation (`Word.coefficient_shift`).
* **Loops.**  `Word.checkedShift` moves one trit after the other.  `Word.Toward` says of a word that
  it is on the way to another one; every round keeps that up, and so the last word is the one that
  was aimed at (`Word.checkedShift_eq`).
* **Integers.**  A shift up is a product modulo `3 ^ 9`.  A shift down drops trits, whose integer is
  less than half the divisor; so it gives the nearest integer to the quotient, and there is no tie
  (`Numeral.abs_sub_scaleDown_lt`). -/

namespace TernaryMachine

namespace Word

variable {a b goal w : Word} {n : Int} {i k : Nat} {done : Nat → Prop}

/-! ### Coefficients -/

/-- The trit at a power of three.  Outside a word there is nothing but `zero`. -/
def coefficient (w : Word) (i : Int) : Trit :=
  if 0 ≤ i then w.trits.getD i.toNat .zero else .zero

theorem coefficient_natCast (w : Word) (i : Nat) : w.coefficient i = w.trits.getD i .zero := by
  rw [coefficient, if_pos (Int.natCast_nonneg i), Int.toNat_natCast]

theorem coefficient_of_outside {i : Int} (w : Word) (h : ¬ (0 ≤ i ∧ i < 9)) :
    w.coefficient i = .zero := by
  unfold coefficient
  split
  · have length := w.length_trits
    rw [List.getD_eq_getElem?_getD, List.getElem?_eq_none (by omega), Option.getD_none]
  · rfl

theorem get?_of_lt (w : Word) (lt : i < 9) : w.get? i = some (w.coefficient i) := by
  have length := w.length_trits
  rw [coefficient_natCast, get?, List.getD_eq_getElem?_getD, List.getElem?_eq_getElem (by omega),
    Option.getD_some]

theorem ext_coefficient (h : ∀ i < 9, a.coefficient (i : Nat) = b.coefficient (i : Nat)) :
    a = b := by
  have same : a.trits = b.trits := by
    apply List.ext_getElem?
    intro i
    rcases Nat.lt_or_ge i 9 with lt | ge
    · have at_power := h i lt
      have left := get?_of_lt a lt
      have right := get?_of_lt b lt
      rw [get?] at left right
      rw [left, right, at_power]
    · rw [List.getElem?_eq_none (a.length_trits.trans_le ge),
        List.getElem?_eq_none (b.length_trits.trans_le ge)]
  cases a
  cases b
  cases same
  rfl

theorem coefficient_zero (i : Int) : zero.coefficient i = .zero := by
  unfold coefficient zero
  simp only [List.getD_eq_getElem?_getD, List.getElem?_replicate]
  split
  · split <;> rfl
  · rfl

/-- A shift brings the trit from `amount` below to every power. -/
theorem coefficient_shift (w : Word) (amount : Int) (lt : i < 9) :
    (w.shift amount).coefficient i = w.coefficient (i - amount) := by
  have length := w.length_trits
  unfold shift
  split
  · rw [coefficient_zero, coefficient_of_outside w (by omega)]
  · split
    · next up =>
      rw [coefficient_natCast, shiftUp]
      simp only [List.getD_eq_getElem?_getD]
      rw [List.getElem?_take_of_lt lt]
      rcases Nat.lt_or_ge i amount.natAbs with low | high
      · rw [List.getElem?_append_left (by simpa using low),
          List.getElem?_replicate_of_lt low, coefficient_of_outside w (by omega)]
        rfl
      · rw [List.getElem?_append_right (by simpa using high), List.length_replicate, coefficient,
          if_pos (by omega), List.getD_eq_getElem?_getD]
        congr 3
        omega
    · next down =>
      rw [coefficient_natCast, shiftDown, coefficient, if_pos (by omega)]
      simp only [List.getD_eq_getElem?_getD]
      rw [List.getElem?_drop, show (i - amount).toNat = amount.natAbs + i by omega]
      rcases Nat.lt_or_ge (amount.natAbs + i) 9 with inside | outside
      · rw [List.getElem?_append_left (by omega)]
      · rw [List.getElem?_append_right (by omega), List.getElem?_eq_none (l := w.trits) (by omega),
          List.getElem?_replicate]
        split <;> rfl

/-! ### Trit by trit -/

theorem exists_set? (w : Word) (lt : i < 9) (t : Trit) :
    ∃ w', w.set? i t = some w' ∧
      ∀ k : Nat, w'.coefficient k = if k = i then t else w.coefficient k := by
  have length := w.length_trits
  refine ⟨_, if_pos lt, ?_⟩
  intro k
  simp only [coefficient_natCast, List.getD_eq_getElem?_getD, List.getElem?_set]
  by_cases same : i = k
  · simp [same, show k < w.trits.length by omega]
  · simp [same, Ne.symm same]

/-- A word on the way to another one: some trits are there, and where one is missing there is
`zero`. -/
structure Toward (goal : Word) (done : Nat → Prop) (w : Word) : Prop where
  there {i : Nat} (lt : i < 9) (h : done i) : w.coefficient i = goal.coefficient i
  missing {i : Nat} (lt : i < 9) (h : ¬ done i) : w.coefficient i = .zero

theorem toward_zero (goal : Word) : Toward goal (fun _ => False) zero where
  there _ h := h.elim
  missing _ _ := coefficient_zero _

theorem Toward.set (h : Toward goal done w) (lt : i < 9) :
    ∃ w', w.set? i (goal.coefficient i) = some w' ∧ Toward goal (fun k => done k ∨ k = i) w' := by
  obtain ⟨w', written, coefficients⟩ := w.exists_set? lt (goal.coefficient i)
  refine ⟨w', written, ?_, ?_⟩
  · intro k lt' there
    rw [coefficients]
    split
    · next same => rw [same]
    · next other => exact h.there lt' (there.resolve_right other)
  · intro k lt' missing
    rw [coefficients, if_neg (fun same => missing (.inr same))]
    exact h.missing lt' (fun there => missing (.inl there))

theorem Toward.skip (h : Toward goal done w) (zero : goal.coefficient i = .zero) :
    Toward goal (fun k => done k ∨ k = i) w where
  there {k} lt there := by
    by_cases already : done k
    · exact h.there lt already
    · obtain rfl := there.resolve_left already
      rw [h.missing lt already, zero]
  missing lt missing := h.missing lt (fun there => missing (.inl there))

theorem Toward.congr {done' : Nat → Prop} (h : Toward goal done w)
    (same : ∀ i < 9, done i ↔ done' i) : Toward goal done' w where
  there lt there := h.there lt ((same _ lt).mpr there)
  missing lt missing := h.missing lt (fun there => missing ((same _ lt).mp there))

theorem Toward.eq (h : Toward goal done w) (all : ∀ i < 9, done i) : w = goal :=
  ext_coefficient fun i lt => h.there lt (all i lt)

/-- A loop over the powers that keeps an invariant through each of its rounds ends with it. -/
theorem exists_loop {round : Word → Nat → Option Word} {P : Nat → Word → Prop} (start : P 0 w)
    (step : ∀ k < 9, ∀ w, P k w → ∃ w', round w k = some w' ∧ P (k + 1) w') :
    ∃ w', (List.range 9).foldlM round w = some w' ∧ P 9 w' := by
  have rounds : ∀ k ≤ 9, ∃ w', (List.range k).foldlM round w = some w' ∧ P k w' := by
    intro k
    induction k with
    | zero =>
      intro _
      exact ⟨w, rfl, start⟩
    | succ k ih =>
      intro le
      obtain ⟨before, ran, kept⟩ := ih (by omega)
      obtain ⟨w', once_more, kept'⟩ := step k (by omega) before kept
      refine ⟨w', ?_, kept'⟩
      rw [List.range_succ, List.foldlM_append, ran]
      simp [once_more]
  exact rounds 9 le_rfl

/-- Fetches the trit of one power from `amount` below, if there is one. -/
def shiftRound (w : Word) (amount : Int) (moved : Word) (i : Nat) : Option Word := do
  let source ← Numeral.keep? Numeral.half32 (i - amount)
  if 0 ≤ source ∧ source < 9 then
    let t ← w.get? source.toNat
    moved.set? i t
  else
    return moved

/-- Shifts a word trit by trit, with all numbers kept in thirty-two bits. -/
def checkedShift (w : Word) (amount : Int) : Option Word := do
  let size ← Numeral.keep? Numeral.half32 |amount|
  if 9 ≤ size then
    return zero
  else
    (List.range 9).foldlM (w.shiftRound amount) zero

theorem exists_shiftRound {moved : Word} (near : n.natAbs < 9) (lt : k < 9)
    (h : Toward (w.shift n) (· < k) moved) :
    ∃ moved', w.shiftRound n moved k = some moved' ∧ Toward (w.shift n) (· < k + 1) moved' := by
  have next : ∀ i < 9, (i < k ∨ i = k) ↔ i < k + 1 := by
    intro i _
    omega
  have fetched := coefficient_shift w n lt
  rw [shiftRound, Numeral.keep?_half32 (by omega) (by omega)]
  simp only [Option.bind_eq_bind, Option.bind_some]
  split
  · next inside =>
    have source : ((k - n).toNat : Int) = k - n := Int.toNat_of_nonneg inside.1
    obtain ⟨moved', written, toward⟩ := h.set lt
    refine ⟨moved', ?_, toward.congr next⟩
    rw [get?_of_lt w (by omega), source, ← fetched, Option.bind_some, written]
  · next outside =>
    have nothing : (w.shift n).coefficient k = .zero := by
      rw [fetched, coefficient_of_outside w outside]
    exact ⟨moved, rfl, (h.skip nothing).congr next⟩

theorem checkedShift_eq (w : Word) (lower : -2147483648 < n) (upper : n ≤ 2147483647) :
    w.checkedShift n = some (w.shift n) := by
  have size : |n| = n.natAbs := Int.abs_eq_natAbs n
  rw [checkedShift, size, Numeral.keep?_half32 (by omega) (by omega)]
  simp only [Option.bind_eq_bind, Option.bind_some]
  split
  · next far =>
    rw [shift, if_pos (by omega)]
    rfl
  · next near =>
    have start : Toward (w.shift n) (· < 0) zero := (toward_zero _).congr (by simp)
    obtain ⟨moved, ran, toward⟩ := exists_loop (P := fun k => Toward (w.shift n) (· < k)) start
      (fun k lt moved kept => exists_shiftRound (by omega) lt kept)
    rw [ran, toward.eq fun i lt => lt]

/-- The lowest amount has no opposite in thirty-two bits. -/
example : zero.checkedShift (-2147483648) = none := by decide

end Word

/-! ### Integers -/

namespace Numeral

/-- A number of low trits is at most half of what is divided by. -/
theorem abs_sub_scaleDown_le (v : Int) (k : Nat) : |v - 3 ^ k * scaleDown v k| ≤ limit k := by
  have half := two_mul_limit_add_one k
  push_cast at half
  have pos : (0 : Int) < 3 ^ k := by positivity
  have rest := Int.emod_add_mul_ediv (2 * v + 3 ^ k) (2 * 3 ^ k)
  have lower := Int.emod_nonneg (2 * v + 3 ^ k) (b := 2 * 3 ^ k) (by omega)
  have upper := Int.emod_lt_of_pos (2 * v + 3 ^ k) (b := 2 * 3 ^ k) (by omega)
  rw [mul_assoc, ← scaleDown] at rest
  rw [abs_le]
  omega

/-- No other integer is as near to the quotient. -/
theorem abs_sub_scaleDown_lt (v : Int) (k : Nat) {q : Int} (other : q ≠ scaleDown v k) :
    |v - 3 ^ k * scaleDown v k| < |v - 3 ^ k * q| := by
  have half := two_mul_limit_add_one k
  push_cast at half
  have near := abs_sub_scaleDown_le v k
  have pos : (0 : Int) < 3 ^ k := by positivity
  have apart : 3 ^ k ≤ |3 ^ k * (scaleDown v k - q)| := by
    rw [abs_mul, abs_of_pos pos]
    exact le_mul_of_one_le_right pos.le (Int.one_le_abs (sub_ne_zero.mpr (Ne.symm other)))
  have sum : 3 ^ k * (scaleDown v k - q) = (v - 3 ^ k * q) - (v - 3 ^ k * scaleDown v k) := by
    ring
  rw [sum] at apart
  have triangle := abs_sub (v - 3 ^ k * q) (v - 3 ^ k * scaleDown v k)
  omega

end Numeral

namespace Word

variable {w : Word} {n v : Int}

theorem shift_of_nonneg (w : Word) (up : 0 ≤ n) : w.shift n = wrap (w.toInt * 3 ^ n.natAbs) := by
  rw [← toInt_inj, toInt_shift, if_pos up, toInt_wrap]

theorem toInt_shift_of_neg (w : Word) (down : n < 0) :
    (w.shift n).toInt = Numeral.scaleDown w.toInt n.natAbs := by
  rw [toInt_shift, if_neg (by omega)]

theorem eq_toInt_wrap_iff {u : Int} :
    v = (wrap u).toInt ↔ (-9841 ≤ v ∧ v ≤ 9841) ∧ v ≡ u [ZMOD 19683] := by
  constructor
  · rintro rfl
    exact ⟨⟨(wrap u).neg_limit_le_toInt, (wrap u).toInt_le_limit⟩, toInt_wrap_modEq u⟩
  · rintro ⟨⟨lower, upper⟩, congruent⟩
    rw [← wrap_eq_wrap_iff_modEq.mpr congruent, toInt_wrap_of_le lower upper]

/-- What a shift by an amount does to the integer of a word. -/
structure ScalesBy (w : Word) (n : Int) : Prop where
  up_iff (up : 0 ≤ n) {v : Int} : v = (w.shift n).toInt ↔
    (-9841 ≤ v ∧ v ≤ 9841) ∧ v ≡ w.toInt * 3 ^ n.natAbs [ZMOD 19683]
  down (down : n < 0) :
    |w.toInt - 3 ^ n.natAbs * (w.shift n).toInt| ≤ (3 ^ n.natAbs - 1) / 2
  /-- There is never a tie. -/
  nearest (down : n < 0) {q : Int} (other : q ≠ (w.shift n).toInt) :
    |w.toInt - 3 ^ n.natAbs * (w.shift n).toInt| < |w.toInt - 3 ^ n.natAbs * q|
  far (far : 9 ≤ |n|) : w.shift n = zero
  checked (lower : -2147483648 < n) (upper : n ≤ 2147483647) :
    w.checkedShift n = some (w.shift n)

/-- **Shifts scale**: up by a product that wraps, and down to the nearest integer. -/
theorem shift_scales (w : Word) (n : Int) : w.ScalesBy n where
  up_iff up {v} := by rw [shift_of_nonneg w up, eq_toInt_wrap_iff]
  down down := by
    rw [toInt_shift_of_neg w down, ← Numeral.limit_eq]
    exact Numeral.abs_sub_scaleDown_le _ _
  nearest down {q} other := by
    rw [toInt_shift_of_neg w down] at other ⊢
    exact Numeral.abs_sub_scaleDown_lt _ _ other
  far far := by
    rw [Int.abs_eq_natAbs] at far
    rw [shift, if_pos (by omega)]
  checked := checkedShift_eq w

/-- The word of nine trits `+`: eight positions up, nine positions down, where the half that is left
is not enough for one, and as far up as there are bits for. -/
theorem shift_scales_ends :
    ((wrap 9841).shift 8).toInt = 6561 ∧
      |(wrap 9841).toInt - 3 ^ 9 * ((wrap 9841).shift (-9)).toInt| ≤ (3 ^ 9 - 1) / 2 ∧
      |(wrap 9841).toInt - 3 ^ 9 * ((wrap 9841).shift (-9)).toInt| <
        |(wrap 9841).toInt - 3 ^ 9 * 1| ∧
      (wrap 9841).checkedShift 2147483647 = some zero := by
  obtain ⟨up_iff, -, -, -, -⟩ := shift_scales (wrap 9841) 8
  obtain ⟨-, down, nearest, -, -⟩ := shift_scales (wrap 9841) (-9)
  obtain ⟨-, -, -, far, checked⟩ := shift_scales (wrap 9841) 2147483647
  refine ⟨?_, down (by decide), nearest (by decide) (by decide), ?_⟩
  · exact ((up_iff (by decide)).mpr ⟨by decide, by decide⟩).symm
  · rw [checked (by decide) (by decide), far (by decide)]

end Word

end TernaryMachine
