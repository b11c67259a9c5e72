import Mathlib.Order.Compare
import TernaryMachine.Proofs.NumeralForms
/-! # Numeric order is digit order

The lesser of two numerals of one length is the one with the lesser trit where they first differ.

* **Leading trits.**  Trits may be negative, so those behind a position can pull the integer back
  towards the other one.  They are worth less than half of what one is worth at that position, which
  is too little to get past it (`Numeral.read_cons_lt`).
* **First differences.**  In front of the first position where two numerals differ they are worth
  the same, so the trits at that position are the leading ones
  (`Numeral.FirstDifference.cmp_read`).
* **Signs.**  The sign is the order against zero, whose numeral has no trit but `zero`, so the first
  trit other than `zero` gives it (`Numeral.sign_read`).
* **Words** are the numerals of nine trits, and are compared by their integers. -/

namespace TernaryMachine

namespace Numeral

variable {xs ys us vs : List Trit} {k : Nat} {s t : Trit}

/-! ### Leading trits -/

/-- The leading trits decide, whatever stands behind them. -/
theorem read_cons_lt (length : us.length = vs.length) (lt : s.toInt < t.toInt) :
    read (s :: us) < read (t :: vs) := by
  have half := two_mul_limit_add_one vs.length
  push_cast at half
  obtain ⟨-, upper⟩ := read_bounds us
  obtain ⟨lower, -⟩ := read_bounds vs
  rw [length] at upper
  rw [read_cons, read_cons, length]
  calc s.toInt * 3 ^ vs.length + read us
      ≤ s.toInt * 3 ^ vs.length + limit vs.length := by gcongr
    _ < (s.toInt + 1) * 3 ^ vs.length - limit vs.length := by linarith
    _ ≤ t.toInt * 3 ^ vs.length - limit vs.length := by
        gcongr
        exact lt
    _ ≤ t.toInt * 3 ^ vs.length + read vs := by linarith

theorem read_append_lt_iff (front : List Trit) (length : us.length = vs.length) :
    read (front ++ us) < read (front ++ vs) ↔ read us < read vs := by
  rw [read_append, read_append, length, add_lt_add_iff_left]

/-! ### First differences -/

/-- The most significant position where two numerals differ, and the trits that they have there. -/
structure FirstDifference (xs ys : List Trit) (k : Nat) (s t : Trit) : Prop where
  before : xs.take k = ys.take k
  left : xs[k]? = some s
  right : ys[k]? = some t
  ne : s ≠ t

theorem FirstDifference.cons (first : FirstDifference xs ys k s t) (r : Trit) :
    FirstDifference (r :: xs) (r :: ys) (k + 1) s t where
  before := by rw [List.take_succ_cons, List.take_succ_cons, first.before]
  left := first.left
  right := first.right
  ne := first.ne

theorem FirstDifference.symm (first : FirstDifference xs ys k s t) :
    FirstDifference ys xs k t s where
  before := first.before.symm
  left := first.right
  right := first.left
  ne := first.ne.symm

theorem exists_firstDifference (length : xs.length = ys.length) (ne : xs ≠ ys) :
    ∃ k s t, FirstDifference xs ys k s t := by
  induction xs generalizing ys with
  | nil => exact absurd (List.length_eq_zero_iff.mp length.symm).symm ne
  | cons s us ih =>
    cases ys with
    | nil => cases length
    | cons t vs =>
      by_cases same : s = t
      · obtain rfl := same
        have behind : us ≠ vs := fun equal => ne (congrArg (s :: ·) equal)
        obtain ⟨k, s', t', first⟩ := ih (Nat.succ.inj length) behind
        exact ⟨k + 1, s', t', first.cons s⟩
      · exact ⟨0, s, t, rfl, rfl, rfl, same⟩

/-- The trits before a first difference are in both numerals, and then each goes on with its own. -/
theorem FirstDifference.split (first : FirstDifference xs ys k s t) :
    xs = xs.take k ++ s :: xs.drop (k + 1) ∧ ys = xs.take k ++ t :: ys.drop (k + 1) := by
  obtain ⟨inside, rfl⟩ := List.getElem?_eq_some_iff.mp first.left
  obtain ⟨inside', rfl⟩ := List.getElem?_eq_some_iff.mp first.right
  constructor
  · rw [← List.drop_eq_getElem_cons, List.take_append_drop]
  · rw [first.before, ← List.drop_eq_getElem_cons, List.take_append_drop]

theorem FirstDifference.read_lt (first : FirstDifference xs ys k s t)
    (length : xs.length = ys.length) (lt : s.toInt < t.toInt) : read xs < read ys := by
  obtain ⟨left, right⟩ := first.split
  have behind : (xs.drop (k + 1)).length = (ys.drop (k + 1)).length := by
    rw [List.length_drop, List.length_drop, length]
  rw [left, right, read_append_lt_iff _ (by rw [List.length_cons, List.length_cons, behind])]
  exact read_cons_lt behind lt

/-- **A first difference decides**: the integers are in the order of the trits. -/
theorem FirstDifference.cmp_read (first : FirstDifference xs ys k s t)
    (length : xs.length = ys.length) : cmp (read xs) (read ys) = cmp s.toInt t.toInt := by
  rcases lt_or_gt_of_ne (Trit.toInt_inj.not.mpr first.ne) with lesser | greater
  · have less := first.read_lt length lesser
    rw [(cmp_eq_lt_iff _ _).mpr lesser, (cmp_eq_lt_iff _ _).mpr less]
  · have more := first.symm.read_lt length.symm greater
    rw [(cmp_eq_gt_iff _ _).mpr greater, (cmp_eq_gt_iff _ _).mpr more]

theorem read_lt_iff (length : xs.length = ys.length) :
    read xs < read ys ↔ ∃ k s t, FirstDifference xs ys k s t ∧ s.toInt < t.toInt := by
  constructor
  · intro lt
    obtain ⟨k, s, t, first⟩ := exists_firstDifference length fun same => lt.ne (congrArg read same)
    refine ⟨k, s, t, first, ?_⟩
    rwa [← cmp_eq_lt_iff, ← first.cmp_read length, cmp_eq_lt_iff]
  · rintro ⟨k, s, t, first, lesser⟩
    exact first.read_lt length lesser

/-! ### Signs -/

/-- The sign of an integer is the first trit of its numeral that is not `zero`. -/
theorem sign_read (ds : List Trit) :
    Trit.sign (read ds) = (ds.find? fun t => !t.isZero).getD .zero := by
  induction ds with
  | nil => rfl
  | cons t ts ih =>
    have zeros : read (.zero :: List.replicate ts.length .zero) = 0 :=
      read_replicate_zero (ts.length + 1)
    have length : (List.replicate ts.length Trit.zero).length = ts.length :=
      List.length_replicate
    cases t with
    | minus =>
      have negative := read_cons_lt (s := .minus) (t := .zero) length.symm (by decide)
      rw [zeros] at negative
      rw [Trit.sign, if_neg (by omega), if_pos negative]
      rfl
    | zero =>
      rw [read_cons, Trit.toInt, zero_mul, zero_add, ih]
      rfl
    | plus =>
      have positive := read_cons_lt (s := .zero) (t := .plus) length (by decide)
      rw [zeros] at positive
      rw [Trit.sign, if_pos positive]
      rfl

/-- How two numerals of one length lie to each other. -/
structure Ordered (xs ys : List Trit) : Prop where
  lt_iff : read xs < read ys ↔ ∃ k s t, FirstDifference xs ys k s t ∧ s.toInt < t.toInt
  eq_iff : read xs = read ys ↔ xs = ys
  exists_first (ne : xs ≠ ys) : ∃ k s t, FirstDifference xs ys k s t
  cmp_first {k : Nat} {s t : Trit} (first : FirstDifference xs ys k s t) :
    cmp (read xs) (read ys) = cmp s.toInt t.toInt
  opposite : read (xs.map Trit.neg) = -read xs
  /-- The integers have thirty-two bits, and so has every result on the way to them. -/
  checked (short : xs.length ≤ 20) : checkedRead xs = some (read xs) ∧
    checkedRead ys = some (read ys) ∧ checkedRead (xs.map Trit.neg) = some (-read xs)

theorem ordered (length : xs.length = ys.length) : Ordered xs ys where
  lt_iff := read_lt_iff length
  eq_iff := read_inj length
  exists_first := exists_firstDifference length
  cmp_first first := first.cmp_read length
  opposite := read_map_neg xs
  checked short := by
    rw [← read_map_neg]
    exact ⟨(checked_of_short short).1, (checked_of_short (length ▸ short)).1,
      (checked_of_short (by rwa [List.length_map])).1⟩

end Numeral

namespace Word

/-! ### Words -/

theorem compare_eq (a b : Word) : a.compare b = cmp a.toInt b.toInt :=
  rfl

theorem compare_neg (a b : Word) : (-a).compare (-b) = (a.compare b).swap := by
  have reverses : StrictAnti fun v : Int => -v := fun _ _ => neg_lt_neg
  calc (-a).compare (-b) = cmp (-a.toInt) (-b.toInt) := congrArg₂ cmp (toInt_neg a) (toInt_neg b)
    _ = cmp b.toInt a.toInt := reverses.cmp_map_eq a.toInt b.toInt
    _ = (a.compare b).swap := (cmp_swap a.toInt b.toInt).symm

theorem sign_eq (w : Word) : w.sign = Trit.sign w.toInt := by
  rw [← read_digits, Numeral.sign_read, sign]

/-- How two words compare, and what their trits have to do with it. -/
structure DigitOrder (a b : Word) : Prop where
  compare_first {k : Nat} {s t : Trit}
    (first : Numeral.FirstDifference a.digits b.digits k s t) :
    a.compare b = cmp s.toInt t.toInt
  exists_first (ne : a ≠ b) : ∃ k s t, Numeral.FirstDifference a.digits b.digits k s t
  compare_same_iff : a.compare b = .eq ↔ a = b
  compare_opposite : (-a).compare (-b) = (a.compare b).swap
  sign : a.sign.toInt = a.toInt.sign

theorem digitOrder (a b : Word) : DigitOrder a b where
  compare_first first := by
    rw [compare_eq, ← read_digits, ← read_digits]
    exact first.cmp_read (by rw [length_digits, length_digits])
  exists_first ne := by
    refine Numeral.exists_firstDifference (by rw [length_digits, length_digits]) fun same => ne ?_
    rw [← toInt_inj, ← read_digits, same, read_digits]
  compare_same_iff := by rw [compare_eq, cmp_eq_eq_iff, toInt_inj]
  compare_opposite := compare_neg a b
  sign := by rw [sign_eq, Trit.toInt_sign]

/-- **Numeric order is digit order**, of numerals of any one length and so of words. -/
theorem order_of_digits :
    (∀ xs ys : List Trit, xs.length = ys.length → Numeral.Ordered xs ys) ∧
    ∀ a b : Word, DigitOrder a b :=
  ⟨fun _ _ => Numeral.ordered, digitOrder⟩

/-- Neighbours whose trits differ everywhere: the trits behind the first one are as high as they can
be in the lesser and as low as they can be in the greater, of twenty trits and of nine. -/
theorem order_of_digits_neighbours :
    Numeral.checkedRead (.zero :: List.replicate 19 .plus) = some 581130733 ∧
      Numeral.checkedRead (.plus :: List.replicate 19 .minus) = some 581130734 ∧
      cmp (Numeral.read (.zero :: List.replicate 19 .plus))
        (Numeral.read (.plus :: List.replicate 19 .minus)) = .lt ∧
      (wrap 3280).compare (wrap 3281) = .lt ∧ (-wrap 3280).compare (-wrap 3281) = .gt ∧
      (wrap (-3281)).sign = .minus := by
  obtain ⟨numerals, words⟩ := order_of_digits
  have long := numerals (.zero :: List.replicate 19 .plus) (.plus :: List.replicate 19 .minus) rfl
  have low_value : Numeral.read (.zero :: List.replicate 19 .plus) = 581130733 := by decide
  have high_value : Numeral.read (.plus :: List.replicate 19 .minus) = 581130734 := by decide
  obtain ⟨low, high, -⟩ := long.checked (by decide)
  rw [low_value] at low
  rw [high_value] at high
  have decided := @long.cmp_first 0 .zero .plus ⟨rfl, rfl, rfl, by decide⟩
  have short := words (wrap 3280) (wrap 3281)
  have differ : Numeral.FirstDifference (wrap 3280).digits (wrap 3281).digits 0 .zero .plus :=
    ⟨by decide, by decide, by decide, by decide⟩
  have lesser : (wrap 3280).compare (wrap 3281) = .lt := short.compare_first differ
  have negative := (words (wrap (-3281)) zero).sign
  refine ⟨low, high, decided.trans rfl, lesser, ?_, ?_⟩
  · rw [short.compare_opposite, lesser]
    rfl
  · rw [← Trit.toInt_inj, negative, toInt_wrap_of_le (by decide) (by decide)]
    rfl

end Word

end TernaryMachine
