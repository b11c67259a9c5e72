import Mathlib.Algebra.Order.Group.Unbundled.Int
import TernaryMachine.Proofs.Field
import TernaryMachine.Proofs.Literal
/-! # Numerals of a width

An integer has one numeral of each width that has room for it, and no other numeral of that width
has the same integer.

* **Widths.**  `Numeral.write_eq_ok_iff` says which numeral is written, and
  `Numeral.write_of_large` when there is none.
* **Machine integers.**  `Numeral.checkedRead` and `Numeral.checkedWrite` are the reader and the
  writer with every result kept in thirty-two or sixty-four bits; they fail where one has no place.
  The writer takes a trit away before it divides.  What is left is a multiple of three, so it is
  never further from zero than an integer of thirty-two bits may be, unless that was `-2 ^ 31`
  (`Numeral.checkedLow_eq`), and that is the only one that the reader has no room for
  (`Numeral.checkedRead_eq_some_iff`).
* **Words** are the numerals of nine trits, and their texts those of nine sign characters. -/

namespace TernaryMachine

namespace Numeral

variable {v : Int} {n width : Nat} {ds : List Trit}

/-! ### Widths -/

theorem limit_eq (n : Nat) : limit n = (3 ^ n - 1) / 2 := by
  have half := two_mul_limit_add_one n
  push_cast at half
  omega

theorem write_eq_ok_iff : write v width = .ok ds ↔ ds.length = width ∧ read ds = v := by
  constructor
  · intro written
    exact ⟨length_of_write_eq_ok written, read_of_write_eq_ok written⟩
  · rintro ⟨rfl, rfl⟩
    obtain ⟨lower, upper⟩ := read_bounds ds
    have reversed := low_value ds.reverse
    rw [List.length_reverse, ← read_eq_value_reverse] at reversed
    rw [write_eq_ok lower upper, reversed, List.reverse_reverse]

theorem exists_write_iff : (∃ ds, write v width = .ok ds) ↔ |v| ≤ limit width := by
  rw [abs_le]
  constructor
  · rintro ⟨ds, written⟩
    obtain ⟨rfl, rfl⟩ := write_eq_ok_iff.mp written
    exact read_bounds ds
  · rintro ⟨lower, upper⟩
    exact ⟨_, write_eq_ok lower upper⟩

theorem write_of_large (large : limit width < |v|) :
    write v width = .error ⟨v, -limit width, limit width⟩ := by
  rw [Int.abs_eq_natAbs] at large
  rw [write, if_pos large]

/-! ### Machine integers -/

/-- Integers of thirty-two bits lie between `-half32` and `half32 - 1`. -/
def half32 : Int := 2147483648

/-- Integers of sixty-four bits lie between `-half64` and `half64 - 1`. -/
def half64 : Int := 9223372036854775808

/-- An integer, if it lies between `-half` and `half - 1`. -/
def keep? (half v : Int) : Option Int :=
  if -half ≤ v ∧ v < half then some v else none

theorem keep?_eq_some_iff {half u : Int} :
    keep? half u = some v ↔ u = v ∧ -half ≤ v ∧ v < half := by
  rw [keep?]
  split
  · next fits =>
    rw [Option.some.injEq]
    constructor
    · rintro rfl
      exact ⟨rfl, fits⟩
    · exact And.left
  · next large =>
    simp only [reduceCtorEq, false_iff]
    rintro ⟨rfl, fits⟩
    exact large fits

theorem keep?_half32 (lower : -2147483648 ≤ v) (upper : v < 2147483648) :
    keep? half32 v = some v :=
  if_pos ⟨lower, upper⟩

theorem keep?_half64 (lower : -9223372036854775808 ≤ v) (upper : v < 9223372036854775808) :
    keep? half64 v = some v :=
  if_pos ⟨lower, upper⟩

/-- Reads a numeral in text order, with all results kept in thirty-two bits. -/
def checkedRead (ds : List Trit) : Option Int :=
  ds.foldlM (fun acc t => do
    let scaled ← keep? half32 (acc * 3)
    keep? half32 (scaled + t.toInt)) 0

/-- Takes the `n` low trits off an integer, with all results kept in thirty-two bits. -/
def checkedLow : Nat → Int → Option (List Trit)
  | 0, _ => some []
  | n + 1, v => do
    let multiple ← keep? half32 (v - (lowTrit v).toInt)
    let others ← checkedLow n (multiple.tdiv 3)
    return lowTrit v :: others

/-- Writes an integer of thirty-two bits.  The limit is an integer of sixty-four bits, and an error
has its thirty-two low bits. -/
def checkedWrite (v : Int) (width : Nat) : Option (Except RangeError (List Trit)) := do
  let power ← keep? half64 (3 ^ width)
  let twice ← keep? half64 (power - 1)
  let max := twice.tdiv 2
  if max < |v| then
    return .error ⟨v, (-max).bmod 4294967296, max.bmod 4294967296⟩
  else
    let low ← checkedLow width v
    return .ok low.reverse

/-- What is left of an integer without its lowest trit: a multiple of three at most one away. -/
theorem sub_lowTrit_eq (v : Int) : ∃ q, v - (lowTrit v).toInt = 3 * q ∧
    q = (v - (lowTrit v).toInt) / 3 ∧ v - 1 ≤ 3 * q ∧ 3 * q ≤ v + 1 := by
  have split := toInt_lowTrit_add v
  have := (lowTrit v).toInt_le_one
  have := (lowTrit v).neg_one_le_toInt
  exact ⟨_, by omega, rfl, by omega, by omega⟩

theorem checkedLow_eq (lower : -2147483648 < v) (upper : v < 2147483648) :
    checkedLow n v = some (low n v) := by
  induction n generalizing v with
  | zero => rfl
  | succ n ih =>
    obtain ⟨q, multiple, quotient, below, above⟩ := sub_lowTrit_eq v
    rw [checkedLow, low, ← quotient, multiple, keep?_half32 (by omega) (by omega)]
    simp only [Option.bind_eq_bind, Option.bind_some]
    rw [Int.mul_tdiv_cancel_left q (by decide), ih (by omega) (by omega)]
    rfl

theorem checkedRead_append (ds : List Trit) (t : Trit) :
    checkedRead (ds ++ [t]) = (checkedRead ds).bind fun v =>
      (keep? half32 (v * 3)).bind fun scaled => keep? half32 (scaled + t.toInt) := by
  rw [checkedRead, List.foldlM_append]
  simp only [List.foldlM_cons, List.foldlM_nil, bind_pure]
  rfl

/-- The reader has room for every integer of thirty-two bits but the lowest one, whose last trit is
`+`: what is in front of that is a multiple of three below it. -/
theorem checkedRead_eq_some_iff :
    checkedRead ds = some v ↔ read ds = v ∧ -2147483648 < v ∧ v < 2147483648 := by
  induction ds using List.reverseRec generalizing v with
  | nil =>
    change some 0 = some v ↔ 0 = v ∧ _
    rw [Option.some.injEq]
    omega
  | append_singleton ds t ih =>
    have low := t.neg_one_le_toInt
    have high := t.toInt_le_one
    rw [checkedRead_append, read_append, read_singleton]
    simp only [Option.bind_eq_some_iff, keep?_eq_some_iff, ih, half32, List.length_singleton,
      pow_one]
    constructor
    · rintro ⟨u, ⟨front, -, -⟩, scaled, ⟨rfl, room, -⟩, rfl, -, upper⟩
      rw [front]
      omega
    · rintro ⟨rfl, lower, upper⟩
      exact ⟨_, ⟨rfl, by omega, by omega⟩, _, ⟨rfl, by omega, by omega⟩, rfl, by omega, by omega⟩

theorem limit_le_of_le_twenty (short : n ≤ 20) : limit n ≤ 1743392200 :=
  (limit_mono short).trans (by decide)

/-- The lowest integer of thirty-two bits does not go into twenty trits. -/
theorem ne_lowest (fits : |v| ≤ limit width) (lowest : v = -2147483648 → width ≤ 20) :
    v ≠ -2147483648 := by
  rintro rfl
  have small := limit_le_of_le_twenty (lowest rfl)
  rw [abs_of_neg (by decide)] at fits
  omega

theorem checkedWrite_eq (narrow : width ≤ 39) (lower : -2147483648 ≤ v) (upper : v < 2147483648)
    (lowest : v = -2147483648 → width ≤ 20) : checkedWrite v width = some (write v width) := by
  have half := two_mul_limit_add_one width
  have power : 3 ^ width ≤ 3 ^ 39 := Nat.pow_le_pow_right (by decide) narrow
  have limit_nonneg : 0 ≤ limit width := limit_mono (Nat.zero_le width)
  have top : (3 : Int) ^ width = 2 * limit width + 1 := by
    push_cast at half
    exact half.symm
  rw [checkedWrite, top, keep?_half64 (by omega) (by omega)]
  simp only [Option.bind_eq_bind, Option.bind_some, add_sub_cancel_right]
  rw [keep?_half64 (by omega) (by omega), Option.bind_some,
    Int.mul_tdiv_cancel_left (limit width) (by decide)]
  have size : |v| ≤ 2147483648 := abs_le.mpr ⟨lower, upper.le⟩
  split
  · next large =>
    rw [write_of_large large, Int.bmod_eq_of_le (by omega) (by omega),
      Int.bmod_eq_of_le (by omega) (by omega)]
    rfl
  · next fits =>
    have fits := not_lt.mp fits
    have above := ne_lowest fits lowest
    obtain ⟨low_limit, high_limit⟩ := abs_le.mp fits
    rw [checkedLow_eq (by omega) upper, write_eq_ok low_limit high_limit]
    rfl

/-- Beyond these bounds there is no place for a result: the lowest integer and its trit `+`, and
the limit of forty trits. -/
example : checkedWrite (-2147483648) 21 = none ∧ checkedWrite 0 40 = none := by decide

theorem checkedRead_of_write (lower : -2147483648 < v) (upper : v < 2147483648)
    (written : write v width = .ok ds) : checkedRead ds = some v :=
  checkedRead_eq_some_iff.mpr ⟨read_of_write_eq_ok written, lower, upper⟩

theorem checked_of_short (short : ds.length ≤ 20) :
    checkedRead ds = some (read ds) ∧ checkedWrite (read ds) ds.length = some (.ok ds) := by
  have small := limit_le_of_le_twenty short
  obtain ⟨lower, upper⟩ := read_bounds ds
  have written : write (read ds) ds.length = .ok ds := write_eq_ok_iff.mpr ⟨rfl, rfl⟩
  refine ⟨checkedRead_of_write (by omega) (by omega) written, ?_⟩
  rw [checkedWrite_eq (by omega) (by omega) (by omega) fun _ => short, written]

/-- An integer and a width: when there is a numeral, what it is, and that nothing on the way to it
and back leaves the bits there are. -/
structure HasForm (v : Int) (width : Nat) : Prop where
  exists_iff : (∃ ds, write v width = .ok ds) ↔ |v| ≤ (3 ^ width - 1) / 2
  error (large : (3 ^ width - 1) / 2 < |v|) :
    write v width = .error ⟨v, -((3 ^ width - 1) / 2), (3 ^ width - 1) / 2⟩
  read {ds : List Trit} (written : write v width = .ok ds) : ds.length = width ∧ read ds = v
  checkedWrite : checkedWrite v width = some (write v width)
  checkedRead {ds : List Trit} (written : write v width = .ok ds) : checkedRead ds = some v

theorem hasForm (narrow : width ≤ 39) (lower : -2147483648 ≤ v) (upper : v < 2147483648)
    (lowest : v = -2147483648 → width ≤ 20) : HasForm v width where
  exists_iff := by rw [exists_write_iff, limit_eq]
  error large := by
    rw [← limit_eq] at large ⊢
    exact write_of_large large
  read := write_eq_ok_iff.mp
  checkedWrite := checkedWrite_eq narrow lower upper lowest
  checkedRead {ds} written := by
    have above := ne_lowest (exists_write_iff.mp ⟨ds, written⟩) lowest
    exact checkedRead_of_write (by omega) upper written

end Numeral

/-! ### Words -/

namespace Word

/-- Words go together one to one with the integers in range, and with the texts of nine sign
characters.  Nothing on the way to the integers and back leaves thirty-two bits. -/
structure OneToOne : Prop where
  ofInt_iff {v : Int} {w : Word} : ofInt v = .ok w ↔ w.toInt = v
  range_toInt {v : Int} : (∃ w : Word, w.toInt = v) ↔ -9841 ≤ v ∧ v ≤ 9841
  parse_iff {s : String} {w : Word} : parse s = .ok w ↔ w.text = s
  range_text {s : String} : (∃ w : Word, w.text = s) ↔
    s.toList.length = 9 ∧ ∀ c ∈ s.toList, c = '-' ∨ c = 'o' ∨ c = '+'
  checkedRead (w : Word) : Numeral.checkedRead w.digits = some w.toInt
  checkedLow {v : Int} {w : Word} (made : ofInt v = .ok w) :
    Numeral.checkedLow 9 v = some w.trits

theorem read_digits (w : Word) : Numeral.read w.digits = w.toInt := by
  rw [Numeral.read_eq_value_reverse, digits, List.reverse_reverse, toInt]

theorem low_toInt (w : Word) : Numeral.low 9 w.toInt = w.trits := by
  have same := Numeral.low_value w.trits
  rwa [w.length_trits] at same

theorem oneToOne : OneToOne where
  ofInt_iff := ofInt_eq_ok_iff
  range_toInt {v} := by
    constructor
    · rintro ⟨w, rfl⟩
      exact ⟨w.neg_limit_le_toInt, w.toInt_le_limit⟩
    · rintro ⟨lower, upper⟩
      exact ⟨wrap _, toInt_wrap_of_le lower upper⟩
  parse_iff := parse_eq_ok_iff.trans eq_comm
  range_text {s} := by
    have literal := @isLiteral_iff s.toList
    rw [IsLiteral] at literal
    rw [literal]
    simp only [String.toList_inj]
  checkedRead w := by
    have short : w.digits.length ≤ 20 := by
      rw [length_digits]
      decide
    rw [(Numeral.checked_of_short short).1, read_digits]
  checkedLow {v w} made := by
    obtain rfl := ofInt_eq_ok_iff.mp made
    have lower := w.neg_limit_le_toInt
    have upper := w.toInt_le_limit
    rw [limit] at lower upper
    rw [Numeral.checkedLow_eq (by omega) (by omega), low_toInt]

end Word

namespace Numeral

/-- **Numerals** of a width go together one to one with the integers that they have room for, and
going either way needs no more bits than there are; words are the case of nine trits. -/
theorem forms_one_to_one :
    (∀ (v : Int) (width : Nat), width ≤ 39 → -2147483648 ≤ v → v ≤ 2147483647 →
      ¬ (v = -2147483648 ∧ 21 ≤ width) → HasForm v width) ∧
    (∀ ds : List Trit, ds.length ≤ 20 → write (read ds) ds.length = .ok ds ∧
      checkedRead ds = some (read ds) ∧ checkedWrite (read ds) ds.length = some (.ok ds)) ∧
    (∀ as bs : List Trit, as.length = bs.length → read as = read bs → as = bs) ∧
    Word.OneToOne := by
  refine ⟨fun v width narrow lower upper other => ?_, fun ds short => ?_,
    fun as bs length => (read_inj length).mp, Word.oneToOne⟩
  · exact hasForm narrow lower (by omega) fun same => by
      by_contra wide
      exact other ⟨same, by omega⟩
  · exact ⟨write_eq_ok_iff.mpr ⟨rfl, rfl⟩, checked_of_short short⟩

/-- The lowest integer but one at the largest width, the lowest one at the largest width that has
no room for it, the largest numeral of twenty trits, and the numeral of five. -/
theorem forms_one_to_one_lowest :
    checkedWrite (-2147483647) 39 = some (write (-2147483647) 39) ∧
      write (-2147483648) 20 = .error ⟨-2147483648, -1743392200, 1743392200⟩ ∧
      checkedRead (List.replicate 20 .plus) = some (read (List.replicate 20 .plus)) ∧
      (low 3 5).reverse = [.plus, .minus, .minus] := by
  obtain ⟨forms, short, unique, -⟩ := forms_one_to_one
  have lowest := forms (-2147483648) 20 (by decide) (by decide) (by decide) (by decide)
  exact ⟨(forms (-2147483647) 39 (by decide) (by decide) (by decide) (by decide)).checkedWrite,
    lowest.error (by decide), (short (List.replicate 20 .plus) (by decide)).2.1,
    unique (low 3 5).reverse [.plus, .minus, .minus] rfl rfl⟩

end Numeral

end TernaryMachine
