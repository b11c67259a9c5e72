import TernaryMachine.Trit
/-! # Balanced ternary numerals

A *numeral* is a list of trits.  Two orders are in use.

* **Low order first.**  The trit at index `i` is the coefficient of `3 ^ i`.  Words keep their
  trits in this order, and arithmetic walks along it; `Numeral.value` is the integer.
* **Text order.**  The most significant trit comes first, as a numeral is written;
  `Numeral.read` is the integer, and `Numeral.write` is the numeral of a given length.

`Numeral.low n v` are the `n` low trits of `v`: it keeps `v` modulo `3 ^ n`, and all of `v` when
`|v| ≤ (3 ^ n - 1) / 2`. -/

namespace TernaryMachine

/-- The integer does not fit in the trits at hand. -/
structure RangeError where
  value : Int
  min : Int
  max : Int
deriving DecidableEq, Repr

namespace RangeError

def message (e : RangeError) : String :=
  s!"value {e.value} out of range [{e.min}, {e.max}]"

end RangeError

namespace Numeral

/-- The integer of a numeral, low order first. -/
def value : List Trit → Int
  | [] => 0
  | t :: ts => t.toInt + 3 * value ts

@[simp] theorem value_nil : value [] = 0 := rfl

@[simp] theorem value_cons (t : Trit) (ts : List Trit) :
    value (t :: ts) = t.toInt + 3 * value ts := rfl

/-- The integer of a numeral in text order. -/
def read (digits : List Trit) : Int :=
  digits.foldl (fun acc t => acc * 3 + t.toInt) 0

/-- The lowest balanced trit of an integer. -/
def lowTrit (v : Int) : Trit :=
  match v % 3 with
  | 0 => .zero
  | 1 => .plus
  | _ => .minus

/-- The `n` low trits of an integer, low order first. -/
def low : Nat → Int → List Trit
  | 0, _ => []
  | n + 1, v => lowTrit v :: low n ((v - (lowTrit v).toInt) / 3)

@[simp] theorem length_low (n : Nat) (v : Int) : (low n v).length = n := by
  induction n generalizing v with
  | zero => rfl
  | succ n ih => simp [low, ih]

/-- The largest integer that fits in the given number of trits: the value of `+` in every place. -/
def limit : Nat → Int
  | 0 => 0
  | width + 1 => 3 * limit width + 1

theorem value_le_limit (ts : List Trit) : value ts ≤ limit ts.length := by
  induction ts with
  | nil => decide
  | cons t ts ih =>
    have := t.toInt_le_one
    simp only [value_cons, List.length_cons, limit]
    omega

theorem neg_limit_le_value (ts : List Trit) : -limit ts.length ≤ value ts := by
  induction ts with
  | nil => decide
  | cons t ts ih =>
    have := t.neg_one_le_toInt
    simp only [value_cons, List.length_cons, limit]
    omega

/-- The numeral of an integer in text order, with exactly `width` trits. -/
def write (v : Int) (width : Nat) : Except RangeError (List Trit) :=
  if limit width < v.natAbs then
    .error ⟨v, -limit width, limit width⟩
  else
    .ok (low width v).reverse

theorem length_of_write_eq_ok {v : Int} {width : Nat} {digits : List Trit}
    (h : write v width = .ok digits) : digits.length = width := by
  simp only [write] at h
  split at h
  · cases h
  · cases h
    simp

/-- The sign string of a numeral. -/
def text (digits : List Trit) : String :=
  String.ofList (digits.map Trit.toChar)

end Numeral

end TernaryMachine
