/-! # Balanced ternary digits

A *trit* is one of the three digits `-1`, `0` and `+1`.

* **Three names.**  A trit is written as a sign character (`-`, `o`, `+`), as an integer
  (`Trit.toInt`) and as a two-bit code whose low bit marks `+1` and whose high bit marks `-1`
  (`Trit.code`).  Each of the three readers is partial and inverts its writer.
* **Logic.**  `min`, `max`, `xor`, `consensus` and `any` are the connectives that a word applies
  position by position.
* **Arithmetic.**  `fullAdd` adds three trits into a sum and a carry, and `mul` never carries. -/

namespace TernaryMachine

/-- A balanced ternary digit. -/
inductive Trit where
  | minus
  | zero
  | plus
deriving DecidableEq, Repr

namespace Trit

instance : Inhabited Trit := ⟨zero⟩

def all : List Trit :=
  [minus, zero, plus]

/-! ### Integers, characters and codes -/

def toInt : Trit → Int
  | minus => -1
  | zero => 0
  | plus => 1

/-- The trit of `-1`, `0` or `1`. -/
def ofInt? : Int → Option Trit
  | -1 => some minus
  | 0 => some zero
  | 1 => some plus
  | _ => none

theorem ofInt?_toInt (t : Trit) : ofInt? t.toInt = some t := by
  cases t <;> rfl

theorem neg_one_le_toInt (t : Trit) : -1 ≤ t.toInt := by
  cases t <;> decide

theorem toInt_le_one (t : Trit) : t.toInt ≤ 1 := by
  cases t <;> decide

theorem toInt_inj {a b : Trit} : a.toInt = b.toInt ↔ a = b := by
  cases a <;> cases b <;> decide

/-- The sign of an integer. -/
def sign (n : Int) : Trit :=
  if 0 < n then plus else if n < 0 then minus else zero

theorem toInt_sign (n : Int) : (sign n).toInt = n.sign := by
  unfold sign
  split
  · next pos => exact (Int.sign_eq_one_of_pos pos).symm
  · split
    · next neg => exact (Int.sign_eq_neg_one_of_neg neg).symm
    · have zero : n = 0 := by omega
      rw [zero]
      rfl

/-- The sign character of a trit. -/
def toChar : Trit → Char
  | minus => '-'
  | zero => 'o'
  | plus => '+'

/-- The trit written by a sign character. -/
def ofChar? : Char → Option Trit
  | '-' => some minus
  | 'o' => some zero
  | '+' => some plus
  | _ => none

theorem ofChar?_toChar (t : Trit) : ofChar? t.toChar = some t := by
  cases t <;> rfl

/-- The two-bit code of a trit: the low bit marks `plus`, the high bit marks `minus`. -/
def code : Trit → Nat
  | zero => 0
  | plus => 1
  | minus => 2

/-- The trit of a two-bit code; `3` is no trit. -/
def ofCode? : Nat → Option Trit
  | 0 => some zero
  | 1 => some plus
  | 2 => some minus
  | _ => none

theorem ofCode?_code (t : Trit) : ofCode? t.code = some t := by
  cases t <;> rfl

/-- The one-letter name of a trit: negative, zero (the letter `O`) or positive. -/
def letter : Trit → String
  | minus => "N"
  | zero => "O"
  | plus => "P"

/-- Holds of the trit `zero` alone. -/
def isZero (t : Trit) : Bool :=
  t == zero

/-! ### Connectives -/

def neg (t : Trit) : Trit :=
  sign (-t.toInt)

instance : Neg Trit := ⟨neg⟩

def min (a b : Trit) : Trit :=
  if a.toInt ≤ b.toInt then a else b

def max (a b : Trit) : Trit :=
  if b.toInt ≤ a.toInt then a else b

/-- Exclusive or: `zero` is the identity and any two other trits cancel. -/
def xor : Trit → Trit → Trit
  | zero, b => b
  | a, zero => a
  | _, _ => zero

/-- The common value of two equal trits, and `zero` of two different ones. -/
def consensus (a b : Trit) : Trit :=
  if a = b then a else zero

/-- The sign of the sum. -/
def any (a b : Trit) : Trit :=
  sign (a.toInt + b.toInt)

/-! ### Arithmetic -/

/-- The product; it never carries. -/
def mul (a b : Trit) : Trit :=
  sign (a.toInt * b.toInt)

/-- The sum and the carry of three trits. -/
def fullAdd (a b c : Trit) : Trit × Trit :=
  match a.toInt + b.toInt + c.toInt with
  | -3 => (zero, minus)
  | -2 => (plus, minus)
  | -1 => (minus, zero)
  | 1 => (plus, zero)
  | 2 => (minus, plus)
  | 3 => (zero, plus)
  | _ => (zero, zero)

theorem fullAdd_value (a b c : Trit) :
    (fullAdd a b c).1.toInt + 3 * (fullAdd a b c).2.toInt = a.toInt + b.toInt + c.toInt := by
  cases a <;> cases b <;> cases c <;> rfl

theorem toInt_mul (a b : Trit) : (mul a b).toInt = a.toInt * b.toInt := by
  cases a <;> cases b <;> rfl

theorem toInt_neg (t : Trit) : (neg t).toInt = -t.toInt := by
  cases t <;> rfl

end Trit

end TernaryMachine
