import TernaryMachine.Numeral
/-! # Words

A *word* is nine trits: a memory cell, the contents of a register, an instruction or an address.

* **Integers.**  `Word.toInt` is the integer of a word, between `-9841` and `9841`.  Every integer
  in that range is the integer of one word; `Word.ofInt` refuses the others and `Word.wrap` takes
  them modulo `3 ^ 9 = 19683`, which is what arithmetic does that drops its last carry.
* **Text.**  A word is written as its nine sign characters, most significant first;
  `Word.parse` reads them back and refuses every other string.
* **Positions.**  `Word.get?` and `Word.set?` name a trit by its power of three. -/

namespace TernaryMachine

/-- What is wrong with the literal of a word. -/
inductive LiteralFault where
  /-- A sign string has another length than a word. -/
  | length (count : Nat)
  /-- A character is no sign character. -/
  | character (c : Char)
  /-- There are more trits than a word holds. -/
  | overflow (count : Nat)
deriving DecidableEq, Repr

namespace LiteralFault

def message : LiteralFault → String
  | length count => s!"expected 9 trits, got {count}"
  | character c => s!"invalid trit character '{c}' (expected '-', 'o' or '+')"
  | overflow count => s!"{count} trits do not fit in a word"

end LiteralFault

/-- Why there is no word for a literal or for an integer. -/
inductive WordError where
  /-- The literal is malformed. -/
  | format (literal : String) (fault : LiteralFault)
  /-- The integer is out of range. -/
  | range (fault : RangeError)
deriving DecidableEq, Repr

namespace WordError

def message : WordError → String
  | format literal fault => "malformed word literal `" ++ literal ++ "`: " ++ fault.message
  | range fault => fault.message

end WordError

/-- Nine trits, low order first. -/
structure Word where
  trits : List Trit
  length_trits : trits.length = 9
deriving DecidableEq, Repr

namespace Word

/-! ### Integers -/

/-- The number of words, `3 ^ 9`. -/
def count : Nat := 19683

/-- The largest integer of a word; the smallest is its opposite. -/
def limit : Int := 9841

def toInt (w : Word) : Int :=
  Numeral.value w.trits

theorem toInt_le_limit (w : Word) : w.toInt ≤ limit := by
  have := Numeral.value_le_limit w.trits
  rw [w.length_trits] at this
  exact this

theorem neg_limit_le_toInt (w : Word) : -limit ≤ w.toInt := by
  have := Numeral.neg_limit_le_value w.trits
  rw [w.length_trits] at this
  exact this

/-- The word of the nine low trits of an integer. -/
def encode (v : Int) : Word :=
  ⟨Numeral.low 9 v, Numeral.length_low 9 v⟩

/-- The word of an integer modulo `3 ^ 9`. -/
def wrap (v : Int) : Word :=
  encode (v.bmod count)

/-- The word of an integer in range. -/
def ofInt (v : Int) : Except WordError Word :=
  if -limit ≤ v ∧ v ≤ limit then
    .ok (encode v)
  else
    .error (.range ⟨v, -limit, limit⟩)

def zero : Word :=
  ⟨List.replicate 9 .zero, rfl⟩

instance : Inhabited Word := ⟨zero⟩

/-- The word after this one; the last word is followed by the first. -/
def succ (w : Word) : Word :=
  wrap (w.toInt + 1)

/-! ### Trits -/

/-- The trits in text order, most significant first. -/
def digits (w : Word) : List Trit :=
  w.trits.reverse

theorem length_digits (w : Word) : w.digits.length = 9 := by
  simp [digits, w.length_trits]

/-- The word of at most nine trits in text order; missing high trits are `zero`. -/
def ofDigits (ds : List Trit) : Except WordError Word :=
  if h : ds.length ≤ 9 then
    .ok ⟨ds.reverse ++ List.replicate (9 - ds.length) .zero, by simp; omega⟩
  else
    .error (.format (Numeral.text ds) (.overflow ds.length))

/-- The coefficient of `3 ^ power`. -/
def get? (w : Word) (power : Nat) : Option Trit :=
  w.trits[power]?

/-- The word with another coefficient of `3 ^ power`. -/
def set? (w : Word) (power : Nat) (t : Trit) : Option Word :=
  if power < 9 then some ⟨w.trits.set power t, by simp [w.length_trits]⟩ else none

/-- Applies a function to every trit. -/
def map (f : Trit → Trit) (w : Word) : Word :=
  ⟨w.trits.map f, by simp [w.length_trits]⟩

/-- Combines the trits of two words position by position. -/
def zipWith (f : Trit → Trit → Trit) (a b : Word) : Word :=
  ⟨List.zipWith f a.trits b.trits, by simp [a.length_trits, b.length_trits]⟩

/-- The opposite word: every trit is replaced by its opposite. -/
def neg (w : Word) : Word :=
  w.map Trit.neg

instance : Neg Word := ⟨neg⟩

def isZero (w : Word) : Bool :=
  w.trits.all Trit.isZero

/-- The most significant trit other than `zero`, or `zero` if there is none. -/
def sign (w : Word) : Trit :=
  (w.digits.find? fun t => !t.isZero).getD .zero

/-! ### Text -/

def text (w : Word) : String :=
  Numeral.text w.digits

instance : ToString Word := ⟨text⟩

/-- Reads sign characters up to the first character that is none. -/
def readTrits : List Char → Except Char (List Trit)
  | [] => .ok []
  | c :: cs =>
    match Trit.ofChar? c with
    | none => .error c
    | some t =>
      match readTrits cs with
      | .ok ts => .ok (t :: ts)
      | .error bad => .error bad

theorem length_of_readTrits_eq_ok {cs : List Char} {ts : List Trit}
    (h : readTrits cs = .ok ts) : ts.length = cs.length := by
  induction cs generalizing ts with
  | nil => cases h; rfl
  | cons c cs ih =>
    simp only [readTrits] at h
    split at h
    · cases h
    · split at h
      · cases h
        rename_i rest
        simp [ih rest]
      · cases h

/-- Reads a sign string of nine characters. -/
def parse (s : String) : Except WordError Word :=
  if length : s.toList.length = 9 then
    match h : readTrits s.toList with
    | .error c => .error (.format s (.character c))
    | .ok ds => .ok ⟨ds.reverse, by simp [length_of_readTrits_eq_ok h, length]⟩
  else
    .error (.format s (.length s.toList.length))

/-- The text of a word for inspection: its sign string and its integer. -/
def inspect (w : Word) : String :=
  s!"Word({w.text} = {w.toInt})"

end Word

end TernaryMachine
