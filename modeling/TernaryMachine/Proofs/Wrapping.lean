import Mathlib.Algebra.Ring.InjSurj
import Mathlib.Data.Int.ModEq
import TernaryMachine.Proofs.NumeralForms
import TernaryMachine.Register
/-! # Wrapping

Wrapping takes an integer to the word of its remainder modulo `3 ^ 9 = 19683`.  Every operation on
words that drops its last carry goes along with it.

* **Remainders.**  `wrap v` is the only word whose integer is congruent to `v`
  (`Word.toInt_modEq_iff`).
* **Operations.**  Sums, differences, products and opposites of wrapped integers are the wrapped
  sums, differences, products and opposites (`Word.add_wrap` and the lemmas after it).  So words are
  a commutative ring, and `Word.wrapHom` is the homomorphism from the integers onto it.
* **Machine integers.**  `Word.checkedWrap` reduces an integer of thirty-two bits in sixty-four
  bits, by a remainder that is never negative, and `Registers.checkedAdvance` moves the program
  counter with it.  They never run out of bits where `wrap` and `advance` are asked for an integer
  of thirty-two bits (`Word.checkedWrap_eq`, `Registers.checkedAdvance_eq_some_iff`). -/

namespace TernaryMachine

namespace Word

variable {w : Word} {v : Int}

/-! ### Remainders -/

theorem wrap_eq_wrap_iff_modEq {u v : Int} : wrap u = wrap v ↔ u ≡ v [ZMOD 19683] := by
  rw [wrap_eq_wrap_iff]
  constructor
  · intro same
    have remainders := congrArg (· % (count : Int)) same
    simp only [Int.bmod_emod] at remainders
    exact remainders
  · intro congruent
    have same : u % (count : Int) = v % (count : Int) := congruent
    rw [← Int.emod_bmod, same, Int.emod_bmod]

/-- There is one word in every class of integers. -/
theorem toInt_modEq_iff : w.toInt ≡ v [ZMOD 19683] ↔ w = wrap v := by
  rw [← wrap_eq_wrap_iff_modEq, wrap_toInt]

theorem toInt_wrap_modEq (v : Int) : (wrap v).toInt ≡ v [ZMOD 19683] :=
  toInt_modEq_iff.mpr rfl

theorem wrap_of_ofInt (made : ofInt v = .ok w) : wrap v = w := by
  rw [← ofInt_eq_ok_iff.mp made, wrap_toInt]

/-! ### Operations -/

theorem add_eq_wrap (a b : Word) : (a.add b).word = wrap (a.toInt + b.toInt) := by
  rw [← toInt_inj, toInt_wrap, add, toInt_word_addWithCarry, Trit.toInt, add_zero]

theorem subtract_eq_wrap (a b : Word) : (a.subtract b).word = wrap (a.toInt - b.toInt) := by
  rw [subtract, add_eq_wrap, toInt_neg, sub_eq_add_neg]

theorem multiply_eq_wrap (a b : Word) : (a.multiply b).low = wrap (a.toInt * b.toInt) := by
  rw [← toInt_inj, toInt_wrap, toInt_multiply]

theorem neg_eq_wrap (a : Word) : a.neg = wrap (-a.toInt) := by
  rw [← toInt_neg, wrap_toInt]

theorem add_wrap (a b : Int) : ((wrap a).add (wrap b)).word = wrap (a + b) := by
  rw [add_eq_wrap, wrap_eq_wrap_iff_modEq]
  exact (toInt_wrap_modEq a).add (toInt_wrap_modEq b)

theorem subtract_wrap (a b : Int) : ((wrap a).subtract (wrap b)).word = wrap (a - b) := by
  rw [subtract_eq_wrap, wrap_eq_wrap_iff_modEq]
  exact (toInt_wrap_modEq a).sub (toInt_wrap_modEq b)

theorem multiply_wrap (a b : Int) : ((wrap a).multiply (wrap b)).low = wrap (a * b) := by
  rw [multiply_eq_wrap, wrap_eq_wrap_iff_modEq]
  exact (toInt_wrap_modEq a).mul (toInt_wrap_modEq b)

theorem neg_wrap (a : Int) : (wrap a).neg = wrap (-a) := by
  rw [neg_eq_wrap, wrap_eq_wrap_iff_modEq]
  exact (toInt_wrap_modEq a).neg

theorem wrap_surjective : Function.Surjective wrap := by
  intro w
  exact ⟨w.toInt, wrap_toInt w⟩

/-! ### The ring of words -/

instance : Zero Word := ⟨zero⟩

instance : One Word := ⟨wrap 1⟩

instance : Add Word := ⟨fun a b => (a.add b).word⟩

instance : Sub Word := ⟨fun a b => (a.subtract b).word⟩

instance : Mul Word := ⟨fun a b => (a.multiply b).low⟩

instance : NatCast Word := ⟨fun n => wrap n⟩

instance : IntCast Word := ⟨wrap⟩

instance : SMul Nat Word := ⟨fun n w => wrap (n * w.toInt)⟩

instance : SMul Int Word := ⟨fun n w => wrap (n * w.toInt)⟩

instance : Pow Word Nat := ⟨fun w n => wrap (w.toInt ^ n)⟩

theorem wrap_mul_toInt_wrap (n v : Int) : wrap (n * (wrap v).toInt) = wrap (n * v) := by
  rw [wrap_eq_wrap_iff_modEq]
  exact (toInt_wrap_modEq v).mul_left n

theorem wrap_pow (v : Int) (n : Nat) : wrap (v ^ n) = wrap v ^ n := by
  change wrap (v ^ n) = wrap ((wrap v).toInt ^ n)
  rw [wrap_eq_wrap_iff_modEq]
  exact (toInt_wrap_modEq v).symm.pow n

/-- The laws of the integers hold of words, since every word is a wrapped integer. -/
instance : CommRing Word :=
  Function.Surjective.commRing wrap wrap_surjective (by decide) rfl
    (fun a b => (add_wrap a b).symm) (fun a b => (multiply_wrap a b).symm)
    (fun a => (neg_wrap a).symm) (fun a b => (subtract_wrap a b).symm)
    (fun n v => by rw [nsmul_eq_mul, ← wrap_mul_toInt_wrap]; rfl)
    (fun n v => by rw [zsmul_eq_mul, ← wrap_mul_toInt_wrap]; rfl)
    wrap_pow (fun _ => rfl) (fun _ => rfl)

def wrapHom : Int →+* Word :=
  Int.castRingHom Word

theorem coe_wrapHom : ⇑wrapHom = wrap :=
  rfl

/-! ### Machine integers -/

/-- The word of a list of nine trits, low order first. -/
def ofTrits? (ts : List Trit) : Option Word :=
  if h : ts.length = 9 then some ⟨ts, h⟩ else none

theorem ofTrits?_trits (w : Word) : ofTrits? w.trits = some w :=
  dif_pos w.length_trits

/-- Wraps an integer with all results kept in the bits that there are.  The remainder is taken in
sixty-four bits, where it is at least zero, and its thirty-two low bits are taken apart. -/
def checkedWrap (v : Int) : Option Word := do
  let raised ← Numeral.keep? Numeral.half64 (v + limit)
  let reduced ← Numeral.keep? Numeral.half64 (raised % count - limit)
  let trits ← Numeral.checkedLow 9 (reduced.bmod 4294967296)
  ofTrits? trits

/-- The balanced remainder, by way of the one that is at least zero. -/
theorem raised_emod_sub_limit (v : Int) : (v + limit) % count - limit = v.bmod count := by
  unfold Int.bmod
  simp only [count, limit]
  omega

theorem checkedWrap_eq (lower : -2147483648 ≤ v) (upper : v ≤ 2147483647) :
    checkedWrap v = some (wrap v) := by
  have low := (wrap v).neg_limit_le_toInt
  have high := (wrap v).toInt_le_limit
  have raised : Numeral.keep? Numeral.half64 (v + limit) = some (v + limit) := by
    simp only [limit] at *
    exact Numeral.keep?_half64 (by omega) (by omega)
  rw [checkedWrap, raised]
  simp only [Option.bind_eq_bind, Option.bind_some]
  rw [raised_emod_sub_limit, ← toInt_wrap]
  simp only [limit] at low high
  rw [Numeral.keep?_half64 (by omega) (by omega), Option.bind_some,
    Int.bmod_eq_of_le (by omega) (by omega), Numeral.checkedLow_eq (by omega) (by omega), low_toInt,
    Option.bind_some, ofTrits?_trits]

end Word

/-! ### The program counter -/

namespace Registers

variable {regs regs' : Registers} {n : Int}

/-- Moves the program counter on, with all results kept in the bits that there are. -/
def checkedAdvance (regs : Registers) (n : Int) : Option Registers := do
  let here ← Numeral.checkedRead regs.pc.digits
  let there ← Numeral.keep? Numeral.half32 (here + n)
  let pc ← Word.checkedWrap there
  return { regs with pc }

theorem advance_advance (regs : Registers) (m n : Int) :
    (regs.advance m).advance n = regs.advance (m + n) := by
  have there : Word.wrap ((Word.wrap (regs.pc.toInt + m)).toInt + n) =
      .wrap (regs.pc.toInt + (m + n)) := by
    rw [Word.wrap_eq_wrap_iff_modEq, ← add_assoc]
    exact (Word.toInt_wrap_modEq _).add_right n
  simp only [advance, there]

theorem checkedAdvance_eq_some_iff : regs.checkedAdvance n = some regs' ↔
    (-2147483648 ≤ regs.pc.toInt + n ∧ regs.pc.toInt + n ≤ 2147483647) ∧
      regs' = regs.advance n := by
  rw [checkedAdvance, Word.oneToOne.checkedRead]
  simp only [Option.bind_eq_bind, Option.bind_some]
  rw [Numeral.keep?, Numeral.half32]
  split
  · next fits =>
    rw [Option.bind_some, Word.checkedWrap_eq fits.1 (by omega)]
    simp only [Option.bind_some, Option.pure_def, Option.some.injEq]
    constructor
    · intro same
      exact ⟨⟨fits.1, by omega⟩, same.symm⟩
    · intro same
      exact same.2.symm
  · next large =>
    simp only [Option.bind_none, reduceCtorEq, false_iff]
    omega

end Registers

namespace Word

/-- Wrapping takes the integers modulo `3 ^ 9`, and what is done to integers is done to words. -/
structure WrapLaws : Prop where
  checked {v : Int} (lower : -2147483648 ≤ v) (upper : v ≤ 2147483647) :
    checkedWrap v = some (wrap v)
  congruent_iff {v : Int} {w : Word} : w.toInt ≡ v [ZMOD 19683] ↔ w = wrap v
  ofInt {v : Int} {w : Word} (made : ofInt v = .ok w) : wrap v = w
  add (a b : Int) : ((wrap a).add (wrap b)).word = wrap (a + b)
  subtract (a b : Int) : ((wrap a).subtract (wrap b)).word = wrap (a - b)
  multiply (a b : Int) : ((wrap a).multiply (wrap b)).low = wrap (a * b)
  negate (a : Int) : (wrap a).neg = wrap (-a)
  /-- The operations of the ring of words are the four above. -/
  hom : ∃ f : Int →+* Word, ⇑f = wrap ∧ Function.Surjective f
  advance (regs : Registers) (m n : Int) : (regs.advance m).advance n = regs.advance (m + n)
  checkedAdvance_iff {regs regs' : Registers} {n : Int} : regs.checkedAdvance n = some regs' ↔
    (-2147483648 ≤ regs.pc.toInt + n ∧ regs.pc.toInt + n ≤ 2147483647) ∧ regs' = regs.advance n

/-- **Wrapping is a homomorphism** from the integers onto words, and so the program counter may be
moved in one step or in two. -/
theorem wrap_laws : WrapLaws where
  checked := checkedWrap_eq
  congruent_iff := toInt_modEq_iff
  ofInt := wrap_of_ofInt
  add := add_wrap
  subtract := subtract_wrap
  multiply := multiply_wrap
  negate := neg_wrap
  hom := ⟨wrapHom, coe_wrapHom, wrap_surjective⟩
  advance := Registers.advance_advance
  checkedAdvance_iff := Registers.checkedAdvance_eq_some_iff

/-- The lowest integer of thirty-two bits, the lowest word, a product that needs almost all bits,
and the longest way back from the last cell of memory. -/
theorem wrap_laws_lowest :
    checkedWrap (-2147483648) = some (wrap (-9299)) ∧
      wrap (-9841) = ⟨List.replicate 9 .minus, rfl⟩ ∧
      ((wrap 46340).multiply (wrap (-46341))).low = wrap (-6957) ∧
      (Registers.empty.jump (wrap 9841)).checkedAdvance (-2147483648) =
        some (Registers.empty.jump (wrap 542)) := by
  obtain ⟨checked, -, ofInt, -, -, multiply, -, -, -, checkedAdvance_iff⟩ := wrap_laws
  have lowest : wrap (-2147483648) = wrap (-9299) := by decide
  have product : wrap (46340 * -46341) = wrap (-6957) := by decide
  refine ⟨?_, ofInt (v := -9841) (by decide), ?_, ?_⟩
  · rw [checked (by decide) (by decide), lowest]
  · rw [multiply, product]
  · exact checkedAdvance_iff.mpr ⟨⟨by decide, by decide⟩, by decide⟩

end Word

end TernaryMachine
