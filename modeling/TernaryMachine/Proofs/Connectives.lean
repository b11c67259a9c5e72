import Mathlib.Logic.Function.Conjugate
import TernaryMachine.Alu
import TernaryMachine.Proofs.Field
/-! # Connectives on a field

An operation on a field combines the trits of the field with those of an operand, position by
position, and leaves the others alone.

* **Fields.**  `AluOp.applyWithin_eq_ok_iff` says when an operation is carried out and all that it
  does then.  `AluOp.update` is the accumulator afterwards in either case, and
  `AluOp.digitAt_update` is its trit at every position; the laws of operations one after the other
  follow from that alone.
* **Bounds.**  `AluOp.applyInPlace` is the operation with bounds of sixty-four bits, whose sum may
  have no place in sixty-four bits.  It does the same (`AluOp.applyInPlace_eq`). -/

namespace TernaryMachine

/-! ### Positions -/

namespace Word

/-- The word of the trits at the nine text positions. -/
def ofFn (f : Fin 9 → Trit) : Word :=
  ⟨(List.ofFn f).reverse, by simp⟩

theorem digitAt_ofFn (f : Fin 9 → Trit) (k : Fin 9) : (ofFn f).digitAt k = f k := by
  apply digitAt_eq_of_getElem?
  rw [digits, ofFn, List.reverse_reverse, List.getElem?_ofFn, dif_pos k.isLt]

theorem digitAt_zipWith (f : Trit → Trit → Trit) (a b : Word) (k : Fin 9) :
    (a.zipWith f b).digitAt k = f (a.digitAt k) (b.digitAt k) := by
  apply digitAt_eq_of_getElem?
  have reversed : (a.zipWith f b).digits = List.zipWith f a.digits b.digits :=
    List.reverse_zipWith (a.length_trits.trans b.length_trits.symm)
  rw [reversed, List.getElem?_zipWith, getElem?_digits, getElem?_digits]

theorem digitAt_splice_slice (a b : Word) (f : Field) (k : Fin 9) :
    (a.splice f (b.slice f) (b.length_slice f)).digitAt k =
      if f.start ≤ k ∧ k < f.start + f.width then b.digitAt k else a.digitAt k := by
  rw [digitAt_splice]
  by_cases here : k ∈ f
  · have within := Field.mem_iff.mp here
    rw [if_pos here, if_pos within, slice_eq_ofFn, List.getD_eq_getElem?_getD, List.getElem?_ofFn,
      dif_pos (by omega), Option.getD_some]
    congr 1
    exact Fin.ext (Nat.add_sub_cancel' within.1)
  · rw [if_neg here, if_neg (Field.mem_iff.not.mp here)]

end Word

namespace AluOp

variable {op : AluOp} {acc operand w : Word} {start width : Nat} {f : Trit → Trit → Trit}

/-! ### One operation -/

/-- What an operation does with the two trits of a position, if it works on each position alone. -/
def connective? : AluOp → Option (Trit → Trit → Trit)
  | min => some Trit.min
  | max => some Trit.max
  | xor => some Trit.xor
  | consensus => some Trit.consensus
  | any => some Trit.any
  | _ => none

theorem isConnective_iff : op.isConnective = true ↔ ∃ f, op.connective? = some f := by
  cases op <;> simp [isConnective, connective?]

theorem isConnective_iff_mem : op.isConnective = true ↔ op ∈ [min, max, xor, consensus, any] := by
  cases op <;> decide

theorem apply_of_connective (h : op.connective? = some f) (acc operand : Word) (carry : Trit) :
    op.apply acc operand carry = ⟨acc.zipWith f operand, .zero⟩ := by
  cases op <;> cases h <;> rfl

theorem applyWithin_of_connective (h : op.connective? = some f) (some_trit : 0 < width)
    (inside : start + width ≤ 9) (acc operand : Word) :
    op.applyWithin acc operand start width =
      .ok (acc.splice ⟨start, width, inside⟩ ((acc.zipWith f operand).slice ⟨start, width, inside⟩)
        (Word.length_slice _ _)) := by
  rw [applyWithin, if_pos (isConnective_iff.mpr ⟨f, h⟩), if_neg (by omega), Field.ofBounds?,
    dif_pos inside]
  simp only [apply_of_connective h]

/-- What is wrong with an operation that is refused; the operation is looked at before the
field. -/
theorem applyWithin_eq_error_iff {e : AluError} :
    op.applyWithin acc operand start width = .error e ↔
      op.isConnective = false ∧ e = .notConnective op ∨
        op.isConnective = true ∧ (width = 0 ∨ 9 < start + width) ∧ e = .outside start width := by
  cases connective : op.isConnective with
  | false =>
    rw [applyWithin, if_neg (by simp [connective])]
    simp [eq_comm]
  | true =>
    by_cases fits : 0 < width ∧ start + width ≤ 9
    · obtain ⟨f, h⟩ := isConnective_iff.mp connective
      rw [applyWithin_of_connective h fits.1 fits.2]
      simp
      omega
    · have refused : op.applyWithin acc operand start width = .error (.outside start width) := by
        rw [applyWithin, if_pos connective]
        split
        · rfl
        · rw [Field.ofBounds?, dif_neg (by omega)]
      rw [refused]
      simp [eq_comm]
      omega

theorem exists_applyWithin (h : op.connective? = some f) (some_trit : 0 < width)
    (inside : start + width ≤ 9) (acc operand : Word) :
    ∃ w, op.applyWithin acc operand start width = .ok w ∧
      ∀ k : Fin 9, w.digitAt k =
        if start ≤ k ∧ k < start + width then f (acc.digitAt k) (operand.digitAt k)
        else acc.digitAt k := by
  refine ⟨_, applyWithin_of_connective h some_trit inside acc operand, fun k => ?_⟩
  rw [Word.digitAt_splice_slice, Word.digitAt_zipWith]

theorem exists_applyWithin_iff :
    (∃ w, op.applyWithin acc operand start width = .ok w) ↔
      op.isConnective = true ∧ 0 < width ∧ start + width ≤ 9 := by
  constructor
  · rintro ⟨w, done⟩
    by_contra refused
    have failed {e : AluError} : op.applyWithin acc operand start width ≠ .error e := by
      rw [done]
      simp
    cases connective : op.isConnective with
    | false => exact failed (applyWithin_eq_error_iff.mpr (.inl ⟨connective, rfl⟩))
    | true =>
      have outside : width = 0 ∨ 9 < start + width := by
        have fits : ¬ (0 < width ∧ start + width ≤ 9) := fun fits => refused ⟨connective, fits⟩
        omega
      exact failed (applyWithin_eq_error_iff.mpr (.inr ⟨connective, outside, rfl⟩))
  · rintro ⟨connective, some_trit, inside⟩
    obtain ⟨f, h⟩ := isConnective_iff.mp connective
    obtain ⟨w, done, -⟩ := exists_applyWithin h some_trit inside acc operand
    exact ⟨w, done⟩

theorem applyWithin_eq_ok_iff :
    op.applyWithin acc operand start width = .ok w ↔
      ∃ f, op.connective? = some f ∧ 0 < width ∧ start + width ≤ 9 ∧
        ∀ k : Fin 9, w.digitAt k =
          if start ≤ k ∧ k < start + width then f (acc.digitAt k) (operand.digitAt k)
          else acc.digitAt k := by
  constructor
  · intro done
    obtain ⟨connective, some_trit, inside⟩ := exists_applyWithin_iff.mp ⟨w, done⟩
    obtain ⟨f, h⟩ := isConnective_iff.mp connective
    obtain ⟨w', done', digits⟩ := exists_applyWithin h some_trit inside acc operand
    obtain rfl : w = w' := Except.ok.inj (done.symm.trans done')
    exact ⟨f, h, some_trit, inside, digits⟩
  · rintro ⟨f, h, some_trit, inside, digits⟩
    obtain ⟨w', done, digits'⟩ := exists_applyWithin h some_trit inside acc operand
    rw [done, Except.ok.injEq]
    exact Word.ext_digitAt fun k => (digits' k).trans (digits k).symm

/-! ### Operations one after the other -/

/-- The accumulator after an operation on a field; it stays as it is if that is refused. -/
def update (op : AluOp) (operand : Word) (start width : Nat) (acc : Word) : Word :=
  match op.applyWithin acc operand start width with
  | .ok w => w
  | .error _ => acc

/-- What becomes of the trit of a position in the field; an operation that does not work on each
position alone does nothing to it. -/
def combine (op : AluOp) : Trit → Trit → Trit :=
  op.connective?.getD fun a _ => a

theorem digitAt_update (op : AluOp) (operand : Word) (start width : Nat) (acc : Word) (k : Fin 9) :
    (op.update operand start width acc).digitAt k =
      if start ≤ k ∧ k < start + width ∧ start + width ≤ 9 then
        op.combine (acc.digitAt k) (operand.digitAt k)
      else acc.digitAt k := by
  rw [update]
  split
  · next w done =>
    obtain ⟨f, h, some_trit, inside, digits⟩ := applyWithin_eq_ok_iff.mp done
    rw [digits, combine, h]
    simp [inside]
  · next e refused =>
    obtain ⟨other, -⟩ | ⟨-, outside, -⟩ := applyWithin_eq_error_iff.mp refused
    · have none : op.connective? = none := by
        rw [Option.eq_none_iff_forall_ne_some]
        intro f h
        rw [isConnective_iff.mpr ⟨f, h⟩] at other
        cases other
      rw [combine, none, Option.getD_none, ite_self]
    · rw [if_neg (by omega)]

/-- Operations on fields with no position in common may change places. -/
theorem commute_update (op₁ op₂ : AluOp) (operand₁ operand₂ : Word)
    {start₁ width₁ start₂ width₂ : Nat}
    (disjoint : start₁ + width₁ ≤ start₂ ∨ start₂ + width₂ ≤ start₁) :
    Function.Commute (op₁.update operand₁ start₁ width₁) (op₂.update operand₂ start₂ width₂) := by
  intro acc
  apply Word.ext_digitAt
  intro k
  simp only [digitAt_update]
  by_cases here : start₁ ≤ k ∧ k < start₁ + width₁ ∧ start₁ + width₁ ≤ 9
  · rw [if_pos here, if_pos here, if_neg (by omega), if_neg (by omega)]
  · rw [if_neg here, if_neg here]

/-- An operation on a field is the same one on both parts of it. -/
theorem update_update (op : AluOp) (operand : Word) {start width₁ width₂ : Nat}
    (inside : start + width₁ + width₂ ≤ 9) (acc : Word) :
    op.update operand (start + width₁) width₂ (op.update operand start width₁ acc) =
      op.update operand start (width₁ + width₂) acc := by
  apply Word.ext_digitAt
  intro k
  simp only [digitAt_update]
  rcases Nat.lt_or_ge k (start + width₁) with left | right
  · rw [if_neg (by omega)]
    congr 1
    simp only [eq_iff_iff]
    omega
  · rw [if_neg (show ¬ (start ≤ k ∧ k < start + width₁ ∧ _) by omega)]
    congr 1
    simp only [eq_iff_iff]
    omega

theorem applyWithin_whole (connective : op.isConnective = true) (acc operand : Word)
    (carry : Trit) : op.applyWithin acc operand 0 9 = .ok (op.apply acc operand carry).word := by
  obtain ⟨f, h⟩ := isConnective_iff.mp connective
  rw [apply_of_connective h, applyWithin_eq_ok_iff]
  refine ⟨f, h, by decide, by decide, fun k => ?_⟩
  rw [Word.digitAt_zipWith, if_pos ⟨Nat.zero_le _, by omega⟩]

/-! ### Bounds of sixty-four bits -/

/-- An accumulator after an operation on a field of it, and whether that was refused. -/
structure Applied where
  acc : Word
  result : Except AluError Unit
deriving DecidableEq

/-- The sum of two numbers of sixty-four bits, if it has a place in sixty-four bits. -/
def checkedSum? (a b : UInt64) : Option UInt64 :=
  if a.toNat + b.toNat < UInt64.size then some (a + b) else none

theorem checkedSum?_eq_some_iff {a b c : UInt64} :
    checkedSum? a b = some c ↔ c.toNat = a.toNat + b.toNat := by
  have bound := c.toNat_lt
  rw [checkedSum?]
  split
  · next fits =>
    have sum : (a + b).toNat = a.toNat + b.toNat := by
      rw [UInt64.toNat_add, Nat.mod_eq_of_lt fits]
    rw [Option.some.injEq, ← UInt64.toNat_inj, sum, eq_comm]
  · next large =>
    have other : c.toNat ≠ a.toNat + b.toNat := by
      rw [UInt64.size] at large
      omega
    simp [other]

/-- The place after a field, if the field has a trit and lies inside a word. -/
def stop? (start width : UInt64) : Option UInt64 :=
  (checkedSum? start width).filter fun stop => 0 < width && stop ≤ 9

theorem stop?_eq_some_iff {start width stop : UInt64} :
    stop? start width = some stop ↔
      stop.toNat = start.toNat + width.toNat ∧ 0 < width.toNat ∧
        start.toNat + width.toNat ≤ 9 := by
  rw [stop?, Option.filter_eq_some_iff, checkedSum?_eq_some_iff, Bool.and_eq_true,
    decide_eq_true_iff, decide_eq_true_iff, UInt64.lt_iff_toNat_lt, UInt64.le_iff_toNat_le]
  refine and_congr_right fun sum => ?_
  rw [sum]
  rfl

/-- A sum that needs more bits is that of no field inside a word. -/
theorem stop?_eq_none_iff {start width : UInt64} :
    stop? start width = none ↔ width.toNat = 0 ∨ 9 < start.toNat + width.toNat := by
  constructor
  · intro none
    by_contra fits
    have sum : (start + width).toNat = start.toNat + width.toNat := by
      rw [UInt64.toNat_add, Nat.mod_eq_of_lt (by omega)]
    have stop := stop?_eq_some_iff.mpr ⟨sum, by omega, by omega⟩
    rw [none] at stop
    cases stop
  · intro outside
    rw [Option.eq_none_iff_forall_ne_some]
    intro stop some
    obtain ⟨-, some_trit, inside⟩ := stop?_eq_some_iff.mp some
    omega

/-- Applies an operation to a field whose bounds have sixty-four bits.  The accumulator is combined
as a whole, and the trits of the field are copied over. -/
def applyInPlace (op : AluOp) (acc operand : Word) (start width : UInt64) : Applied :=
  if op.isConnective then
    match stop? start width with
    | none => ⟨acc, .error (.outside start.toNat width.toNat)⟩
    | some stop =>
      let combined := (op.apply acc operand .zero).word
      ⟨.ofFn fun k =>
        if start.toNat ≤ k ∧ k < stop.toNat then combined.digitAt k else acc.digitAt k, .ok ()⟩
  else
    ⟨acc, .error (.notConnective op)⟩

theorem applyInPlace_eq (op : AluOp) (acc operand : Word) (start width : UInt64) :
    op.applyInPlace acc operand start width =
      ⟨op.update operand start.toNat width.toNat acc,
        (op.applyWithin acc operand start.toNat width.toNat).map fun _ => ()⟩ := by
  rw [applyInPlace, update]
  cases connective : op.isConnective with
  | false =>
    rw [applyWithin_eq_error_iff.mpr (.inl ⟨connective, rfl⟩)]
    rfl
  | true =>
    rw [if_pos rfl]
    cases stop : stop? start width with
    | none =>
      have outside := stop?_eq_none_iff.mp stop
      rw [applyWithin_eq_error_iff.mpr (.inr ⟨connective, outside, rfl⟩)]
      rfl
    | some stop' =>
      obtain ⟨sum, some_trit, inside⟩ := stop?_eq_some_iff.mp stop
      obtain ⟨f, h⟩ := isConnective_iff.mp connective
      have combined : op.applyWithin acc operand start.toNat width.toNat =
          .ok (.ofFn fun k => if start.toNat ≤ k ∧ k < stop'.toNat then
            (op.apply acc operand .zero).word.digitAt k else acc.digitAt k) := by
        refine applyWithin_eq_ok_iff.mpr ⟨f, h, some_trit, inside, fun k => ?_⟩
        rw [Word.digitAt_ofFn, apply_of_connective h, Word.digitAt_zipWith, sum]
      rw [combined]
      rfl

/-! ### The restricted operations -/

/-- When an operation on a field is carried out, and what it does to the accumulator. -/
structure RestrictsTo (op : AluOp) (acc operand : Word) (start width : Nat) : Prop where
  exists_iff : (∃ w, op.applyWithin acc operand start width = .ok w) ↔
    op ∈ [min, max, xor, consensus, any] ∧ 0 < width ∧ start + width ≤ 9
  combined {w : Word} (done : op.applyWithin acc operand start width = .ok w) :
    op.update operand start width acc = w ∧ ∃ f, op.connective? = some f ∧
      ∀ k : Fin 9, w.digitAt k =
        if start ≤ k ∧ k < start + width then f (acc.digitAt k) (operand.digitAt k)
        else acc.digitAt k
  kept {e : AluError} (refused : op.applyWithin acc operand start width = .error e) :
    op.update operand start width acc = acc
  error_iff {e : AluError} : op.applyWithin acc operand start width = .error e ↔
    op.isConnective = false ∧ e = .notConnective op ∨
      op.isConnective = true ∧ (width = 0 ∨ 9 < start + width) ∧ e = .outside start width

theorem restrictsTo (op : AluOp) (acc operand : Word) (start width : Nat) :
    op.RestrictsTo acc operand start width where
  exists_iff := by rw [exists_applyWithin_iff, isConnective_iff_mem]
  combined done := by
    obtain ⟨f, h, -, -, digits⟩ := applyWithin_eq_ok_iff.mp done
    exact ⟨by rw [update, done], f, h, digits⟩
  kept refused := by rw [update, refused]
  error_iff := applyWithin_eq_error_iff

/-- **Connectives on fields** are the connectives on words, restricted to some positions: bounds of
sixty-four bits are no different, operations on fields apart from each other may change places, a
field may be divided, and the field of all positions is the word. -/
theorem restricts_connectives :
    (∀ (op : AluOp) (acc operand : Word) (start width : Nat),
      op.RestrictsTo acc operand start width) ∧
    (∀ (op : AluOp) (acc operand : Word) (start width : UInt64),
      op.applyInPlace acc operand start width =
        ⟨op.update operand start.toNat width.toNat acc,
          (op.applyWithin acc operand start.toNat width.toNat).map fun _ => ()⟩) ∧
    (∀ (op₁ op₂ : AluOp) (operand₁ operand₂ : Word) (start₁ width₁ start₂ width₂ : Nat),
      start₁ + width₁ ≤ start₂ ∨ start₂ + width₂ ≤ start₁ →
        Function.Commute (op₁.update operand₁ start₁ width₁)
          (op₂.update operand₂ start₂ width₂)) ∧
    (∀ (op : AluOp) (acc operand : Word) (start width₁ width₂ : Nat),
      start + width₁ + width₂ ≤ 9 →
        op.update operand (start + width₁) width₂ (op.update operand start width₁ acc) =
          op.update operand start (width₁ + width₂) acc) ∧
    ∀ (op : AluOp) (acc operand : Word) (carry : Trit), op.isConnective = true →
      op.applyWithin acc operand 0 9 = .ok (op.apply acc operand carry).word :=
  ⟨restrictsTo, applyInPlace_eq,
    fun op₁ op₂ operand₁ operand₂ _ _ _ _ => commute_update op₁ op₂ operand₁ operand₂,
    fun op acc operand _ _ _ inside => update_update op operand inside acc,
    fun _ acc operand carry connective => applyWithin_whole connective acc operand carry⟩

/-- Fields of three trits side by side, the same two in one, all nine positions, and a field whose
bounds have a sum with no place in sixty-four bits. -/
theorem restricts_connectives_sides :
    min.update .zero 0 3 (max.update (.wrap 9841) 3 3 (.wrap 5)) =
        max.update (.wrap 9841) 3 3 (min.update .zero 0 3 (.wrap 5)) ∧
      max.update (.wrap 9841) 3 3 (max.update (.wrap 9841) 0 3 (.wrap 5)) =
        max.update (.wrap 9841) 0 6 (.wrap 5) ∧
      max.applyWithin (.wrap 5) (.wrap 9841) 0 9 = .ok (.wrap 9841) ∧
      max.applyInPlace (.wrap 5) (.wrap 9841) 18446744073709551615 1 =
        ⟨.wrap 5, .error (.outside 18446744073709551615 1)⟩ := by
  obtain ⟨restricts, in_place, commute, parts, whole⟩ := restricts_connectives
  refine ⟨commute min max .zero (.wrap 9841) 0 3 3 3 (.inl (by decide)) (.wrap 5),
    parts max (.wrap 5) (.wrap 9841) 0 3 3 (by decide), ?_, ?_⟩
  · rw [whole max (.wrap 5) (.wrap 9841) .zero rfl]
    decide
  · have refused : max.applyWithin (.wrap 5) (.wrap 9841) 18446744073709551615 1 =
        .error (.outside 18446744073709551615 1) :=
      (restricts max _ _ _ _).error_iff.mpr (.inr ⟨rfl, .inr (by decide), rfl⟩)
    have kept := (restricts max (.wrap 5) (.wrap 9841) 18446744073709551615 1).kept refused
    have same := in_place max (.wrap 5) (.wrap 9841) 18446744073709551615 1
    simp only [UInt64.reduceToNat, refused, kept] at same
    exact same

end AluOp

end TernaryMachine
