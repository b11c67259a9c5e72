import TernaryMachine.Proofs.Word
import TernaryMachine.Word.Field
/-! # Reading back sub-fields

Writing a field changes the trits of that field alone.

* **Positions.**  `Word.digitAt` is the trit at a text position.  A word is all its trits
  (`Word.ext_digitAt`), so equations of words are shown at one position at a time.  The trits of a
  field are those at its positions (`Word.slice_eq_ofFn`).
* **Reads and writes.**  What is read back from a field is what was written, and every field apart
  from it reads as before (`Word.field_of_setField`, `Word.field_of_setField_of_apart`).  A write
  succeeds if the value fits (`Word.setField_eq_ok`). -/

namespace TernaryMachine

namespace Numeral

theorem write_eq_ok {v : Int} {width : Nat} (lower : -limit width ≤ v) (upper : v ≤ limit width) :
    write v width = .ok (low width v).reverse := by
  rw [write, if_neg (by omega)]

theorem read_of_write_eq_ok {v : Int} {width : Nat} {ds : List Trit}
    (h : write v width = .ok ds) : read ds = v := by
  rw [write] at h
  split at h
  · cases h
  · next fits =>
    cases h
    rw [read_eq_value_reverse, List.reverse_reverse, value_low]
    exact bmod_eq_self (by omega) (by omega)

theorem read_inj {as bs : List Trit} (length : as.length = bs.length) :
    read as = read bs ↔ as = bs := by
  rw [read_eq_value_reverse, read_eq_value_reverse, value_inj (by simpa using length),
    List.reverse_inj]

end Numeral

namespace Field

variable {f g : Field} {k : Fin 9}

/-- The text positions of a field. -/
instance : Membership (Fin 9) Field where
  mem f k := f.start ≤ k ∧ k < f.start + f.width

theorem mem_iff : k ∈ f ↔ f.start ≤ k ∧ k < f.start + f.width :=
  Iff.rfl

instance (f : Field) (k : Fin 9) : Decidable (k ∈ f) :=
  inferInstanceAs (Decidable (_ ∧ _))

/-- One of two fields ends before the other begins. -/
def Disjoint (f g : Field) : Prop :=
  f.start + f.width ≤ g.start ∨ g.start + g.width ≤ f.start

instance (f g : Field) : Decidable (f.Disjoint g) :=
  inferInstanceAs (Decidable (_ ∨ _))

theorem Disjoint.not_mem (h : f.Disjoint g) (mem : k ∈ g) : k ∉ f := by
  rw [Disjoint] at h
  rw [mem_iff] at *
  omega

/-- Two fields that have no position in common; a field without positions has none in common with
any other. -/
def Apart (f g : Field) : Prop :=
  ∀ k ∈ f, k ∉ g

instance (f g : Field) : Decidable (f.Apart g) :=
  inferInstanceAs (Decidable (∀ k ∈ f, k ∉ g))

theorem Apart.symm {f g : Field} (h : f.Apart g) : g.Apart f :=
  fun k there here => h k here there

end Field

namespace Word

variable {a b w w' : Word} {f g : Field} {k : Fin 9} {v : Int}

/-! ### Positions -/

def digitAt (w : Word) (k : Fin 9) : Trit :=
  w.digits.get (k.cast w.length_digits.symm)

theorem getElem?_digits (w : Word) (k : Fin 9) : w.digits[(k : Nat)]? = some (w.digitAt k) :=
  List.getElem?_eq_getElem _

theorem ext_digitAt (h : ∀ k, a.digitAt k = b.digitAt k) : a = b := by
  have digits : a.digits = b.digits := by
    apply List.ext_getElem?
    intro k
    rcases Nat.lt_or_ge k 9 with inside | outside
    · rw [a.getElem?_digits ⟨k, inside⟩, b.getElem?_digits ⟨k, inside⟩, h]
    · rw [List.getElem?_eq_none (by rw [length_digits]; exact outside),
        List.getElem?_eq_none (by rw [length_digits]; exact outside)]
  cases a
  cases b
  rw [mk.injEq]
  exact List.reverse_injective digits

theorem digitAt_eq_of_getElem? {w : Word} {k : Fin 9} {t : Trit}
    (h : w.digits[(k : Nat)]? = some t) : w.digitAt k = t :=
  Option.some.inj ((w.getElem?_digits k).symm.trans h)

theorem slice_eq_ofFn (w : Word) (f : Field) :
    w.slice f = List.ofFn fun i : Fin f.width =>
      w.digitAt ⟨f.start + i, (Nat.add_lt_add_left i.isLt f.start).trans_le f.inside⟩ := by
  apply List.ext_getElem?
  intro i
  rw [List.getElem?_ofFn]
  split
  · next lt =>
    rw [slice, List.getElem?_take_of_lt lt, List.getElem?_drop]
    exact w.getElem?_digits ⟨f.start + i, (Nat.add_lt_add_left lt f.start).trans_le f.inside⟩
  · next ge =>
    rw [List.getElem?_eq_none]
    rw [length_slice]
    omega

/-! ### Reads and writes -/

theorem digits_splice (w : Word) (f : Field) (ds : List Trit) (length : ds.length = f.width) :
    (w.splice f ds length).digits =
      w.digits.take f.start ++ ds ++ w.digits.drop (f.start + f.width) :=
  List.reverse_reverse _

theorem slice_splice (w : Word) (f : Field) (ds : List Trit) (length : ds.length = f.width) :
    (w.splice f ds length).slice f = ds := by
  have inside := f.inside
  have front : (w.digits.take f.start).length = f.start := by
    rw [List.length_take, length_digits]
    omega
  rw [slice, digits_splice, List.append_assoc, List.drop_append_of_le_length (by omega),
    List.drop_of_length_le (by omega), List.nil_append, List.take_append_of_le_length (by omega),
    List.take_of_length_le (by omega)]

/-- Other trits in a field, and the same beside it. -/
theorem digitAt_splice (w : Word) (f : Field) (ds : List Trit) (length : ds.length = f.width)
    (k : Fin 9) : (w.splice f ds length).digitAt k =
      if k ∈ f then ds.getD (k - f.start) .zero else w.digitAt k := by
  have inside := f.inside
  have before : (w.digits.take f.start).length = f.start := by
    rw [List.length_take, length_digits]
    omega
  apply digitAt_eq_of_getElem?
  rw [digits_splice, List.append_assoc]
  split
  · next here =>
    rw [Field.mem_iff] at here
    rw [List.getElem?_append_right (by omega), List.getElem?_append_left (by omega), before,
      List.getD_eq_getElem?_getD, List.getElem?_eq_getElem (by omega), Option.getD_some]
  · next beside =>
    rw [Field.mem_iff] at beside
    rcases Nat.lt_or_ge k f.start with left | right
    · rw [List.getElem?_append_left (by omega), List.getElem?_take_of_lt left, getElem?_digits]
    · rw [List.getElem?_append_right (by omega), List.getElem?_append_right (by omega), before,
        length, List.getElem?_drop, Nat.sub_sub, Nat.add_sub_cancel' (by omega), getElem?_digits]

theorem setField_eq_ok (w : Word) (lower : -Numeral.limit f.width ≤ v)
    (upper : v ≤ Numeral.limit f.width) : ∃ w', w.setField f v = .ok w' := by
  rw [setField]
  split
  · next h =>
    rw [Numeral.write_eq_ok lower upper] at h
    cases h
  · exact ⟨_, rfl⟩

theorem field_of_setField (h : w.setField f v = .ok w') : w'.field f = v := by
  rw [setField] at h
  split at h
  · cases h
  · next ds written =>
    cases h
    rw [field, slice_splice]
    exact Numeral.read_of_write_eq_ok written

theorem field_bounds (w : Word) (f : Field) :
    -Numeral.limit f.width ≤ w.field f ∧ w.field f ≤ Numeral.limit f.width := by
  have bounds := Numeral.read_bounds (w.slice f)
  rwa [length_slice] at bounds

theorem field_eq_iff : a.field f = b.field f ↔ a.slice f = b.slice f :=
  Numeral.read_inj (by rw [length_slice, length_slice])

theorem field_eq_iff_digitAt : a.field f = b.field f ↔ ∀ k ∈ f, a.digitAt k = b.digitAt k := by
  rw [field_eq_iff, slice_eq_ofFn, slice_eq_ofFn, List.ofFn_inj, funext_iff]
  constructor
  · intro same k mem
    have within := Field.mem_iff.mp mem
    have here := same ⟨k - f.start, by omega⟩
    simp only [Nat.add_sub_cancel' within.1] at here
    exact here
  · intro same i
    exact same _ (Field.mem_iff.mpr ⟨Nat.le_add_right _ _, Nat.add_lt_add_left i.isLt _⟩)

theorem digitAt_of_setField (written : w.setField f v = .ok w') (beside : k ∉ f) :
    w'.digitAt k = w.digitAt k := by
  unfold setField at written
  split at written
  · cases written
  · cases written
    rw [digitAt_splice, if_neg beside]

/-- A field beside the one that is written reads as before. -/
theorem field_of_setField_of_apart (written : w.setField f v = .ok w') (apart : f.Apart g) :
    w'.field g = w.field g :=
  field_eq_iff_digitAt.mpr fun k mem => digitAt_of_setField written (apart.symm k mem)

/-- The integer of a field is a part of the integer of the word. -/
theorem field_eq_part (w : Word) (f : Field) :
    w.field f = Numeral.part w.toInt (9 - f.start - f.width) f.width := by
  have inside := f.inside
  have length := w.length_trits
  have high : (w.trits.take (9 - f.start)).length = 9 - f.start := by
    rw [List.length_take]
    omega
  rw [field, slice, digits, Numeral.read_eq_value_reverse, toInt, Numeral.part_value,
    List.drop_reverse, length, List.take_reverse, List.reverse_reverse, high, List.drop_take]
  congr 2
  omega

end Word

end TernaryMachine
