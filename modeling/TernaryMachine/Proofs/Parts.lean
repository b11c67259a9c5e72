import TernaryMachine.Proofs.Layout
import TernaryMachine.Proofs.NumeralForms
/-! # Numerals and words in parts

A numeral that is cut in two is worth its front, moved up, and its back.  The fields of a word are
such parts.

* **Cuts.**  `Numeral.read_append` is the equation.  The front alone decides on the sign, and
  neither part is further from zero than the whole (`Numeral.read_append_cases`), so two parts have
  room in thirty-two bits where the whole has.  `Numeral.wrappedRead` is the reader that drops what
  has no room and `Numeral.checkedRead` the one that stops there.
* **Writes.**  `Word.setField_eq_ok_iff` says all that a write does: the field holds the integer,
  and every trit at another position is the one that was there.  What is read back, fields beside
  it and the order of two writes follow from that alone.
* **Divisions.**  Fields that stand one after the other, from the first position to the last, make
  up the integer of the word (`Word.toInt_eq_sum`). -/

namespace TernaryMachine

namespace Numeral

variable {xs ys ds : List Trit}

/-! ### Cuts -/

/-- The trits in front decide on the sign.  If they are worth nothing the others are all there is,
and otherwise what the others are worth is less than the whole. -/
theorem read_append_cases (xs ys : List Trit) :
    (read xs = 0 ∧ read (xs ++ ys) = read ys) ∨
      (0 < read xs ∧ read xs ≤ read (xs ++ ys) ∧ |read ys| < read (xs ++ ys)) ∨
      (read xs < 0 ∧ read (xs ++ ys) ≤ read xs ∧ |read ys| < -read (xs ++ ys)) := by
  have size := two_mul_limit_add_one ys.length
  push_cast at size
  have small : |read ys| ≤ limit ys.length := abs_le.mpr (read_bounds ys)
  have nonneg : 0 ≤ limit ys.length := limit_mono (Nat.zero_le _)
  obtain ⟨lower, upper⟩ := read_bounds ys
  rw [read_append, ← size]
  rcases lt_trichotomy (read xs) 0 with negative | zero | positive
  · refine .inr (.inr ⟨negative, ?_, ?_⟩)
    · nlinarith
    · nlinarith
  · refine .inl ⟨zero, ?_⟩
    rw [zero, zero_mul, zero_add]
  · refine .inr (.inl ⟨positive, ?_, ?_⟩)
    · nlinarith
    · nlinarith

/-- Reads a numeral in text order, and of every result keeps the low thirty-two bits. -/
def wrappedRead (ds : List Trit) : Int32 :=
  ds.foldl (fun acc t => acc * 3 + Int32.ofInt t.toInt) 0

theorem wrappedRead_eq (ds : List Trit) : wrappedRead ds = Int32.ofInt (read ds) := by
  induction ds using List.reverseRec with
  | nil => rfl
  | append_singleton ds t ih =>
    rw [wrappedRead, List.foldl_append, ← wrappedRead, ih, read_append, read_singleton,
      Int32.ofInt_add, List.length_singleton, pow_one, Int32.ofInt_mul]
    rfl

theorem toInt_wrappedRead (lower : -2147483648 ≤ read ds) (upper : read ds ≤ 2147483647) :
    (wrappedRead ds).toInt = read ds := by
  rw [wrappedRead_eq, Int32.toInt_ofInt_of_le lower (by omega)]

/-- What a numeral is worth that is cut in two, whichever way it is read. -/
structure Cuts (xs ys : List Trit) : Prop where
  read : read (xs ++ ys) = read xs * 3 ^ ys.length + read ys
  wrapped (lower : -2147483648 ≤ Numeral.read (xs ++ ys))
    (upper : Numeral.read (xs ++ ys) ≤ 2147483647) :
    (wrappedRead (xs ++ ys)).toInt = Numeral.read (xs ++ ys) ∧
      (wrappedRead (xs ++ ys)).toInt =
        (wrappedRead xs).toInt * 3 ^ ys.length + (wrappedRead ys).toInt
  checked_iff {v : Int} : checkedRead (xs ++ ys) = some v ↔
    Numeral.read (xs ++ ys) = v ∧ -2147483648 < v ∧ v ≤ 2147483647
  checked {v : Int} (whole : checkedRead (xs ++ ys) = some v) :
    ∃ front back, checkedRead xs = some front ∧ checkedRead ys = some back ∧
      v = front * 3 ^ ys.length + back

theorem cuts (xs ys : List Trit) : Cuts xs ys where
  read := read_append xs ys
  wrapped lower upper := by
    obtain ⟨front, back⟩ : (wrappedRead xs).toInt = Numeral.read xs ∧
        (wrappedRead ys).toInt = Numeral.read ys := by
      have cases := read_append_cases xs ys
      rw [abs_lt, abs_lt] at cases
      exact ⟨toInt_wrappedRead (by omega) (by omega), toInt_wrappedRead (by omega) (by omega)⟩
    rw [toInt_wrappedRead lower upper, front, back]
    exact ⟨rfl, read_append xs ys⟩
  checked_iff {v} := by
    rw [checkedRead_eq_some_iff]
    omega
  checked {v} whole := by
    obtain ⟨rfl, lower, upper⟩ := checkedRead_eq_some_iff.mp whole
    have cases := read_append_cases xs ys
    rw [abs_lt, abs_lt] at cases
    exact ⟨_, _, checkedRead_eq_some_iff.mpr ⟨rfl, by omega, by omega⟩,
      checkedRead_eq_some_iff.mpr ⟨rfl, by omega, by omega⟩, read_append xs ys⟩

end Numeral

namespace Word

variable {a b w w' : Word} {f g : Field} {k : Fin 9} {u v : Int}

/-! ### Writes -/

/-- **A write** gives the only word with the integer in the field and the trits beside it that were
there. -/
theorem setField_eq_ok_iff :
    w.setField f v = .ok w' ↔ w'.field f = v ∧ ∀ k ∉ f, w'.digitAt k = w.digitAt k := by
  constructor
  · intro written
    exact ⟨field_of_setField written, fun k => digitAt_of_setField written⟩
  · rintro ⟨rfl, same⟩
    obtain ⟨lower, upper⟩ := w'.field_bounds f
    obtain ⟨w'', written⟩ := w.setField_eq_ok lower upper
    have inside := field_eq_iff_digitAt.mp (field_of_setField written)
    have equal : w'' = w' := by
      apply ext_digitAt
      intro k
      by_cases mem : k ∈ f
      · exact inside k mem
      · rw [digitAt_of_setField written mem, same k mem]
    rw [written, equal]

/-- Two writes apart give the only word with both integers and the trits that were there beside both
fields, which does not say which of them came first. -/
theorem setField_setField_eq_ok_iff (apart : f.Apart g) :
    (w.setField f u >>= fun m => m.setField g v) = .ok w' ↔
      w'.field f = u ∧ w'.field g = v ∧ ∀ k, k ∉ f → k ∉ g → w'.digitAt k = w.digitAt k := by
  rw [bind_eq_ok_iff]
  constructor
  · rintro ⟨m, first, second⟩
    refine ⟨?_, field_of_setField second, ?_⟩
    · rw [field_of_setField_of_apart second apart.symm, field_of_setField first]
    · intro k not_f not_g
      rw [digitAt_of_setField second not_g, digitAt_of_setField first not_f]
  · rintro ⟨rfl, rfl, same⟩
    obtain ⟨lower, upper⟩ := w'.field_bounds f
    obtain ⟨m, first⟩ := w.setField_eq_ok lower upper
    refine ⟨m, first, setField_eq_ok_iff.mpr ⟨rfl, ?_⟩⟩
    intro k not_g
    by_cases mem : k ∈ f
    · exact (field_eq_iff_digitAt.mp (field_of_setField first) k mem).symm
    · rw [same k mem not_g, digitAt_of_setField first mem]

theorem setField_comm (apart : f.Apart g) :
    (w.setField f u >>= fun m => m.setField g v) = .ok w' ↔
      (w.setField g v >>= fun m => m.setField f u) = .ok w' := by
  rw [setField_setField_eq_ok_iff apart, setField_setField_eq_ok_iff apart.symm]
  constructor
  · rintro ⟨left, right, same⟩
    exact ⟨right, left, fun k not_g not_f => same k not_f not_g⟩
  · rintro ⟨right, left, same⟩
    exact ⟨left, right, fun k not_f not_g => same k not_g not_f⟩

theorem exists_setField_iff :
    (∃ w', w.setField f v = .ok w') ↔ |v| ≤ Numeral.limit f.width := by
  constructor
  · rintro ⟨w', written⟩
    rw [← field_of_setField written, abs_le]
    exact w'.field_bounds f
  · intro fits
    obtain ⟨lower, upper⟩ := abs_le.mp fits
    exact w.setField_eq_ok lower upper

theorem setField_of_large (large : Numeral.limit f.width < |v|) :
    w.setField f v = .error ⟨v, -Numeral.limit f.width, Numeral.limit f.width⟩ := by
  have refused := Numeral.write_of_large large
  unfold setField
  split
  · next fault same =>
    rw [refused] at same
    cases same
    rfl
  · next ds same =>
    rw [refused] at same
    cases same

/-! ### Unchecked bounds -/

theorem field?_bounds (w : Word) (f : Field) : w.field? f.start f.width = some (w.field f) := by
  rw [field?, Field.ofBounds?, dif_pos f.inside, Option.map_some]

theorem setField?_bounds (w : Word) (f : Field) (v : Int) :
    w.setField? f.start f.width v = (w.setField f v).mapError .value := by
  unfold setField?
  split
  · next fault refused =>
    unfold setField
    split
    · next other same =>
      rw [refused] at same
      cases same
      rfl
    · next ds same =>
      rw [refused] at same
      cases same
  · rw [Field.ofBounds?, dif_pos f.inside]

/-! ### Divisions -/

/-- Fields that stand one after the other up to the end make up what is left of the word. -/
theorem read_drop_eq_sum (w : Word) {fs : List Field} {start : Nat}
    (tiles : Tiles (fun f => (f.start : Int)) Field.width start fs 9) :
    Numeral.read (w.digits.drop start) =
      (fs.map fun f => w.field f * 3 ^ (9 - f.start - f.width)).sum := by
  induction fs generalizing start with
  | nil =>
    have stops : (start : Int) = 9 := tiles
    rw [List.drop_eq_nil_of_le (by rw [length_digits]; omega)]
    rfl
  | cons f fs ih =>
    obtain ⟨here, rest⟩ := tiles
    obtain rfl : f.start = start := Int.natCast_inj.mp here
    rw [← Nat.cast_add] at rest
    have parts : w.digits.drop f.start = w.slice f ++ w.digits.drop (f.start + f.width) := by
      rw [slice, ← List.drop_drop, List.take_append_drop]
    rw [parts, Numeral.read_append, ih rest, List.length_drop, length_digits, List.map_cons,
      List.sum_cons, field, Nat.sub_sub]

theorem toInt_eq_sum (w : Word) {fs : List Field}
    (tiles : Tiles (fun f => (f.start : Int)) Field.width 0 fs 9) :
    w.toInt = (fs.map fun f => w.field f * 3 ^ (9 - f.start - f.width)).sum := by
  rw [← read_digits, ← @read_drop_eq_sum w fs 0 tiles, List.drop_zero]

/-! ### Fields on their own -/

/-- What may be written into a field of a word, and all that becomes of the word. -/
structure KeepsApart (w : Word) (f : Field) : Prop where
  exists_iff {v : Int} : (∃ w', w.setField f v = .ok w') ↔ |v| ≤ (3 ^ f.width - 1) / 2
  error {v : Int} (large : (3 ^ f.width - 1) / 2 < |v|) :
    w.setField f v = .error ⟨v, -((3 ^ f.width - 1) / 2), (3 ^ f.width - 1) / 2⟩
  written_iff {v : Int} {w' : Word} : w.setField f v = .ok w' ↔
    w'.field f = v ∧ ∀ k ∉ f, w'.digitAt k = w.digitAt k
  beside {v : Int} {w' : Word} {g : Field} (apart : f.Apart g)
    (written : w.setField f v = .ok w') : w'.field g = w.field g
  comm {u v : Int} {w' : Word} {g : Field} (apart : f.Apart g) :
    (w.setField f u >>= fun m => m.setField g v) = .ok w' ↔
      (w.setField g v >>= fun m => m.setField f u) = .ok w'
  /-- Two numbers that are the bounds of the field are as good as the field. -/
  read_bounds : w.field? f.start f.width = some (w.field f)
  write_bounds (v : Int) : w.setField? f.start f.width v = (w.setField f v).mapError .value
  checkedRead : Numeral.checkedRead (w.slice f) = some (w.field f)
  checkedWrite {v : Int} (lower : -2147483648 ≤ v) (upper : v ≤ 2147483647) :
    Numeral.checkedWrite v f.width = some (Numeral.write v f.width)

theorem keepsApart (w : Word) (f : Field) : w.KeepsApart f where
  exists_iff {v} := by rw [exists_setField_iff, Numeral.limit_eq]
  error large := by
    rw [← Numeral.limit_eq] at large ⊢
    exact setField_of_large large
  written_iff := setField_eq_ok_iff
  beside apart written := field_of_setField_of_apart written apart
  comm := setField_comm
  read_bounds := field?_bounds w f
  write_bounds := setField?_bounds w f
  checkedRead := by
    have inside := f.inside
    exact (Numeral.checked_of_short (by rw [length_slice]; omega)).1
  checkedWrite lower upper := by
    have inside := f.inside
    exact Numeral.checkedWrite_eq (by omega) lower (by omega) fun _ => by omega

/-- **Fields stand on their own**: what is written into one is read back from it and seen by no
other, and fields that make up the word make up its integer.  That is the law of numerals in parts,
which holds of the readers of thirty-two bits as well. -/
theorem fields_keep_apart :
    (∀ (w : Word) (f : Field), w.KeepsApart f) ∧
    (∀ (w : Word) (fs : List Field), Tiles (fun f => (f.start : Int)) Field.width 0 fs 9 →
      w.toInt = (fs.map fun f => w.field f * 3 ^ (9 - f.start - f.width)).sum) ∧
    ∀ xs ys : List Trit, Numeral.Cuts xs ys :=
  ⟨keepsApart, fun w _ => w.toInt_eq_sum, Numeral.cuts⟩

/-- The first and the last field of an instruction word, written in either order; a field without
positions; the fields of an instruction word, which make up all of it; and the lowest integer of
thirty-two bits, whose last trit is cut off. -/
theorem fields_keep_apart_ends :
    (zero.setField .opcode (-13) >>= fun m => m.setField .y 4) = .ok (wrap (-9473)) ∧
      (zero.setField .y 4 >>= fun m => m.setField .opcode (-13)) = .ok (wrap (-9473)) ∧
      (wrap 1234).setField ⟨5, 0, by decide⟩ 1 = .error ⟨1, 0, 0⟩ ∧
      (wrap (-9473)).toInt = -13 * 3 ^ 6 + 0 * 3 ^ 5 + 0 * 3 ^ 4 + 0 * 3 ^ 2 + 4 * 3 ^ 0 ∧
      (Numeral.wrappedRead ((Numeral.low 20 (-715827883)).reverse ++ [.plus])).toInt =
        -2147483648 := by
  obtain ⟨keeps, parts, cuts⟩ := fields_keep_apart
  have opcode : zero.setField .opcode (-13) = .ok (wrap (-9477)) :=
    (keeps zero .opcode).written_iff.mpr ⟨by decide, by decide⟩
  have y : (wrap (-9477)).setField .y 4 = .ok (wrap (-9473)) :=
    (keeps (wrap (-9477)) .y).written_iff.mpr ⟨by decide, by decide⟩
  have both : (zero.setField .opcode (-13) >>= fun m => m.setField .y 4) = .ok (wrap (-9473)) :=
    bind_eq_ok_iff.mpr ⟨wrap (-9477), opcode, y⟩
  have whole := parts (wrap (-9473)) [.opcode, .mode, .direction, .x, .y]
    ⟨rfl, rfl, rfl, rfl, rfl, rfl⟩
  have front : Numeral.read (Numeral.low 20 (-715827883)).reverse = -715827883 :=
    Numeral.read_of_write_eq_ok (Numeral.write_eq_ok (by decide) (by decide))
  have lowest := cuts (Numeral.low 20 (-715827883)).reverse [.plus]
  have value : Numeral.read ((Numeral.low 20 (-715827883)).reverse ++ [.plus]) = -2147483648 := by
    rw [lowest.read, front, Numeral.read_singleton]
    rfl
  have refused := @(keeps (wrap 1234) ⟨5, 0, by decide⟩).error 1 (by decide)
  refine ⟨both, ((keeps zero .opcode).comm (by decide)).mp both, refused.trans rfl,
    whole.trans (by decide), ?_⟩
  rw [(lowest.wrapped value.ge (value.le.trans (by decide))).1, value]

end Word

end TernaryMachine
