import Mathlib.Tactic.IntervalCases
import TernaryMachine.Proofs.Codec
/-! # Where the codec is defined

`Instruction.encode` and `Instruction.decode` check their fields one after the other, and the error
is that of the first check that fails.  Each of the readers has one lemma that says when it fails
and how; `encode_eq_error_iff` and `decode_eq_error_iff` put them together in the order of the
checks.

* **Writing.**  A short immediate that does not fit is reported before a store without `lod`, and a
  field never overflows, whatever the instruction.
* **Reading.**  The fields of a word are bounded by their widths, so every selector is that of a
  register (`exists_readRegister`) and the opcodes without an instruction are `-12` and those from
  `10` on (`Opcode.ofValue?_eq_none_iff`).
* **Writing what was read** gives the word back trit by trit, but for the last two in front of a
  value word: they are not looked at, and are written as zero (`digits_of_decode`). -/

namespace TernaryMachine

theorem Opcode.ofValue?_eq_none_iff {v : Int} (lower : -13 ≤ v) (upper : v ≤ 13) :
    ofValue? v = none ↔ v = -12 ∨ 10 ≤ v := by
  interval_cases v <;> decide

theorem Register.isSome_ofSelector? {v : Int} (lower : -4 ≤ v) (upper : v ≤ 4) :
    (ofSelector? v).isSome = true := by
  interval_cases v <;> rfl

theorem Opcode.value_inj {a b : Opcode} : a.value = b.value ↔ a = b := by
  constructor
  · intro h
    have found := ofValue?_value a
    rw [h, ofValue?_value] at found
    exact (Option.some.inj found).symm
  · rintro rfl
    rfl

theorem AddressMode.toInt_trit_ofTrit {v : Int} (lower : -1 ≤ v) (upper : v ≤ 1) :
    (ofTrit (.sign v)).trit.toInt = v := by
  interval_cases v <;> rfl

/-- Whether an operand can be written: a short immediate must fit in two trits. -/
def Source.Fits (source : Source) : Prop :=
  ∀ v, source = .short v → -shortLimit ≤ v ∧ v ≤ shortLimit

namespace Instruction

variable {i : Instruction} {e : Encoding} {first : Word} {next : Option Word} {opcode : Opcode}
  {direction : Direction} {source : Source} {v : Int}

/-! ### Writers -/

theorem exists_yValue_iff : (∃ y, yValue source = .ok y) ↔ source.Fits := by
  cases source with
  | register r => simp [yValue, Source.Fits]
  | word w => simp [yValue, Source.Fits]
  | short v =>
    simp only [yValue, Source.Fits, Source.short.injEq, forall_eq']
    split <;> simp_all

theorem yValue_eq_error_iff {fault : EncodeError} :
    yValue source = .error fault ↔
      ∃ v, source = .short v ∧ ¬ (-Source.shortLimit ≤ v ∧ v ≤ Source.shortLimit) ∧
        fault = .shortOutOfRange v := by
  cases source with
  | register r => simp [yValue]
  | word w => simp [yValue]
  | short v =>
    simp only [yValue, Source.short.injEq, exists_eq_left']
    split <;> simp_all [eq_comm]

theorem exists_directionValue_iff :
    (∃ v, directionValue opcode direction = .ok v) ↔ (direction = .store → opcode = .lod) := by
  cases direction with
  | load => simp [directionValue]
  | store =>
    simp only [directionValue]
    split <;> simp_all

theorem directionValue_eq_error_iff {fault : EncodeError} :
    directionValue opcode direction = .error fault ↔
      (direction = .store ∧ opcode ≠ .lod) ∧ fault = .storeWithoutLod opcode := by
  cases direction with
  | load => simp [directionValue]
  | store =>
    simp only [directionValue]
    split <;> simp_all [eq_comm]

theorem exists_encode_iff :
    (∃ e, i.encode = .ok e) ↔ i.source.Fits ∧ (i.direction = .store → i.opcode = .lod) := by
  rw [← exists_yValue_iff, ← exists_directionValue_iff]
  constructor
  · rintro ⟨e, encoded⟩
    obtain ⟨y, v, hy, hd, -, -⟩ := encode_eq_ok_iff.mp encoded
    exact ⟨⟨y, hy⟩, v, hd⟩
  · rintro ⟨⟨y, hy⟩, v, hd⟩
    exact exists_encode hy hd

theorem encode_eq_error_iff {fault : EncodeError} :
    i.encode = .error fault ↔
      (∃ v, i.source = .short v ∧ ¬ (-Source.shortLimit ≤ v ∧ v ≤ Source.shortLimit) ∧
        fault = .shortOutOfRange v) ∨
      i.source.Fits ∧ (i.direction = .store ∧ i.opcode ≠ .lod) ∧
        fault = .storeWithoutLod i.opcode := by
  rw [← yValue_eq_error_iff, ← directionValue_eq_error_iff, ← exists_yValue_iff]
  cases hy : yValue i.source with
  | error fault' =>
    rw [encode, hy]
    simp [bind, Except.bind]
  | ok y =>
    cases hd : directionValue i.opcode i.direction with
    | error fault' =>
      rw [encode, hy, hd]
      simp [bind, Except.bind]
    | ok v =>
      obtain ⟨e, encoded⟩ := exists_encode hy hd
      simp [encoded]

/-! ### Readers -/

theorem readOpcode_eq_error_iff {fault : DecodeError} :
    readOpcode v = .error fault ↔ Opcode.ofValue? v = none ∧ fault = .invalidOpcode v := by
  rw [readOpcode]
  cases Opcode.ofValue? v with
  | none => simp [eq_comm]
  | some opcode => simp

theorem readDirection_eq_error_iff {fault : DecodeError} (lower : -1 ≤ v) (upper : v ≤ 1) :
    readDirection opcode v = .error fault ↔
      (v = -1 ∨ v = 1 ∧ opcode ≠ .lod) ∧ fault = .invalidDirection opcode v := by
  rw [readDirection]
  split
  · simp
    omega
  · split
    · next store =>
      simp [store]
    · next zero store =>
      have bad : v = -1 ∨ v = 1 ∧ opcode ≠ .lod := by
        by_cases lod : opcode = .lod
        · simp only [lod, and_true] at store
          omega
        · simp only [ne_eq, lod, not_false_eq_true, and_true]
          omega
      simp [bad, eq_comm]

theorem exists_readRegister (lower : -4 ≤ v) (upper : v ≤ 4) : ∃ r, readRegister v = .ok r := by
  obtain ⟨r, found⟩ := Option.isSome_iff_exists.mp (Register.isSome_ofSelector? lower upper)
  exact ⟨r, by rw [readRegister, found]⟩

theorem readSource_eq_error_iff {mode : AddressMode} {fault : DecodeError} (lower : -4 ≤ v)
    (upper : v ≤ 4) :
    readSource mode v next = .error fault ↔
      mode = .word ∧ next = none ∧ fault = .missingWord := by
  cases mode with
  | register =>
    obtain ⟨r, found⟩ := exists_readRegister lower upper
    simp [readSource, found, Except.map]
  | short => simp [readSource]
  | word => cases next <;> simp [readSource, eq_comm]

/-- The checks of a word, in their order. -/
theorem decode_eq_error_iff {fault : DecodeError} :
    decode first next = .error fault ↔
      if first.field .opcode = -12 ∨ 10 ≤ first.field .opcode then
        fault = .invalidOpcode (first.field .opcode)
      else if first.field .direction = -1 ∨
          first.field .direction = 1 ∧ first.field .opcode ≠ Opcode.lod.value then
        ∃ opcode : Opcode, opcode.value = first.field .opcode ∧
          fault = .invalidDirection opcode (first.field .direction)
      else
        first.field .mode = -1 ∧ next = none ∧ fault = .missingWord := by
  have bounds : -13 ≤ first.field .opcode ∧ first.field .opcode ≤ 13 := first.field_bounds .opcode
  have trit : -1 ≤ first.field .direction ∧ first.field .direction ≤ 1 :=
    first.field_bounds .direction
  have sign : -1 ≤ first.field .mode ∧ first.field .mode ≤ 1 := first.field_bounds .mode
  have selector : -4 ≤ first.field .x ∧ first.field .x ≤ 4 := first.field_bounds .x
  have last : -4 ≤ first.field .y ∧ first.field .y ≤ 4 := first.field_bounds .y
  cases ho : readOpcode (first.field .opcode) with
  | error fault' =>
    obtain ⟨unused, rfl⟩ := readOpcode_eq_error_iff.mp ho
    rw [if_pos ((Opcode.ofValue?_eq_none_iff bounds.1 bounds.2).mp unused), decode, ho]
    simp [bind, Except.bind, eq_comm]
  | ok opcode =>
    have number := readOpcode_eq_ok_iff.mp ho
    have used : ¬ (first.field .opcode = -12 ∨ 10 ≤ first.field .opcode) := by
      rw [← Opcode.ofValue?_eq_none_iff bounds.1 bounds.2, ← number, Opcode.ofValue?_value]
      exact Option.some_ne_none opcode
    have lod : first.field .opcode ≠ Opcode.lod.value ↔ opcode ≠ .lod := by
      rw [← number, ne_eq, Opcode.value_inj]
    simp only [if_neg used, lod]
    cases hd : readDirection opcode (first.field .direction) with
    | error fault' =>
      obtain ⟨bad, rfl⟩ := (readDirection_eq_error_iff trit.1 trit.2).mp hd
      rw [if_pos bad, decode, ho]
      simp [bind, Except.bind, hd, ← number, Opcode.value_inj, eq_comm]
    | ok direction =>
      have good : ¬ (first.field .direction = -1 ∨ first.field .direction = 1 ∧ opcode ≠ .lod) := by
        intro bad
        have failed := (readDirection_eq_error_iff trit.1 trit.2).mpr ⟨bad, rfl⟩
        rw [hd] at failed
        cases failed
      obtain ⟨x, hx⟩ := exists_readRegister selector.1 selector.2
      have mode : AddressMode.ofTrit (.sign (first.field .mode)) = .word ↔
          first.field .mode = -1 := by
        constructor
        · intro word
          rw [← AddressMode.toInt_trit_ofTrit sign.1 sign.2, word]
          rfl
        · intro minus
          rw [minus]
          rfl
      rw [if_neg good, ← mode, ← readSource_eq_error_iff last.1 last.2, decode, ho]
      simp only [bind, Except.bind, hd, hx]
      cases readSource (.ofTrit (.sign (first.field .mode))) (first.field .y) next <;>
        simp [pure, Except.pure]

/-! ### Writing what was read -/

theorem take_add_slice (w : Word) (f : Field) :
    w.digits.take (f.start + f.width) = w.digits.take f.start ++ w.slice f :=
  List.take_add

/-- The fields of an instruction word, up to the last one. -/
theorem take_digits (w : Word) :
    w.digits.take 7 = w.slice .opcode ++ w.slice .mode ++ w.slice .direction ++ w.slice .x := by
  have opcode := take_add_slice w .opcode
  have mode := take_add_slice w .mode
  have direction := take_add_slice w .direction
  have x := take_add_slice w .x
  simp only [Field.opcode, Field.mode, Field.direction, Field.x] at opcode mode direction x ⊢
  rw [x, direction, mode, opcode, List.take_zero, List.nil_append]

theorem digits_eq_append (w : Word) : w.digits = w.digits.take 7 ++ w.slice .y := by
  have whole : w.digits.take 9 = w.digits.take 7 ++ w.slice .y := take_add_slice w .y
  rw [← whole, List.take_of_length_le w.length_digits.le]

theorem fields_of_decode (decoded : decode first next = .ok i) (encoded : i.encode = .ok e) :
    e.first.digits.take 7 = first.digits.take 7 ∧
      e.first.field .y = if i.mode = .word then 0 else first.field .y := by
  obtain ⟨ro, rd, rx, rs⟩ := decode_eq_ok_iff.mp decoded
  obtain ⟨y, v, hy, hd, packed, -⟩ := encode_eq_ok_iff.mp encoded
  obtain ⟨fo, fm, fd, fx, fy⟩ := fields_of_pack packed
  have sign : -1 ≤ first.field .mode ∧ first.field .mode ≤ 1 := first.field_bounds .mode
  have number : i.opcode.value = first.field .opcode := readOpcode_eq_ok_iff.mp ro
  have mode : i.mode.trit.toInt = first.field .mode := by
    rw [mode, mode_of_readSource rs, AddressMode.toInt_trit_ofTrit sign.1 sign.2]
  have direction : v = first.field .direction := by
    have same := readDirection_eq_ok_iff.mp rd
    rw [hd] at same
    exact Except.ok.inj same
  have selector : i.x.selector = first.field .x := readRegister_eq_ok_iff.mp rx
  constructor
  · rw [take_digits, take_digits, Word.field_eq_iff.mp (fo.trans number),
      Word.field_eq_iff.mp (fm.trans mode), Word.field_eq_iff.mp (fd.trans direction),
      Word.field_eq_iff.mp (fx.trans selector)]
  · rw [yValue_of_readSource (first.field_bounds .y) rs, ← mode_of_readSource rs,
      Except.ok.injEq] at hy
    rw [fy, ← hy]
    rfl

/-- What is written of an instruction that was read: the word itself, but for the two trits in front
of a value word that are not looked at, and the word that follows, if it was looked at. -/
theorem digits_of_decode (decoded : decode first next = .ok i) (encoded : i.encode = .ok e) :
    e.first.digits =
      if i.mode = .word then first.digits.take 7 ++ [.zero, .zero] else first.digits := by
  obtain ⟨front, last⟩ := fields_of_decode decoded encoded
  rw [digits_eq_append e.first, front]
  split at last
  · next word =>
    have zeros : e.first.field .y = Word.zero.field .y := last
    rw [if_pos word, Word.field_eq_iff.mp zeros]
    rfl
  · next short =>
    rw [if_neg short, Word.field_eq_iff.mp last, ← digits_eq_append]

theorem second_of_decode (decoded : decode first next = .ok i) (encoded : i.encode = .ok e) :
    e.second = if i.mode = .word then next else none := by
  obtain ⟨-, -, -, rs⟩ := decode_eq_ok_iff.mp decoded
  obtain ⟨y, v, -, -, -, second⟩ := encode_eq_ok_iff.mp encoded
  rw [← second, valueWord?_of_readSource rs, mode, mode_of_readSource rs]

/-! ### Both directions -/

/-- When an instruction has words, why it has none otherwise, and how it is read back. -/
structure Encodes (i : Instruction) : Prop where
  exists_encode_iff : (∃ e, i.encode = .ok e) ↔
    (∀ v, i.source = .short v → -4 ≤ v ∧ v ≤ 4) ∧ (i.direction = .store → i.opcode = .lod)
  /-- The operand is checked before the direction, and nothing else fails. -/
  encode_eq_error_iff : ∀ fault, i.encode = .error fault ↔
    (∃ v, i.source = .short v ∧ ¬ (-4 ≤ v ∧ v ≤ 4) ∧ fault = .shortOutOfRange v) ∨
    (∀ v, i.source = .short v → -4 ≤ v ∧ v ≤ 4) ∧ (i.direction = .store ∧ i.opcode ≠ .lod) ∧
      fault = .storeWithoutLod i.opcode
  isSome_second_iff : ∀ e, i.encode = .ok e → (e.second.isSome = true ↔ i.words = 2)
  decode_second : ∀ e, i.encode = .ok e → decode e.first e.second = .ok i
  /-- What follows an instruction of one word does not matter. -/
  decode_any : ∀ e, i.encode = .ok e → e.second = none → ∀ next, decode e.first next = .ok i

/-- Why a word and the word that follows are no instruction, and how the instruction that they are
is written again. -/
structure Decodes (first : Word) (next : Option Word) : Prop where
  /-- The opcode is checked before the direction, and that before the value word. -/
  decode_eq_error_iff : ∀ fault, decode first next = .error fault ↔
    if first.field .opcode = -12 ∨ 10 ≤ first.field .opcode then
      fault = .invalidOpcode (first.field .opcode)
    else if first.field .direction = -1 ∨
        first.field .direction = 1 ∧ first.field .opcode ≠ Opcode.lod.value then
      ∃ opcode : Opcode, opcode.value = first.field .opcode ∧
        fault = .invalidDirection opcode (first.field .direction)
    else
      first.field .mode = -1 ∧ next = none ∧ fault = .missingWord
  ne_invalidSelector : ∀ v, decode first next ≠ .error (.invalidSelector v)
  /-- The two trits in front of a value word are written as zero; all other trits are those that
  were read. -/
  encode : ∀ i, decode first next = .ok i → ∃ e, i.encode = .ok e ∧
    e.first.digits =
      (if i.mode = .word then first.digits.take 7 ++ [.zero, .zero] else first.digits) ∧
    e.second = if i.mode = .word then next else none

theorem encodes (i : Instruction) : i.Encodes where
  exists_encode_iff := exists_encode_iff
  encode_eq_error_iff fault := encode_eq_error_iff
  isSome_second_iff e encoded := by
    obtain ⟨y, v, -, -, -, second⟩ := encode_eq_ok_iff.mp encoded
    rw [← second, words, mode]
    cases i.source with
    | register r => simp [valueWord?, Source.mode, AddressMode.words]
    | short v => simp [valueWord?, Source.mode, AddressMode.words]
    | word w => simp [valueWord?, Source.mode, AddressMode.words]
  decode_second e encoded := decode_of_encode encoded fun _ => id
  decode_any e encoded := decode_of_encode_single encoded

theorem decodes (first : Word) (next : Option Word) : Decodes first next where
  decode_eq_error_iff fault := decode_eq_error_iff
  ne_invalidSelector v failed := by
    have cause := decode_eq_error_iff.mp failed
    split at cause
    · cases cause
    · split at cause
      · obtain ⟨opcode, -, same⟩ := cause
        cases same
      · cases cause.2.2
  encode i decoded := by
    obtain ⟨e, encoded, -⟩ := encode_of_decode decoded
    exact ⟨e, encoded, digits_of_decode decoded encoded, second_of_decode decoded encoded⟩

/-- **The codec**: which instructions have words and which words are instructions, what is reported
of all others, and that either direction undoes the other up to the trits that are not looked at. -/
theorem codec_exact :
    (∀ i : Instruction, i.Encodes) ∧ ∀ first next, Decodes first next :=
  ⟨encodes, decodes⟩

/-- A jump with something in the two trits that are not looked at is written again without it.  An
instruction with two faults is reported for its operand. -/
theorem codec_exact_ignored :
    ∃ (first next : Word) (i : Instruction) (e : Encoding),
      decode first (some next) = .ok i ∧ i.encode = .ok e ∧ e.first ≠ first ∧
      e.first.digits = first.digits.take 7 ++ [.zero, .zero] ∧ e.second = some next ∧
      decode e.first e.second = .ok i ∧
      encode ⟨.mov, .store, .r0, .short 5⟩ = .error (.shortOutOfRange 5) := by
  have decoded : decode (.wrap 1946) (some (.wrap 100)) =
      .ok ⟨.jmp, .load, .r0, .word (.wrap 100)⟩ := by decide +kernel
  obtain ⟨e, encoded, digits, second⟩ := (codec_exact.2 _ _).encode _ decoded
  refine ⟨_, _, _, e, decoded, encoded, ?_, digits, second,
    (codec_exact.1 _).decode_second e encoded,
    ((codec_exact.1 _).encode_eq_error_iff _).mpr (.inl ⟨5, rfl, by decide, rfl⟩)⟩
  intro same
  rw [same] at digits
  exact absurd digits (by decide +kernel)

end Instruction

end TernaryMachine
