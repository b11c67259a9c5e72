import TernaryMachine.Instruction.Codec
import TernaryMachine.Proofs.Field
import TernaryMachine.Proofs.Result
/-! # Reading back instruction words

`decode_eq_ok_iff` and `encode_eq_ok_iff` take the two directions of the codec apart into their
fields.  Together with the field laws they give the round trip `decode_of_encode`: whatever word
follows an instruction of one word, it decodes to itself. -/

namespace TernaryMachine

theorem Trit.sign_toInt (t : Trit) : sign t.toInt = t := by
  cases t <;> rfl

theorem Opcode.value_of_ofValue? {v : Int} {opcode : Opcode} (h : ofValue? v = some opcode) :
    opcode.value = v := by
  rw [ofValue?] at h
  simpa using List.find?_some h

theorem Register.selector_of_ofSelector? {v : Int} {r : Register} (h : ofSelector? v = some r) :
    r.selector = v := by
  rw [ofSelector?] at h
  simpa using List.find?_some h

namespace Instruction

variable {i : Instruction} {e : Encoding} {first : Word} {next : Option Word}

/-! ### Taking the codec apart -/

theorem decode_eq_ok_iff :
    decode first next = .ok i ↔
      readOpcode (first.field .opcode) = .ok i.opcode ∧
        readDirection i.opcode (first.field .direction) = .ok i.direction ∧
        readRegister (first.field .x) = .ok i.x ∧
        readSource (.ofTrit (.sign (first.field .mode))) (first.field .y) next = .ok i.source := by
  simp only [decode, bind_eq_ok_iff, pure_eq_ok_iff]
  constructor
  · rintro ⟨opcode, ho, direction, hd, x, hx, source, hs, rfl⟩
    exact ⟨ho, hd, hx, hs⟩
  · rintro ⟨ho, hd, hx, hs⟩
    exact ⟨i.opcode, ho, i.direction, hd, i.x, hx, i.source, hs, rfl⟩

/-- All that the word that follows can do: nothing, if the first word is no instruction or one
without a value word, and otherwise be the operand. -/
theorem decode_cases (first : Word) :
    (∃ fault, ∀ next, decode first next = .error fault) ∨
      (∃ i, i.mode ≠ .word ∧ ∀ next, decode first next = .ok i) ∨
      ∃ opcode direction x, decode first none = .error .missingWord ∧
        ∀ w, decode first (some w) = .ok ⟨opcode, direction, x, .word w⟩ := by
  simp only [decode, bind, Except.bind]
  cases readOpcode (first.field .opcode) with
  | error fault => exact .inl ⟨fault, fun _ => rfl⟩
  | ok opcode =>
    dsimp only
    cases readDirection opcode (first.field .direction) with
    | error fault => exact .inl ⟨fault, fun _ => rfl⟩
    | ok direction =>
      dsimp only
      cases readRegister (first.field .x) with
      | error fault => exact .inl ⟨fault, fun _ => rfl⟩
      | ok x =>
        cases AddressMode.ofTrit (.sign (first.field .mode)) with
        | register =>
          simp only [readSource]
          cases readRegister (first.field .y) with
          | error fault => exact .inl ⟨fault, fun _ => rfl⟩
          | ok r => exact .inr (.inl ⟨⟨opcode, direction, x, .register r⟩, nofun, fun _ => rfl⟩)
        | short =>
          exact .inr (.inl ⟨⟨opcode, direction, x, .short (first.field .y)⟩, nofun, fun _ => rfl⟩)
        | word => exact .inr (.inr ⟨opcode, direction, x, rfl, fun _ => rfl⟩)

/-- The word that follows shows in the operand alone, and only if the mode asks for it. -/
theorem decode_some (first w w' : Word) :
    decode first (some w') = (decode first (some w)).map fun i =>
      if i.mode = .word then { i with source := .word w' } else i := by
  obtain ⟨fault, same⟩ | ⟨i, short, same⟩ | ⟨opcode, direction, x, -, found⟩ := decode_cases first
  · rw [same, same]
    rfl
  · rw [same, same, Except.map, if_neg short]
  · rw [found, found]
    rfl

theorem encode_eq_ok_iff :
    i.encode = .ok e ↔
      ∃ y direction, yValue i.source = .ok y ∧
        directionValue i.opcode i.direction = .ok direction ∧
        pack i.opcode.value i.mode.trit.toInt direction i.x.selector y = .ok e.first ∧
        valueWord? i.source = e.second := by
  simp only [encode, bind_eq_ok_iff, pure_eq_ok_iff, mapError_eq_ok_iff]
  constructor
  · rintro ⟨y, hy, direction, hd, first, hf, rfl⟩
    exact ⟨y, direction, hy, hd, hf, rfl⟩
  · rintro ⟨y, direction, hy, hd, hf, hs⟩
    exact ⟨y, hy, direction, hd, e.first, hf, by rw [hs]⟩

theorem fields_of_pack {opcode mode direction x y : Int}
    (h : pack opcode mode direction x y = .ok first) :
    first.field .opcode = opcode ∧ first.field .mode = mode ∧
      first.field .direction = direction ∧ first.field .x = x ∧ first.field .y = y := by
  simp only [pack, bind_eq_ok_iff] at h
  obtain ⟨w₁, h₁, w₂, h₂, w₃, h₃, w₄, h₄, h₅⟩ := h
  refine ⟨?_, ?_, ?_, ?_, Word.field_of_setField h₅⟩
  · rw [Word.field_of_setField_of_apart h₅ (by decide),
      Word.field_of_setField_of_apart h₄ (by decide),
      Word.field_of_setField_of_apart h₃ (by decide),
      Word.field_of_setField_of_apart h₂ (by decide), Word.field_of_setField h₁]
  · rw [Word.field_of_setField_of_apart h₅ (by decide),
      Word.field_of_setField_of_apart h₄ (by decide),
      Word.field_of_setField_of_apart h₃ (by decide), Word.field_of_setField h₂]
  · rw [Word.field_of_setField_of_apart h₅ (by decide),
      Word.field_of_setField_of_apart h₄ (by decide), Word.field_of_setField h₃]
  · rw [Word.field_of_setField_of_apart h₅ (by decide), Word.field_of_setField h₄]

/-! ### The round trip -/

theorem readOpcode_eq_ok_iff {v : Int} {opcode : Opcode} :
    readOpcode v = .ok opcode ↔ opcode.value = v := by
  constructor
  · intro h
    rw [readOpcode] at h
    split at h
    · next found =>
      cases h
      exact Opcode.value_of_ofValue? found
    · cases h
  · rintro rfl
    rw [readOpcode, Opcode.ofValue?_value]

theorem readRegister_eq_ok_iff {v : Int} {r : Register} :
    readRegister v = .ok r ↔ r.selector = v := by
  constructor
  · intro h
    rw [readRegister] at h
    split at h
    · next found =>
      cases h
      exact Register.selector_of_ofSelector? found
    · cases h
  · rintro rfl
    rw [readRegister, Register.ofSelector?_selector]

theorem readDirection_eq_ok_iff {opcode : Opcode} {direction : Direction} {v : Int} :
    readDirection opcode v = .ok direction ↔ directionValue opcode direction = .ok v := by
  constructor
  · intro h
    rw [readDirection] at h
    split at h
    · next zero =>
      cases h
      rw [zero]
      rfl
    · split at h
      · next store =>
        cases h
        rw [store.1, directionValue, if_pos store.2]
      · cases h
  · intro h
    cases direction with
    | load =>
      cases h
      rfl
    | store =>
      rw [directionValue] at h
      split at h
      · next lod =>
        cases h
        rw [lod]
        rfl
      · cases h

theorem readSource_of_yValue {source : Source} {y : Int} (h : yValue source = .ok y)
    (follows : ∀ w, valueWord? source = some w → next = some w) :
    readSource source.mode y next = .ok source := by
  cases source with
  | register r =>
    cases h
    rw [Source.mode, readSource, readRegister_eq_ok_iff.mpr rfl]
    rfl
  | short v =>
    rw [yValue] at h
    split at h
    · cases h
      rfl
    · cases h
  | word w =>
    rw [follows w rfl]
    rfl

theorem mode_of_readSource {mode : AddressMode} {y : Int} {next : Option Word} {source : Source}
    (h : readSource mode y next = .ok source) : source.mode = mode := by
  cases mode with
  | register =>
    obtain ⟨r, -, rfl⟩ := map_eq_ok_iff.mp h
    rfl
  | short =>
    cases h
    rfl
  | word =>
    cases next with
    | none => cases h
    | some w =>
      cases h
      rfl

theorem valueWord?_of_readSource {mode : AddressMode} {y : Int} {source : Source}
    (h : readSource mode y next = .ok source) :
    valueWord? source = if mode = .word then next else none := by
  cases mode with
  | register =>
    obtain ⟨r, -, rfl⟩ := map_eq_ok_iff.mp h
    rfl
  | short =>
    cases h
    rfl
  | word =>
    cases next with
    | none => cases h
    | some w =>
      cases h
      rfl

/-- An instruction decodes from its words to itself.  The word after it matters only if the
instruction has a value word. -/
theorem decode_of_encode (h : i.encode = .ok e)
    (follows : ∀ w, e.second = some w → next = some w) : decode e.first next = .ok i := by
  obtain ⟨y, direction, hy, hd, packed, hs⟩ := encode_eq_ok_iff.mp h
  obtain ⟨fo, fm, fd, fx, fy⟩ := fields_of_pack packed
  rw [decode_eq_ok_iff, fo, fm, fd, fx, fy, Trit.sign_toInt, AddressMode.ofTrit_trit]
  exact ⟨readOpcode_eq_ok_iff.mpr rfl, readDirection_eq_ok_iff.mpr hd,
    readRegister_eq_ok_iff.mpr rfl,
    readSource_of_yValue hy (hs ▸ follows)⟩

theorem decode_of_encode_single (h : i.encode = .ok e) (single : e.second = none)
    (next : Option Word) : decode e.first next = .ok i := by
  apply decode_of_encode h
  intro w second
  rw [single] at second
  cases second

theorem exists_pack {opcode mode direction x y : Int} (ho : -13 ≤ opcode ∧ opcode ≤ 13)
    (hm : -1 ≤ mode ∧ mode ≤ 1) (hd : -1 ≤ direction ∧ direction ≤ 1) (hx : -4 ≤ x ∧ x ≤ 4)
    (hy : -4 ≤ y ∧ y ≤ 4) : ∃ w, pack opcode mode direction x y = .ok w := by
  simp only [pack, bind_eq_ok_iff]
  obtain ⟨w₁, h₁⟩ := Word.setField_eq_ok (f := .opcode) .zero ho.1 ho.2
  obtain ⟨w₂, h₂⟩ := Word.setField_eq_ok (f := .mode) w₁ hm.1 hm.2
  obtain ⟨w₃, h₃⟩ := Word.setField_eq_ok (f := .direction) w₂ hd.1 hd.2
  obtain ⟨w₄, h₄⟩ := Word.setField_eq_ok (f := .x) w₃ hx.1 hx.2
  obtain ⟨w₅, h₅⟩ := Word.setField_eq_ok (f := .y) w₄ hy.1 hy.2
  exact ⟨w₅, w₁, h₁, w₂, h₂, w₃, h₃, w₄, h₄, h₅⟩

theorem bounds_of_yValue {source : Source} {y : Int} (h : yValue source = .ok y) :
    -4 ≤ y ∧ y ≤ 4 := by
  cases source with
  | register r =>
    cases h
    cases r <;> decide
  | short v =>
    rw [yValue] at h
    split at h
    · next bounds =>
      cases h
      exact bounds
    · cases h
  | word w =>
    cases h
    decide

theorem bounds_of_directionValue {opcode : Opcode} {direction : Direction} {v : Int}
    (h : directionValue opcode direction = .ok v) : -1 ≤ v ∧ v ≤ 1 := by
  cases direction with
  | load =>
    cases h
    decide
  | store =>
    rw [directionValue] at h
    split at h
    · cases h
      decide
    · cases h

/-- What is written of an operand that was read is its field, or zero in front of a value word. -/
theorem yValue_of_readSource {mode : AddressMode} {v : Int} {source : Source}
    (bounds : -Source.shortLimit ≤ v ∧ v ≤ Source.shortLimit)
    (h : readSource mode v next = .ok source) :
    yValue source = .ok (if mode = .word then 0 else v) := by
  cases mode with
  | register =>
    obtain ⟨r, found, rfl⟩ := map_eq_ok_iff.mp h
    rw [yValue, readRegister_eq_ok_iff.mp found, if_neg (by decide)]
  | short =>
    cases h
    rw [yValue, if_pos bounds, if_neg (by decide)]
  | word =>
    cases next with
    | none => cases h
    | some w =>
      cases h
      rfl

/-- An instruction has words if its operand and its direction are allowed. -/
theorem exists_encode {y direction : Int} (hy : yValue i.source = .ok y)
    (hd : directionValue i.opcode i.direction = .ok direction) : ∃ e, i.encode = .ok e := by
  have ho : -13 ≤ i.opcode.value ∧ i.opcode.value ≤ 13 := by cases i.opcode <;> decide
  have hm : -1 ≤ i.mode.trit.toInt ∧ i.mode.trit.toInt ≤ 1 := by cases i.mode <;> decide
  have hx : -4 ≤ i.x.selector ∧ i.x.selector ≤ 4 := by cases i.x <;> decide
  obtain ⟨w, packed⟩ := exists_pack ho hm (bounds_of_directionValue hd) hx (bounds_of_yValue hy)
  exact ⟨⟨w, valueWord? i.source⟩, encode_eq_ok_iff.mpr ⟨y, direction, hy, hd, packed, rfl⟩⟩

theorem encode_of_decode (h : decode first next = .ok i) :
    ∃ e, i.encode = .ok e ∧ decode e.first e.second = .ok i := by
  obtain ⟨-, direction, -, source⟩ := decode_eq_ok_iff.mp h
  obtain ⟨e, encoded⟩ := exists_encode (yValue_of_readSource (first.field_bounds .y) source)
    (readDirection_eq_ok_iff.mp direction)
  exact ⟨e, encoded, decode_of_encode encoded fun _ => id⟩

theorem length_words_of_encode (h : i.encode = .ok e) : e.words.length = i.words := by
  obtain ⟨y, direction, hy, hd, packed, hs⟩ := encode_eq_ok_iff.mp h
  rw [Encoding.words, ← hs, words, mode]
  cases i.source with
  | register r => rfl
  | short v => rfl
  | word w => rfl

theorem words_pos (i : Instruction) : 0 < i.words := by
  rw [words]
  cases i.mode <;> decide

theorem decode_zero (next : Option Word) : decode .zero next = .ok nop := by
  rw [decode_eq_ok_iff]
  exact ⟨rfl, rfl, rfl, rfl⟩

end Instruction

end TernaryMachine
