import TernaryMachine.Proofs.Codec
import TernaryMachine.Proofs.Literal
import TernaryMachine.Proofs.Program
import TernaryMachine.Proofs.Statement
import TernaryMachine.Proofs.Word
/-! # Reading back the text of an instruction

The text of an instruction is a line of a program, and the line says what the instruction is: its
opcode, its direction, its registers and its operand as a word (`Statement.parse_text`).

* **Plain texts.**  Mnemonics, names of registers and words have no blank, comma or semicolon in
  them (`Text.Plain`), so a line that is put together from them is taken apart into them
  (`tokens_operandText`).
* **Regular instructions.**  A line has no place for the register of an instruction that uses none;
  it is `r0` in every instruction that comes from a line (`Instruction.regular_of_parse`).
* **Shortest operands.**  The text of a word operand does not say that it was a word.  Read back, it
  is the shortest operand for its value (`Instruction.resolve_statement`). -/

namespace TernaryMachine

/-! ### Plain texts -/

theorem Register.plain_name (r : Register) : Text.Plain r.name.toList := by
  cases r <;> exact .of_isPlain rfl

theorem Source.plain_text (source : Source) : Text.Plain source.text.toList := by
  cases source with
  | register r => exact r.plain_name
  | short v => exact Word.plain_text _
  | word w => exact Word.plain_text _

theorem Opcode.plain_mnemonic (opcode : Opcode) : Text.Plain opcode.mnemonic.toList := by
  cases opcode <;> exact .of_isPlain rfl

theorem Instruction.plain_mnemonic (i : Instruction) : Text.Plain i.mnemonic.toList := by
  unfold Instruction.mnemonic
  split
  · exact .of_isPlain rfl
  · exact Opcode.plain_mnemonic _

/-! ### Operands -/

theorem Register.parse?_name (r : Register) : parse? r.name.toList = some r := by
  cases r <;> rfl

theorem Register.length_name (r : Register) : r.name.toList.length = 2 := by
  cases r <;> rfl

theorem Word.parse?_text (w : Word) : Register.parse? w.text.toList = none := by
  refine List.find?_eq_none.mpr fun r _ same => ?_
  have length := congrArg List.length (beq_iff_eq.mp same)
  rw [r.length_name, List.length_map, w.length_text] at length
  cases length

namespace Source

/-- The operand that the text of a source operand is read as. -/
def operand : Source → Operand
  | register r => .register r
  | short v => .immediate (.wrap v)
  | word w => .immediate w

/-- The shortest operand of the same value. -/
def shortest : Source → Source
  | register r => register r
  | short v => short v
  | word w => immediate w

theorem isLabel_operand (source : Source) : source.operand.isLabel = false := by
  cases source <;> rfl

end Source

theorem Operand.parse_of_head {token : List Char} (h : token.head? ≠ some '.') (position : Nat) :
    Operand.parse position token =
      match Register.parse? token with
      | some r => .ok (.register r)
      | none =>
        match Word.parse (String.ofList token) with
        | .ok w => .ok (.immediate w)
        | .error _ => .error (.unreadable position (String.ofList token)) := by
  unfold Operand.parse
  split
  · exact absurd rfl h
  · rfl

theorem Operand.parse_register (r : Register) (position : Nat) :
    Operand.parse position r.name.toList = .ok (.register r) := by
  rw [parse_of_head (by cases r <;> decide), r.parse?_name]

theorem Operand.parse_immediate (w : Word) (position : Nat) :
    Operand.parse position w.text.toList = .ok (.immediate w) := by
  have head : w.text.toList.head? ≠ some '.' :=
    fun point => (w.plain_text.of_mem (List.mem_of_mem_head? point)).2.2 rfl
  rw [parse_of_head head, w.parse?_text, String.ofList_toList, w.parse_text]

theorem Source.parse_text (source : Source) (position : Nat) :
    Operand.parse position source.text.toList = .ok source.operand := by
  cases source with
  | register r => exact Operand.parse_register r position
  | short v => exact Operand.parse_immediate _ position
  | word w => exact Operand.parse_immediate w position

/-! ### Lines -/

namespace Statement

variable {cs as bs name xs : List Char}

theorem tokens_of_ne_nil (h : cs ≠ []) : tokens cs = (Text.split ',' cs).map Text.trim := by
  unfold tokens
  split
  · exact absurd rfl h
  · rfl

theorem tokens_of_plain (h : Text.Plain cs) : tokens cs = [cs] := by
  rw [tokens_of_ne_nil h.ne_nil, Text.split_of_not_mem h.comma_not_mem, List.map_singleton, h.trim]

theorem tokens_pair (ha : Text.Plain as) (hb : Text.Plain bs) :
    tokens (as ++ [',', ' '] ++ bs) = [as, bs] := by
  have some_text : as ++ [',', ' '] ++ bs ≠ [] := by simp
  have comma : ',' ∉ ' ' :: bs := by simp [hb.comma_not_mem]
  have parts : Text.split ',' (as ++ [',', ' '] ++ bs) = [as, ' ' :: bs] := by
    rw [List.append_assoc]
    show Text.split ',' (as ++ ',' :: ' ' :: bs) = _
    rw [Text.split_append, Text.split_of_not_mem ha.comma_not_mem, Text.split_of_not_mem comma,
      List.singleton_append]
  rw [tokens_of_ne_nil some_text, parts, List.map_cons, List.map_singleton, ha.trim,
    Text.trim_blank_cons (by decide), hb.trim]

theorem parts_append (blanks : ∀ c ∈ name, Text.isBlank c = false)
    (ends : ∀ c ∈ xs.head?, Text.isBlank c = true) :
    mnemonicPart (name ++ xs) = name ∧ operandPart (name ++ xs) = Text.trim xs := by
  have front : ∀ c ∈ name, (fun c => !Text.isBlank c) c = true := by
    intro c mem
    simp [blanks c mem]
  rw [mnemonicPart, operandPart, List.takeWhile_append_of_pos front,
    List.dropWhile_append_of_pos front]
  cases xs with
  | nil => exact ⟨List.append_nil _, rfl⟩
  | cons x xs =>
    have blank := ends x rfl
    rw [List.takeWhile_cons_of_neg (by simp [blank]), List.dropWhile_cons_of_neg (by simp [blank])]
    exact ⟨List.append_nil _, rfl⟩

theorem mnemonicPart_append (h : Text.Plain name) (rest : List Char) :
    mnemonicPart (name ++ ' ' :: rest) = name :=
  (parts_append h.not_blank (by rintro c ⟨⟩; decide)).1

theorem operandPart_append (h : Text.Plain name) (rest : List Char) :
    operandPart (name ++ ' ' :: rest) = Text.trim rest := by
  rw [(parts_append h.not_blank (by rintro c ⟨⟩; decide)).2, Text.trim_blank_cons (by decide)]

theorem parts_of_plain (h : Text.Plain name) :
    mnemonicPart name = name ∧ operandPart name = [] := by
  have none : ∀ c ∈ ([] : List Char).head?, Text.isBlank c = true := by simp
  have parts := parts_append h.not_blank none
  rwa [List.append_nil] at parts

end Statement

theorem Opcode.parse?_mnemonic (opcode : Opcode) :
    Mnemonic.parse? opcode.mnemonic.toList =
      some ⟨opcode, .load, Mnemonic.signatureOf opcode⟩ := by
  cases opcode <;> decide

namespace Instruction

variable {i : Instruction}

/-- The operands of an instruction as its text writes them. -/
def operandText (i : Instruction) : List Char :=
  if i.opcode.isControlFlow then
    i.source.text.toList
  else
    i.x.name.toList ++ [',', ' '] ++ i.source.text.toList

theorem toList_text_of_nop (h : i.opcode = .nop) : i.text.toList = i.mnemonic.toList := by
  rw [text, if_pos h]

theorem toList_text (h : i.opcode ≠ .nop) :
    i.text.toList = i.mnemonic.toList ++ ' ' :: i.operandText := by
  rw [text, if_neg h, operandText]
  split
  · simp [toString]
  · simp [toString]

theorem trim_operandText (i : Instruction) : Text.trim i.operandText = i.operandText := by
  rw [operandText]
  split
  · exact i.source.plain_text.trim
  · exact i.x.plain_name.trim_append i.source.plain_text _

theorem tokens_operandText (i : Instruction) :
    Statement.tokens i.operandText =
      if i.opcode.isControlFlow then
        [i.source.text.toList]
      else
        [i.x.name.toList, i.source.text.toList] := by
  rw [operandText]
  split
  · exact Statement.tokens_of_plain i.source.plain_text
  · exact Statement.tokens_pair i.x.plain_name i.source.plain_text

/-- The statement that the text of an instruction is read as. -/
def statement (i : Instruction) : Statement :=
  ⟨i.opcode, i.direction, i.x, i.source.operand⟩

/-- What is not said by the text of an instruction is as the text is read. -/
structure Regular (i : Instruction) : Prop where
  nop : i.opcode = .nop → i = .nop
  target : i.opcode.isControlFlow = true → i.x = .r0
  store : i.direction = .store → i.opcode = .lod

theorem parse?_mnemonic (regular : i.Regular) :
    Mnemonic.parse? i.mnemonic.toList =
      some ⟨i.opcode, i.direction, Mnemonic.signatureOf i.opcode⟩ := by
  obtain ⟨opcode, direction, x, source⟩ := i
  cases direction with
  | load =>
    have load : Instruction.mnemonic ⟨opcode, .load, x, source⟩ = opcode.mnemonic := by
      cases opcode <;> rfl
    rw [load, Opcode.parse?_mnemonic]
  | store =>
    obtain rfl : opcode = .lod := regular.store rfl
    show Mnemonic.parse? "STA".toList = some ⟨.lod, .store, Mnemonic.signatureOf .lod⟩
    decide

end Instruction

theorem Mnemonic.signatureOf_eq (opcode : Opcode) (h : opcode ≠ .nop) :
    signatureOf opcode =
      if opcode.isControlFlow then .target else if opcode = .lod then .address else .value := by
  rw [signatureOf, if_neg h]

theorem Statement.ofPair_register (m : Mnemonic) (x : Register) {second : Operand}
    (h : second.isLabel = false) :
    ofPair m (.register x) second = .ok ⟨m.opcode, m.direction, x, second⟩ := by
  obtain ⟨opcode, direction, signature⟩ := m
  cases second with
  | register r => cases signature <;> rfl
  | immediate w => cases signature <;> rfl
  | label name => cases h

/-- **Reading back**: the text of a regular instruction says what the instruction is. -/
theorem Statement.parse_text {i : Instruction} (regular : i.Regular) :
    Statement.parse i.text.toList = .ok i.statement := by
  have mnemonic := Instruction.parse?_mnemonic regular
  have plain := i.plain_mnemonic
  by_cases nop : i.opcode = .nop
  · rw [Statement.parse, Instruction.toList_text_of_nop nop, (parts_of_plain plain).1, mnemonic,
      (parts_of_plain plain).2, regular.nop nop]
    rfl
  · rw [Statement.parse, Instruction.toList_text nop, mnemonicPart_append plain, mnemonic,
      operandPart_append plain, i.trim_operandText, i.tokens_operandText,
      Mnemonic.signatureOf_eq _ nop]
    by_cases jumps : i.opcode.isControlFlow = true
    · rw [if_pos jumps, if_pos jumps]
      simp only [parseOperands, i.source.parse_text]
      show Except.ok (Statement.mk i.opcode i.direction .r0 i.source.operand) = .ok i.statement
      rw [← regular.target jumps]
      rfl
    · rw [if_neg jumps, if_neg jumps]
      have pair : ∀ m : Mnemonic, (do
          let first ← Operand.parse 1 i.x.name.toList
          let second ← Operand.parse 2 i.source.text.toList
          ofPair m first second) = .ok ⟨m.opcode, m.direction, i.x, i.source.operand⟩ := by
        intro m
        rw [Operand.parse_register, i.source.parse_text]
        exact ofPair_register m i.x i.source.isLabel_operand
      by_cases memory : i.opcode = .lod
      · rw [if_pos memory]
        simp only [parseOperands, pair]
        rfl
      · rw [if_neg memory]
        simp only [parseOperands, pair]
        rfl

namespace Instruction

theorem trim_text (i : Instruction) : Text.trim i.text.toList = i.text.toList := by
  have mnemonic := i.plain_mnemonic
  have source := i.source.plain_text
  by_cases nop : i.opcode = .nop
  · rw [toList_text_of_nop nop, mnemonic.trim]
  · rw [toList_text nop, operandText]
    split
    · have line := mnemonic.trim_append source [' ']
      rw [List.append_assoc] at line
      exact line
    · have line := mnemonic.trim_append source (' ' :: (i.x.name.toList ++ [',', ' ']))
      rw [List.append_assoc] at line
      exact line

theorem of_mem_text {i : Instruction} {c : Char} (h : c ∈ i.text.toList) :
    c ≠ ';' ∧ c ≠ '\n' ∧ c ≠ '.' := by
  by_cases nop : i.opcode = .nop
  · rw [toList_text_of_nop nop] at h
    exact i.plain_mnemonic.of_mem h
  · rw [toList_text nop, operandText, List.mem_append, List.mem_cons] at h
    rcases h with h | rfl | h
    · exact i.plain_mnemonic.of_mem h
    · decide
    · split at h
      · exact i.source.plain_text.of_mem h
      · rw [List.mem_append, List.mem_append] at h
        rcases h with (h | h) | h
        · exact i.x.plain_name.of_mem h
        · have special : c = ',' ∨ c = ' ' := by simpa using h
          rcases special with rfl | rfl <;> decide
        · exact i.source.plain_text.of_mem h

theorem significant_text (i : Instruction) :
    Text.significant i.text.toList = i.text.toList :=
  Text.significant_eq_self (fun mem => (of_mem_text mem).1 rfl) i.trim_text

theorem text_ne_nil (i : Instruction) : i.text.toList ≠ [] := by
  have mnemonic := i.plain_mnemonic.ne_nil
  by_cases nop : i.opcode = .nop
  · rw [toList_text_of_nop nop]
    exact mnemonic
  · rw [toList_text nop]
    exact List.append_ne_nil_of_left_ne_nil mnemonic _

theorem parse_entry {i : Instruction} (regular : i.Regular) :
    Entry.parse i.text.toList = .ok (.statement i.statement) :=
  Entry.parse_eq_statement_iff.mpr
    ⟨fun point => (of_mem_text (List.mem_of_mem_head? point)).2.2 rfl,
      Statement.parse_text regular⟩

end Instruction

/-! ### Regular instructions -/

theorem Mnemonic.signature_of_parse? {name : List Char} {m : Mnemonic} (h : parse? name = some m) :
    m.signature = signatureOf m.opcode ∧ (m.direction = .store → m.opcode = .lod) := by
  unfold parse? ofCapitals? at h
  split at h
  · cases h
    exact ⟨rfl, fun _ => rfl⟩
  · split at h
    · cases h
      exact ⟨rfl, fun _ => rfl⟩
    · obtain ⟨opcode, -, rfl⟩ := Option.map_eq_some_iff.mp h
      exact ⟨rfl, fun store => by cases store⟩

theorem Mnemonic.signatureOf_cases (opcode : Opcode) :
    (signatureOf opcode = .empty ↔ opcode = .nop) ∧
      (signatureOf opcode = .target ↔ opcode.isControlFlow = true) := by
  cases opcode <;> decide

theorem Instruction.regular_of_parse {cs : List Char} {s : Statement} {labels : Table String Word}
    {i : Instruction} (h : Statement.parse cs = .ok s) (resolved : s.resolve labels = .ok i) :
    i.Regular := by
  obtain ⟨m, found, opcode, direction, operands⟩ := Statement.parse_cases h
  obtain ⟨signature, store⟩ := Mnemonic.signature_of_parse? found
  obtain ⟨is_empty, is_target⟩ := Mnemonic.signatureOf_cases m.opcode
  obtain ⟨operand, same_opcode, same_direction, same_x⟩ := Statement.resolve_eq_ok_iff.mp resolved
  rw [← signature, ← opcode, ← same_opcode] at is_empty is_target
  rw [← direction, ← same_direction, ← opcode, ← same_opcode] at store
  refine ⟨fun nop => ?_, fun jumps => ?_, store⟩
  · have empty := is_empty.mpr nop
    obtain ⟨-, -, x, register⟩ | ⟨target, -⟩ | ⟨value | address, -⟩ := operands
    · have load : i.direction = .load := by
        cases d : i.direction with
        | load => rfl
        | store =>
          rw [store d] at nop
          cases nop
      rw [register, Operand.resolve, Except.ok.injEq] at operand
      obtain ⟨_, _, _, _⟩ := i
      simp only at nop load operand same_x
      rw [nop, load, ← operand, same_x, x]
      rfl
    · simp [empty] at target
    · simp [empty] at value
    · simp [empty] at address
  · have target := is_target.mpr jumps
    obtain ⟨empty, -⟩ | ⟨-, x, -⟩ | ⟨value | address, -⟩ := operands
    · simp [target] at empty
    · rw [same_x, x]
    · simp [target] at value
    · simp [target] at address

/-! ### Shortest operands -/

namespace Source

/-- The shortest operand is another one exactly for a word that fits in an instruction. -/
theorem shortest_eq_self_iff {source : Source} : source.shortest = source ↔
    ∀ w, source = .word w → w.toInt < -shortLimit ∨ shortLimit < w.toInt := by
  cases source with
  | register r => simp [shortest]
  | short v => simp [shortest]
  | word w =>
    rw [shortest, immediate]
    simp only [word.injEq, forall_eq']
    split
    · next fits =>
      simp only [reduceCtorEq, false_iff]
      omega
    · next wide =>
      simp only [true_iff]
      omega

theorem words_shortest_lt {source : Source} (h : source.shortest ≠ source) :
    source.shortest.mode.words < source.mode.words := by
  cases source with
  | register r => exact absurd rfl h
  | short v => exact absurd rfl h
  | word w =>
    rw [shortest, immediate] at h ⊢
    split
    · show 1 < 2
      decide
    · next wide => exact absurd (if_neg wide) h

theorem exists_yValue_shortest {source : Source} {y : Int}
    (h : Instruction.yValue source = .ok y) :
    ∃ y', Instruction.yValue source.shortest = .ok y' := by
  cases source with
  | register r => exact ⟨y, h⟩
  | short v => exact ⟨y, h⟩
  | word w =>
    rw [shortest, immediate]
    split
    · next fits => exact ⟨w.toInt, if_pos fits⟩
    · exact ⟨0, rfl⟩

theorem resolve_operand {source : Source} {y : Int} (h : Instruction.yValue source = .ok y)
    (labels : Table String Word) : source.operand.resolve labels = .ok source.shortest := by
  cases source with
  | register r => rfl
  | word w => rfl
  | short v =>
    rw [Instruction.yValue] at h
    split at h
    · next fits =>
      have small := fits
      simp only [shortLimit] at small
      have value := Word.toInt_wrap_of_le (v := v) (by simp only [Word.limit]; omega)
        (by simp only [Word.limit]; omega)
      rw [operand, Operand.resolve, immediate, value, if_pos fits]
      rfl
    · cases h

end Source

namespace Instruction

variable {i : Instruction} {e : Encoding}

/-- The instruction with the shortest operand of the same value. -/
def shortest (i : Instruction) : Instruction :=
  { i with source := i.source.shortest }

theorem resolve_statement (h : i.encode = .ok e) (labels : Table String Word) :
    i.statement.resolve labels = .ok i.shortest := by
  obtain ⟨y, _, hy, -⟩ := encode_eq_ok_iff.mp h
  exact Statement.resolve_eq_ok_iff.mpr ⟨Source.resolve_operand hy labels, rfl, rfl, rfl⟩

theorem exists_encode_shortest (h : i.encode = .ok e) : ∃ e', i.shortest.encode = .ok e' := by
  obtain ⟨y, direction, hy, hd, -⟩ := encode_eq_ok_iff.mp h
  obtain ⟨y', hy'⟩ := Source.exists_yValue_shortest hy
  exact exists_encode (i := i.shortest) hy' hd

theorem shortest_eq_self_iff : i.shortest = i ↔ i.source.shortest = i.source := by
  obtain ⟨opcode, direction, x, source⟩ := i
  simp [shortest]

/-- An instruction is longer than need be exactly if a word operand fits in it. -/
theorem words_shortest_lt (h : i.shortest ≠ i) : i.shortest.words < i.words :=
  Source.words_shortest_lt (mt shortest_eq_self_iff.mpr h)

theorem words_shortest_le (i : Instruction) : i.shortest.words ≤ i.words := by
  by_cases same : i.shortest = i
  · rw [same]
  · exact (words_shortest_lt same).le

end Instruction

end TernaryMachine
