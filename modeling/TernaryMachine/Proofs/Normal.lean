import TernaryMachine.Machine
import TernaryMachine.Proofs.CodecDomain
import TernaryMachine.Proofs.Reading
/-! # Normal instructions

The text of an instruction leaves out what the instruction does not use: everything of `nop` but its
opcode, the register `x` of a branch, the direction of an opcode that has only one, and whether an
immediate is short or a word of its own.  `Instruction.normal` gives these parts the values that
they have in an instruction read from a line.

* **Text.**  An instruction and its normal form have the same text (`text_normal`), and that text
  is a program of the normal form alone (`assemble_normal`).  So a text says what the normal form
  of its instruction is, and nothing more (`text_eq_text_iff`).
* **Effect.**  The parts that are left out are never looked at when an instruction is executed
  (`Machine.execute_normal`), so instructions with the same text do the same. -/

namespace TernaryMachine

/-! ### Operands -/

namespace Source

/-- The operand that is read from a text: an immediate becomes the shortest one of its value. -/
def normal : Source → Source
  | register r => register r
  | short v => immediate (.wrap v)
  | word w => immediate w

theorem immediate_cases (w : Word) :
    immediate w = short w.toInt ∧ -shortLimit ≤ w.toInt ∧ w.toInt ≤ shortLimit ∨
      immediate w = word w ∧ ¬ (-shortLimit ≤ w.toInt ∧ w.toInt ≤ shortLimit) := by
  rw [immediate]
  split
  · next fits => exact .inl ⟨rfl, fits⟩
  · next wide => exact .inr ⟨rfl, wide⟩

theorem normal_immediate (w : Word) : (immediate w).normal = immediate w := by
  obtain ⟨short, -⟩ | ⟨word, -⟩ := immediate_cases w
  · rw [short, normal, Word.wrap_toInt, short]
  · rw [word, normal, word]

theorem normal_normal (source : Source) : source.normal.normal = source.normal := by
  cases source with
  | register r => rfl
  | short v => exact normal_immediate _
  | word w => exact normal_immediate w

theorem text_immediate (w : Word) : (immediate w).text = w.text := by
  obtain ⟨short, -⟩ | ⟨word, -⟩ := immediate_cases w
  · rw [short, text, Word.wrap_toInt]
  · rw [word, text]

theorem text_normal (source : Source) : source.normal.text = source.text := by
  cases source with
  | register r => rfl
  | short v => exact text_immediate _
  | word w => exact text_immediate w

theorem fits_immediate (w : Word) : (immediate w).Fits := by
  intro v same
  obtain ⟨short, fits⟩ | ⟨word, -⟩ := immediate_cases w
  · rw [short, Source.short.injEq] at same
    rw [← same]
    exact fits
  · rw [word] at same
    cases same

theorem fits_normal (source : Source) : source.normal.Fits := by
  cases source with
  | register r =>
    intro v same
    cases same
  | short v => exact fits_immediate _
  | word w => exact fits_immediate w

theorem resolve_operand_eq_normal (source : Source) (labels : Table String Word) :
    source.operand.resolve labels = .ok source.normal := by
  cases source <;> rfl

end Source

/-! ### Instructions -/

namespace Instruction

variable {i j : Instruction}

/-- The instruction that is read from the text of an instruction. -/
def normal (i : Instruction) : Instruction :=
  if i.opcode = .nop then
    nop
  else if i.opcode.isControlFlow then
    branch i.opcode i.source.normal
  else
    ⟨i.opcode, if i.opcode = .lod then i.direction else .load, i.x, i.source.normal⟩

theorem normal_of_controlFlow (h : i.opcode.isControlFlow = true) :
    i.normal = branch i.opcode i.source.normal := by
  have used : i.opcode ≠ .nop := by
    intro nop
    rw [nop] at h
    cases h
  rw [normal, if_neg used, if_pos h]

theorem normal_of_ne (used : i.opcode ≠ .nop) (stays : ¬ i.opcode.isControlFlow = true) :
    i.normal = ⟨i.opcode, if i.opcode = .lod then i.direction else .load, i.x,
      i.source.normal⟩ := by
  rw [normal, if_neg used, if_neg stays]

/-- The three forms of a line, and what the normal instruction is in each. -/
theorem normal_cases (i : Instruction) :
    i.opcode = .nop ∧ i.normal = nop ∨
      i.opcode.isControlFlow = true ∧ i.normal = branch i.opcode i.source.normal ∨
      (i.opcode ≠ .nop ∧ ¬ i.opcode.isControlFlow = true) ∧
        i.normal = ⟨i.opcode, if i.opcode = .lod then i.direction else .load, i.x,
          i.source.normal⟩ := by
  by_cases used : i.opcode = .nop
  · exact .inl ⟨used, if_pos used⟩
  · by_cases jumps : i.opcode.isControlFlow = true
    · exact .inr (.inl ⟨jumps, normal_of_controlFlow jumps⟩)
    · exact .inr (.inr ⟨⟨used, jumps⟩, normal_of_ne used jumps⟩)

theorem opcode_normal (i : Instruction) : i.normal.opcode = i.opcode := by
  obtain ⟨nop, same⟩ | ⟨-, same⟩ | ⟨-, same⟩ := i.normal_cases
  · rw [same, nop]
    rfl
  · rw [same]
    rfl
  · rw [same]

theorem mnemonic_normal (i : Instruction) : i.normal.mnemonic = i.mnemonic := by
  obtain ⟨opcode, direction, x, source⟩ := i
  cases opcode <;> cases direction <;> rfl

theorem text_normal (i : Instruction) : i.normal.text = i.text := by
  unfold text
  rw [opcode_normal, mnemonic_normal]
  split
  · rfl
  · next used =>
    split
    · next jumps => rw [normal_of_controlFlow jumps, branch, plain, Source.text_normal]
    · next stays => rw [normal_of_ne used stays, Source.text_normal]

theorem exists_source_normal (i : Instruction) :
    ∃ source : Source, i.normal.source = source.normal := by
  obtain ⟨-, same⟩ | ⟨-, same⟩ | ⟨-, same⟩ := i.normal_cases
  · rw [same]
    exact ⟨.register .r0, rfl⟩
  · rw [same]
    exact ⟨i.source, rfl⟩
  · rw [same]
    exact ⟨i.source, rfl⟩

theorem source_normal_normal (i : Instruction) : i.normal.source.normal = i.normal.source := by
  obtain ⟨source, same⟩ := i.exists_source_normal
  rw [same, source.normal_normal]

theorem fits_source_normal (i : Instruction) : i.normal.source.Fits := by
  obtain ⟨source, same⟩ := i.exists_source_normal
  rw [same]
  exact source.fits_normal

theorem regular_normal (i : Instruction) : i.normal.Regular := by
  refine ⟨fun nop => ?_, fun jumps => ?_, fun store => ?_⟩
  · rw [opcode_normal] at nop
    exact if_pos nop
  · rw [opcode_normal] at jumps
    rw [normal_of_controlFlow jumps]
    rfl
  · obtain ⟨-, same⟩ | ⟨-, same⟩ | ⟨-, same⟩ := i.normal_cases
    · rw [same] at store
      cases store
    · rw [same] at store
      cases store
    · rw [same] at store ⊢
      by_contra other
      rw [if_neg other] at store
      cases store

/-- An instruction that is as it is read from a line, with the shortest operand, is normal. -/
theorem normal_eq_self (regular : i.Regular) (shortest : i.source.normal = i.source) :
    i.normal = i := by
  obtain ⟨nop, same⟩ | ⟨jumps, same⟩ | ⟨-, same⟩ := i.normal_cases
  · rw [same, ← regular.nop nop]
  · have load : i.direction = .load := by
      cases d : i.direction with
      | load => rfl
      | store =>
        rw [regular.store d] at jumps
        cases jumps
    rw [same, shortest, branch, plain, ← regular.target jumps, ← load]
  · have direction : (if i.opcode = .lod then i.direction else .load) = i.direction := by
      split
      · rfl
      · next other =>
        cases d : i.direction with
        | load => rfl
        | store => exact absurd (regular.store d) other
    rw [same, shortest, direction]

theorem normal_normal (i : Instruction) : i.normal.normal = i.normal :=
  normal_eq_self i.regular_normal i.source_normal_normal

theorem exists_encode_normal (i : Instruction) : ∃ e, i.normal.encode = .ok e :=
  exists_encode_iff.mpr ⟨i.fits_source_normal, i.regular_normal.store⟩

theorem resolve_statement_normal (i : Instruction) (labels : Table String Word) :
    i.normal.statement.resolve labels = .ok i.normal := by
  refine Statement.resolve_eq_ok_iff.mpr ⟨?_, rfl, rfl, rfl⟩
  rw [statement, Source.resolve_operand_eq_normal, source_normal_normal]

/-! ### The program of a text -/

theorem words_le_two (i : Instruction) : i.words ≤ 2 := by
  rw [words]
  cases i.mode <;> decide

theorem significantLines_text (i : Instruction) :
    Text.significantLines i.text.toList = [⟨1, i.text.toList⟩] :=
  Text.significantLines_of_significant (fun mem => (of_mem_text mem).2.1 rfl) i.significant_text
    i.text_ne_nil

theorem assemble_normal (i : Instruction) :
    ∃ p, assemble i.text = .ok p ∧
      p.info = ⟨[(0, i.normal)], [(0, 1)], [], [], i.normal.words⟩ := by
  obtain ⟨e, encoded⟩ := i.exists_encode_normal
  have resolved := i.resolve_statement_normal []
  have words := Statement.words_of_resolve resolved
  have placed : Layout.empty.place ⟨1, i.text.toList⟩ =
      .ok (Layout.empty.withStatement 1 i.normal.statement) := by
    rw [← i.text_normal]
    refine Layout.place_eq_ok_iff.mpr (.inr ⟨_, parse_entry i.regular_normal, ?_, rfl⟩)
    have := i.normal.words_le_two
    rw [Layout.empty, Word.limit]
    dsimp only
    omega
  have scanned : Layout.ofSource i.text.toList =
      ⟨Layout.empty.withStatement 1 i.normal.statement, none⟩ := by
    rw [Layout.ofSource, significantLines_text]
    exact Layout.scan_cons_iff.mpr ⟨_, placed, rfl⟩
  have blocks : ∀ b ∈ [Block.mk ⟨0, 1, i.normal.statement⟩ i.normal e], b.Resolved [] := by
    intro b mem
    rw [List.mem_singleton.mp mem]
    exact ⟨resolved, encoded⟩
  obtain ⟨p, emits⟩ := Layout.exists_emits scanned rfl blocks
  refine ⟨p, Program.assemble_eq_ok_iff.mpr ⟨_, _, scanned, emits⟩, ?_⟩
  rw [emits.info, words]
  simp [Layout.withStatement, Layout.empty, Block.entry, Block.lineEntry, Block.address]

/-- Two instructions are written the same exactly if they have the same normal form. -/
theorem text_eq_text_iff : i.text = j.text ↔ i.normal = j.normal := by
  constructor
  · intro same
    obtain ⟨p, assembled, info⟩ := i.assemble_normal
    obtain ⟨q, assembled', info'⟩ := j.assemble_normal
    rw [same, assembled', Except.ok.injEq] at assembled
    rw [assembled, info] at info'
    have entries := congrArg ProgramInfo.instructions info'
    simp only [List.cons.injEq, Prod.mk.injEq, true_and, and_true] at entries
    exact entries
  · intro same
    rw [← i.text_normal, ← j.text_normal, same]

/-- What assembling the text of an instruction makes of it. -/
structure Normalises (i : Instruction) : Prop where
  /-- The text is a program of the normal instruction alone, at address zero. -/
  assembled : ∃ p, assemble i.text = .ok p ∧ p.info.instructions = [(0, i.normal)] ∧
    p.info.labels = [] ∧ p.info.warnings = []
  encoded : ∃ e, i.normal.encode = .ok e
  idempotent : i.normal.normal = i.normal
  /-- A short immediate, of eight bits at most, becomes the shortest operand of its value. -/
  short : ∀ v, i.source = .short v → -128 ≤ v → v ≤ 127 →
    ∃ w : Word, w.toInt = v ∧ i.source.normal = .immediate w
  text_eq_iff : ∀ j : Instruction, i.text = j.text ↔ i.normal = j.normal

/-- **Normal form**: whatever the instruction, its text assembles to its normal form, and says
neither more nor less than what that is. -/
theorem normalises (i : Instruction) : i.Normalises where
  assembled := by
    obtain ⟨p, assembled, info⟩ := i.assemble_normal
    exact ⟨p, assembled, by rw [info], by rw [info], by rw [info]⟩
  encoded := i.exists_encode_normal
  idempotent := i.normal_normal
  short v same lower upper := by
    refine ⟨.wrap v, Word.toInt_wrap_of_le ?_ ?_, by rw [same, Source.normal]⟩
    · rw [Word.limit]
      omega
    · rw [Word.limit]
      omega
  text_eq_iff _ := text_eq_text_iff

/-- A store and a register mean nothing to a branch, and five does not fit in its word. -/
example : (⟨.blt, .store, .sp, .short 5⟩ : Instruction).normal =
    ⟨.blt, .load, .r0, .word (.wrap 5)⟩ := by decide

end Instruction

/-! ### Effect -/

namespace Machine

variable {i j : Instruction}

theorem operand_normal (m : Machine) (source : Source) :
    m.operand source.normal = m.operand source := by
  have immediate : ∀ w : Word, m.operand (.immediate w) = w := by
    intro w
    obtain ⟨short, -⟩ | ⟨word, -⟩ := Source.immediate_cases w
    · rw [short, operand, Word.wrap_toInt]
    · rw [word, operand]
  cases source with
  | register r => rfl
  | short v => exact immediate _
  | word w => exact immediate w

/-- Nothing that normalising changes is looked at. -/
theorem execute_normal (m : Machine) (i : Instruction) : m.execute i.normal = m.execute i := by
  obtain ⟨opcode, direction, x, source⟩ := i
  cases opcode
  case nop => rfl
  all_goals
    simp only [execute, Instruction.normal, Instruction.branch, Instruction.plain,
      Opcode.isControlFlow, Opcode.aluOp?, reduceCtorEq, Bool.false_eq_true, ite_true, ite_false,
      operand_normal]

/-- **Effect**: instructions with the same text do the same to every machine. -/
theorem execute_eq_of_text_eq (same : i.text = j.text) (m : Machine) :
    m.execute i = m.execute j := by
  rw [← m.execute_normal i, ← m.execute_normal j, Instruction.text_eq_text_iff.mp same]

/-- A short immediate and a word of its own, with a direction and a register that the text leaves
out. -/
theorem execute_eq_of_text_eq_branch :
    (⟨.jal, .store, .sp, .short (-4)⟩ : Instruction).text =
        (⟨.jal, .load, .r3, .word (.wrap (-4))⟩ : Instruction).text ∧
      empty.execute ⟨.jal, .store, .sp, .short (-4)⟩ =
        empty.execute ⟨.jal, .load, .r3, .word (.wrap (-4))⟩ :=
  ⟨by decide, execute_eq_of_text_eq (by decide) empty⟩

end Machine

end TernaryMachine
