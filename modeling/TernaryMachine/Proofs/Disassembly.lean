import Mathlib.Algebra.Order.BigOperators.Group.List
import TernaryMachine.Proofs.Reading
/-! # Assembling the text of a program

The text of a program is the texts of its instructions, one on each line.  It always assembles
(`Program.assemble_text`), and to the instructions of the program with the shortest operands for
their values.  So it gives the program back exactly if none of its word operands would fit in an
instruction word (`Program.LaidOut.eq_shortest_iff`).  An immediate is never kept so, but a label
is: its address takes a word of its own even if it is small, and its text does not say that it did
(`Program.not_reassembles`).

`Layout.scan_texts` is the step from the lines to the layout, by induction on the instructions. -/

namespace TernaryMachine

/-! ### Laying out texts -/

/-- The texts of instructions are laid out and resolved to the instructions with the shortest
operands. -/
theorem Layout.scan_texts {is : List Instruction} (regular : ∀ i ∈ is, i.Regular)
    (encoded : ∀ i ∈ is, ∃ e, i.encode = .ok e) (labels : Table String Word) (l : Layout) (n : Nat)
    (fits : (l.length + (is.map fun i => i.shortest.words).sum : Nat) ≤ Word.limit + 1) :
    ∃ (l' : Layout) (bs : List Block),
      l.scan (Text.numbered n (is.map fun i => i.text.toList)) = ⟨l', none⟩ ∧
      l'.labels = l.labels ∧
      l'.length = l.length + (is.map fun i => i.shortest.words).sum ∧
      l'.placed = (bs.map Block.placed).reverse ++ l.placed ∧
      bs.map Block.instruction = is.map Instruction.shortest ∧
      ∀ b ∈ bs, b.Resolved labels := by
  induction is generalizing l n with
  | nil => exact ⟨l, [], rfl, rfl, rfl, rfl, rfl, by simp⟩
  | cons i is ih =>
    obtain ⟨regular, regulars⟩ := List.forall_mem_cons.mp regular
    obtain ⟨⟨e, encode⟩, encoded⟩ := List.forall_mem_cons.mp encoded
    obtain ⟨e', encode'⟩ := Instruction.exists_encode_shortest encode
    have resolved := Instruction.resolve_statement encode labels
    have words := Statement.words_of_resolve resolved
    rw [List.map_cons, List.sum_cons] at fits
    have line : Text.significant i.text.toList ≠ [] := by
      rw [i.significant_text]
      exact i.text_ne_nil
    have placed : l.place ⟨n + 1, i.text.toList⟩ = .ok (l.withStatement (n + 1) i.statement) := by
      have parsed := Instruction.parse_entry regular
      refine Layout.place_eq_ok_iff.mpr (.inr ⟨i.statement, parsed, ?_, rfl⟩)
      omega
    obtain ⟨l', bs, scanned, same, length, order, instructions, all⟩ :=
      ih regulars encoded (l.withStatement (n + 1) i.statement) (n + 1) (by
        rw [Layout.withStatement]
        dsimp only
        omega)
    refine ⟨l', ⟨⟨l.length, n + 1, i.statement⟩, i.shortest, e'⟩ :: bs, ?_, same, ?_, ?_, ?_, ?_⟩
    · rw [List.map_cons, Text.numbered_cons line, i.significant_text]
      exact Layout.scan_cons_iff.mpr ⟨_, placed, scanned⟩
    · rw [length, List.map_cons, List.sum_cons, Layout.withStatement]
      dsimp only
      omega
    · rw [order, List.map_cons, List.reverse_cons, List.append_assoc]
      rfl
    · rw [List.map_cons, List.map_cons, instructions]
    · exact List.forall_mem_cons.mpr ⟨⟨resolved, encode'⟩, all⟩

namespace Program

/-! ### Programs with the same words -/

namespace LaidOut

variable {source source' : List Char} {p q : Program} {bs bs' : List Block}

theorem regular (h : p.LaidOut source bs) {b : Block} (hb : b ∈ bs) : b.instruction.Regular := by
  obtain ⟨line, -, -, parsed⟩ := h.written b hb
  exact Instruction.regular_of_parse (Entry.parse_eq_statement_iff.mp parsed).2
    (h.resolved b hb).resolved

theorem encodings (h : p.LaidOut source bs) :
    (bs.map Block.instruction).map Instruction.encode = (bs.map Block.encoding).map .ok := by
  rw [List.map_map, List.map_map]
  exact List.map_congr_left fun b hb => (h.resolved b hb).encoded

theorem length_eq_sum (h : p.LaidOut source bs) :
    p.info.length = ((bs.map Block.instruction).map Instruction.words).sum := by
  have stop := h.tiles.stop_eq_sum
  rw [zero_add] at stop
  rw [List.map_map]
  exact_mod_cast stop

/-- Programs with the same instructions have the same memory. -/
theorem memory_eq (h : p.LaidOut source bs) (h' : q.LaidOut source' bs')
    (same : bs.map Block.instruction = bs'.map Block.instruction) : p.memory = q.memory := by
  have encodings : bs.map Block.encoding = bs'.map Block.encoding := by
    have both := congrArg (List.map Instruction.encode) same
    rw [h.encodings, h'.encodings] at both
    exact List.map_injective_iff.mpr (fun _ _ => Except.ok.inj) both
  have words : bs.flatMap Block.words = bs'.flatMap Block.words := by
    have both := congrArg (List.flatMap Encoding.words) encodings
    rw [List.flatMap_map, List.flatMap_map] at both
    exact both
  have memory := h'.memory
  rw [← words] at memory
  exact h.memory.unique memory

theorem sum_words_shortest_le (h : p.LaidOut source bs) :
    ((bs.map Block.instruction).map fun i => i.shortest.words).sum ≤ p.info.length := by
  rw [h.length_eq_sum]
  exact List.sum_le_sum fun i _ => i.words_shortest_le

/-- A program with the shortest operands for the values of another one is shorter, unless these are
the operands there already. -/
theorem shortest_of_length_eq (h : p.LaidOut source bs) (h' : q.LaidOut source' bs')
    (shortest : bs'.map Block.instruction = (bs.map Block.instruction).map Instruction.shortest)
    (same : q.info.length = p.info.length) {b : Block} (hb : b ∈ bs) :
    b.instruction.shortest = b.instruction := by
  have length' := h'.length_eq_sum
  rw [shortest, List.map_map] at length'
  by_contra longer
  have less : ((bs.map Block.instruction).map (Instruction.words ∘ Instruction.shortest)).sum <
      ((bs.map Block.instruction).map Instruction.words).sum :=
    List.sum_lt_sum _ _ (fun i _ => i.words_shortest_le)
      ⟨b.instruction, List.mem_map_of_mem hb, Instruction.words_shortest_lt longer⟩
  rw [← length', ← h.length_eq_sum] at less
  omega

/-- A program with the shortest operands for the values of another one is that program exactly if no
word operand there fits in an instruction. -/
theorem eq_shortest_iff (h : p.LaidOut source bs) (h' : q.LaidOut source' bs')
    (shortest : bs'.map Block.instruction = (bs.map Block.instruction).map Instruction.shortest) :
    q.memory = p.memory ∧ q.info.length = p.info.length ↔
      ∀ a i w, (a, i) ∈ p.info.instructions → i.source = .word w →
        w.toInt < -Source.shortLimit ∨ Source.shortLimit < w.toInt := by
  constructor
  · rintro ⟨-, length⟩ a i w recorded word
    obtain ⟨b, hb, rfl, rfl⟩ := h.mem_instructions.mp recorded
    have kept := h.shortest_of_length_eq h' shortest length hb
    exact Source.shortest_eq_self_iff.mp (Instruction.shortest_eq_self_iff.mp kept) w word
  · intro wide
    have same : bs'.map Block.instruction = bs.map Block.instruction := by
      rw [shortest, List.map_map]
      refine List.map_congr_left fun b hb => ?_
      have recorded : (b.address, b.instruction) ∈ p.info.instructions :=
        h.mem_instructions.mpr ⟨b, hb, rfl, rfl⟩
      exact Instruction.shortest_eq_self_iff.mpr
        (Source.shortest_eq_self_iff.mpr fun w => wide b.address b.instruction w recorded)
    refine ⟨h'.memory_eq h same, ?_⟩
    rw [h'.length_eq_sum, h.length_eq_sum, same]

end LaidOut

/-! ### The text of a program -/

/-- The texts of the instructions in address order, one on each line. -/
def text (p : Program) : String :=
  "\n".intercalate (p.info.instructions.map fun entry => entry.2.text)

theorem significantLines_text (p : Program) :
    Text.significantLines p.text.toList =
      Text.numbered 0 (p.info.instructions.map fun entry => entry.2.text.toList) := by
  have lines : p.text.toList =
      List.intercalate ['\n'] (p.info.instructions.map fun entry => entry.2.text.toList) := by
    rw [text, String.toList_intercalate, List.map_map]
    rfl
  rw [lines, Text.significantLines_intercalate]
  intro piece mem
  obtain ⟨entry, -, rfl⟩ := List.mem_map.mp mem
  exact fun newline => (Instruction.of_mem_text newline).2.1 rfl

/-- **Disassembly**: the text of a program assembles to its instructions with the shortest operands,
which is the program itself if no word operand fits in an instruction. -/
theorem assemble_text {source : String} {p : Program} (h : assemble source = .ok p) :
    ∃ q, assemble p.text = .ok q ∧
      q.info.instructions.map Prod.snd =
        p.info.instructions.map (fun entry => entry.2.shortest) ∧
      (q.memory = p.memory ∧ q.info.length = p.info.length ↔
        ∀ a i w, (a, i) ∈ p.info.instructions → i.source = .word w →
          w.toInt < -Source.shortLimit ∨ Source.shortLimit < w.toInt) := by
  obtain ⟨bs, laid⟩ := laidOut_of_assemble h
  have regular : ∀ i ∈ bs.map Block.instruction, i.Regular := by
    intro i mem
    obtain ⟨b, hb, rfl⟩ := List.mem_map.mp mem
    exact laid.regular hb
  have encoded : ∀ i ∈ bs.map Block.instruction, ∃ e, i.encode = .ok e := by
    intro i mem
    obtain ⟨b, hb, rfl⟩ := List.mem_map.mp mem
    exact ⟨b.encoding, (laid.resolved b hb).encoded⟩
  have shorter := laid.sum_words_shortest_le
  have fits := laid.fits
  obtain ⟨l, bs', scanned, no_labels, length, placed, shortest, resolved⟩ :=
    Layout.scan_texts regular encoded [] .empty 0 (by
      rw [Layout.empty]
      dsimp only
      omega)
  have whole : Layout.ofSource p.text.toList = ⟨l, none⟩ := by
    rw [Layout.ofSource, significantLines_text, laid.instructions, List.map_map]
    rw [List.map_map] at scanned
    exact scanned
  have order : bs'.map Block.placed = l.placed.reverse := by
    rw [placed, List.reverse_append, List.reverse_reverse]
    rfl
  obtain ⟨q, emits⟩ := Layout.exists_emits whole order (by rw [no_labels]; exact resolved)
  have laid' := laidOut_of_emits whole emits
  refine ⟨q, assemble_eq_ok_iff.mpr ⟨l, bs', whole, emits⟩, ?_, laid.eq_shortest_iff laid' shortest⟩
  rw [laid'.instructions, laid.instructions, List.map_map, List.map_map]
  rw [List.map_map] at shortest
  exact shortest

/-- A program with a value in a word of its own and a label at address five, which does not fit in
an instruction. -/
theorem assemble_text_far :
    ∃ p q, assemble "MOV r0, oooooo+--\nADD r0, r1\nJMP .end\n.end" = .ok p ∧
      p.text = "MOV r0, oooooo+--\nADD r0, r1\nJMP oooooo+--" ∧ assemble p.text = .ok q ∧
      q.memory = p.memory ∧ q.info.length = p.info.length := by
  have table : (assemble "MOV r0, oooooo+--\nADD r0, r1\nJMP .end\n.end").map
      (fun p => (p.info.instructions, p.text)) = .ok
        ([(0, ⟨.mov, .load, .r0, .word (.wrap 5)⟩), (2, ⟨.add, .load, .r0, .register .r1⟩),
          (3, ⟨.jmp, .load, .r0, .word (.wrap 5)⟩)],
          "MOV r0, oooooo+--\nADD r0, r1\nJMP oooooo+--") := by decide +kernel
  obtain ⟨p, assembled, table⟩ := map_eq_ok_iff.mp table
  obtain ⟨instructions, text⟩ := Prod.mk.inj table
  obtain ⟨q, again, -, same⟩ := assemble_text assembled
  refine ⟨p, q, assembled, text, again, same.mpr ?_⟩
  rw [instructions]
  intro a i w recorded word
  simp only [List.mem_cons, Prod.mk.injEq, List.not_mem_nil, or_false] at recorded
  rcases recorded with ⟨-, rfl⟩ | ⟨-, rfl⟩ | ⟨-, rfl⟩
  · cases word
    decide
  · cases word
  · cases word
    decide

/-- The address of a label takes a word of its own, but the text of the instruction does not say so:
a jump to address zero is two words, and one when its text is assembled. -/
theorem not_reassembles :
    ¬ ∀ source p, assemble source = .ok p → ∃ q, assemble p.text = .ok q ∧
      q.memory = p.memory ∧ q.info.length = p.info.length := by
  intro claim
  have jump : (assemble ".zero\nJMP .zero").map (fun p => (p.info.length, p.text)) =
      .ok (2, "JMP ooooooooo") := by decide +kernel
  have again : (assemble "JMP ooooooooo").map (fun q => q.info.length) = .ok 1 := by decide +kernel
  obtain ⟨p, assembled, both⟩ := map_eq_ok_iff.mp jump
  obtain ⟨length, text⟩ := Prod.mk.inj both
  obtain ⟨q, reassembled, -, same⟩ := claim _ p assembled
  rw [text] at reassembled
  rw [reassembled, Except.map, Except.ok.injEq] at again
  omega

end Program

end TernaryMachine
