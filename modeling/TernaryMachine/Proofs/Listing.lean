import TernaryMachine.Listing
import TernaryMachine.Proofs.Execution
import TernaryMachine.Proofs.Image
/-! # Listings and execution

A word is read as an instruction in three places: by a machine at its program counter, at an
address of a memory, and in a listing, where no word follows the last one.

* **One word.**  A reading is the text and the width of the instruction that is decoded, or the
  mark of words that are none (`Reading.of_decode`, `Reading.of_error`); no instruction has a text
  that starts like that (`Instruction.not_isUnknown_text`).
* **The end of a list.**  A reading without a word that follows is one with any word, unless the
  instruction asks for it (`Reading.of_none`).
* **Listings.**  The lines of a listing stand one after the other, each with the reading of its
  word and the word after it (`Listing.sweepOnto_eq`).  Over the words of instructions the lines
  are those of the instructions (`Listing.sweepOnto_blocks`). -/

namespace TernaryMachine

/-! ### One word -/

/-- Whether a text marks a word that is no instruction. -/
def Text.IsUnknown (text : String) : Prop :=
  "???".toList <+: text.toList

theorem Opcode.head?_mnemonic (opcode : Opcode) :
    ∃ c, opcode.mnemonic.toList.head? = some c ∧ c ≠ '?' := by
  cases opcode <;> exact ⟨_, rfl, by decide⟩

theorem Instruction.head?_mnemonic (i : Instruction) :
    ∃ c, i.mnemonic.toList.head? = some c ∧ c ≠ '?' := by
  unfold Instruction.mnemonic
  split
  · exact ⟨'S', rfl, by decide⟩
  · exact Opcode.head?_mnemonic _

theorem Instruction.mnemonic_prefix_text (i : Instruction) :
    i.mnemonic.toList <+: i.text.toList := by
  rw [text]
  split
  · exact List.prefix_rfl
  · split <;> simp [toString]

theorem Instruction.not_isUnknown_text (i : Instruction) : ¬ Text.IsUnknown i.text := by
  rintro ⟨rest, marked⟩
  obtain ⟨c, head, letter⟩ := i.head?_mnemonic
  obtain ⟨operands, whole⟩ := i.mnemonic_prefix_text
  have mark : i.text.toList.head? = some '?' := by
    rw [← marked]
    rfl
  rw [← whole, List.head?_append, head] at mark
  exact letter (Option.some.inj mark)

/-- Whether a word is the first of an instruction that takes the word that follows. -/
def Instruction.AsksForWord (first : Word) : Prop :=
  ∀ next, ∃ i, decode first (some next) = .ok i ∧ i.mode = .word

theorem Instruction.words_of_ne {i : Instruction} (short : i.mode ≠ .word) : i.words = 1 := by
  rw [words]
  cases mode : i.mode with
  | register => rfl
  | short => rfl
  | word => exact absurd mode short

namespace Reading

variable {first w : Word} {next : Option Word}

/-- The mark of a word that is no instruction. -/
def unknown (w : Word) : Reading :=
  ⟨"??? " ++ w.text, 1⟩

theorem isUnknown_unknown (w : Word) : Text.IsUnknown (unknown w).text :=
  ⟨' ' :: w.text.toList, by simp [unknown]⟩

theorem of_decode {i : Instruction} (h : Instruction.decode first next = .ok i) :
    of first next = ⟨i.text, i.words⟩ := by
  rw [of, h]

theorem of_error {fault : DecodeError} (h : Instruction.decode first next = .error fault) :
    of first next = unknown first := by
  rw [of, h]
  rfl

/-- A word at the end of a list is read as if any word followed, unless it asks for one. -/
theorem of_none (first : Word) :
    (¬ Instruction.AsksForWord first ∧ ∀ next, of first none = of first (some next)) ∨
      Instruction.AsksForWord first ∧ of first none = unknown first := by
  obtain ⟨fault, same⟩ | ⟨i, short, same⟩ | ⟨opcode, direction, x, missing, found⟩ :=
    Instruction.decode_cases first
  · refine .inl ⟨fun asks => ?_, fun next => by rw [of_error (same _), of_error (same _)]⟩
    obtain ⟨i, decoded, -⟩ := asks .zero
    rw [same] at decoded
    cases decoded
  · refine .inl ⟨fun asks => ?_, fun next => by rw [of_decode (same _), of_decode (same _)]⟩
    obtain ⟨j, decoded, word⟩ := asks .zero
    rw [same] at decoded
    cases decoded
    exact short word
  · exact .inr ⟨fun next => ⟨_, found next, rfl⟩, of_error missing⟩

theorem eq_mk {r : Reading} {width : Nat} (h : r.width = width) : r = ⟨r.text, width⟩ := by
  rw [← h]

theorem width_of (first : Word) (next : Option Word) :
    (of first next).width = 1 ∨ (of first next).width = 2 ∧ next ≠ none := by
  obtain ⟨fault, same⟩ | ⟨i, short, same⟩ | ⟨opcode, direction, x, missing, found⟩ :=
    Instruction.decode_cases first
  · rw [of_error (same next)]
    exact .inl rfl
  · rw [of_decode (same next)]
    exact .inl (i.words_of_ne short)
  · cases next with
    | none =>
      rw [of_error missing]
      exact .inl rfl
    | some w =>
      rw [of_decode (found w)]
      exact .inr ⟨rfl, Option.some_ne_none w⟩

end Reading

namespace Machine

/-- How the reading at the program counter shows what a step does. -/
structure ShowsStep (m : Machine) : Prop where
  /-- A step succeeds exactly where an instruction is shown. -/
  ok_iff : (∃ i, m.step.result = .ok i) ↔
    ¬ Text.IsUnknown (Reading.atAddress m.memory m.registers.pc).text
  /-- It is the instruction that is shown. -/
  of_ok : ∀ i, m.step.result = .ok i →
    Reading.atAddress m.memory m.registers.pc = ⟨i.text, i.words⟩
  error_iff : (∃ fault, m.step.result = .error (.decode fault)) ↔
    Reading.atAddress m.memory m.registers.pc =
      ⟨"??? " ++ (m.memory.read m.registers.pc).text, 1⟩

theorem showsStep {m : Machine} (running : m.status = .running) : m.ShowsStep := by
  cases fetched : m.fetch with
  | ok i =>
    have stepped := step_of_fetch running fetched
    have shown : Reading.atAddress m.memory m.registers.pc = _ := Reading.of_decode fetched
    refine ⟨?_, ?_, ?_⟩
    · simp [stepped, shown, i.not_isUnknown_text]
    · intro j ok
      rw [stepped] at ok
      cases ok
      exact shown
    · have other : i.text ≠ (Reading.unknown (m.memory.read m.registers.pc)).text := by
        intro same
        exact i.not_isUnknown_text (same ▸ Reading.isUnknown_unknown _)
      constructor
      · rintro ⟨fault, failed⟩
        rw [stepped] at failed
        cases failed
      · intro same
        exact absurd (congrArg Reading.text (shown.symm.trans same)) other
  | error fault =>
    have stepped : m.step.result = .error (.decode fault) := by
      rw [step, running]
      simp only [fetched]
    have shown : Reading.atAddress m.memory m.registers.pc = _ := Reading.of_error fetched
    refine ⟨?_, ?_, ?_⟩
    · simp [stepped, shown, Reading.isUnknown_unknown]
    · simp [stepped]
    · simp [stepped, shown]
      rfl

end Machine

/-! ### Lists of words -/

/-- A line shows the words of a list from its address on. -/
structure ListingLine.Shows (l : ListingLine) (words : List Word) : Prop where
  /-- The text and the width are read off the word at the address and the one after it. -/
  reading : ∃ w, words[l.address]? = some w ∧
    Reading.of w words[l.address + 1]? = ⟨l.text, l.words.length⟩
  words_eq : l.words = (words.drop l.address).take l.words.length

namespace Listing

/-- Lines stand one after the other and show the words behind others. -/
structure Covers (front words : List Word) (lines : List ListingLine) : Prop where
  tiles : Tiles (fun l => (l.address : Int)) (fun l => l.words.length) front.length lines
    (front.length + words.length)
  shows : ∀ l ∈ lines, l.Shows (front ++ words)

theorem covers_nil (front : List Word) : Covers front [] [] where
  tiles := by simp [Tiles]
  shows := by simp

theorem Covers.cons {front taken rest : List Word} {lines : List ListingLine} {w : Word}
    {text : String} (h : Covers (front ++ taken) rest lines) (head : taken.head? = some w)
    (reading : Reading.of w (taken ++ rest)[1]? = ⟨text, taken.length⟩) :
    Covers front (taken ++ rest) (⟨front.length, text, taken⟩ :: lines) where
  tiles := by
    refine ⟨rfl, ?_⟩
    have tiles := h.tiles
    rw [List.length_append] at tiles ⊢
    push_cast at tiles ⊢
    rwa [← add_assoc]
  shows := by
    refine List.forall_mem_cons.mpr ⟨⟨⟨w, ?_, ?_⟩, ?_⟩, ?_⟩
    · rw [List.getElem?_append_right (le_refl _), Nat.sub_self, ← List.head?_eq_getElem?,
        List.head?_append, head]
      rfl
    · rw [List.getElem?_append_right (Nat.le_add_right _ 1), Nat.add_sub_cancel_left]
      exact reading
    · rw [List.drop_left, List.take_left]
    · rw [← List.append_assoc]
      exact h.shows

theorem sweepOnto_eq (done : List ListingLine) (address : Nat) (front words : List Word)
    (here : front.length = address) :
    ∃ lines, sweepOnto done address words = lines.reverse ++ done ∧ Covers front words lines := by
  fun_induction sweepOnto done address words generalizing front with
  | case1 done address => exact ⟨[], rfl, covers_nil front⟩
  | case2 done address w =>
    subst here
    obtain width | ⟨-, follows⟩ := Reading.width_of w none
    · exact ⟨[_], rfl, (covers_nil (front ++ [w])).cons rfl (Reading.eq_mk width)⟩
    · exact absurd rfl follows
  | case3 done address w next rest reading two ih =>
    subst here
    obtain ⟨lines, swept, covers⟩ := ih (front ++ [w, next]) (by simp)
    refine ⟨⟨front.length, reading.text, [w, next]⟩ :: lines, ?_, covers.cons rfl ?_⟩
    · rw [swept, List.reverse_cons, List.append_assoc]
      rfl
    · exact Reading.eq_mk two
  | case4 done address w next rest reading one ih =>
    subst here
    obtain ⟨lines, swept, covers⟩ := ih (front ++ [w]) (by simp)
    refine ⟨⟨front.length, reading.text, [w]⟩ :: lines, ?_, covers.cons rfl ?_⟩
    · rw [swept, List.reverse_cons, List.append_assoc]
      rfl
    · exact Reading.eq_mk ((Reading.width_of w (some next)).resolve_right fun h => one h.1)

end Listing

/-! ### Listings and memory -/

namespace ListingLine

variable {l : ListingLine} {words : List Word} {base m : Memory}

/-- Whether a line has the last word of a list and that asks for one more. -/
def IsCutOff (l : ListingLine) (words : List Word) : Prop :=
  l.address + 1 = words.length ∧
    ∃ w, words[l.address]? = some w ∧ Instruction.AsksForWord w

/-- A line is what is read at its address in a memory, unless it is cut off. -/
structure Agrees (l : ListingLine) (words : List Word) (m : Memory) : Prop where
  whole : ¬ l.IsCutOff words →
    Reading.atAddress m (.wrap l.address) = ⟨l.text, l.words.length⟩
  cut_off : l.IsCutOff words →
    ∃ w, words[l.address]? = some w ∧ l.text = "??? " ++ w.text ∧ l.words.length = 1

theorem agrees (shows : l.Shows words) (fits : words.length ≤ Word.limit + 1)
    (written : base.Written m 0 words) : l.Agrees words m := by
  obtain ⟨⟨w, here, reading⟩, -⟩ := shows
  obtain ⟨lt, -⟩ := List.getElem?_eq_some_iff.mp here
  have address : (Word.wrap l.address).toInt = l.address := by
    apply Word.toInt_wrap_of_le <;> simp only [Word.limit] at * <;> omega
  have first : m.read (.wrap l.address) = w := written.inside _ _ _ here (by omega)
  have read : Reading.atAddress m (.wrap l.address) =
      Reading.of w (some (m.read (Word.wrap l.address).succ)) := by
    rw [Reading.atAddress, first]
  by_cases last : l.address + 1 = words.length
  · rw [List.getElem?_eq_none last.ge] at reading
    obtain ⟨enough, same⟩ | ⟨asks, unknown⟩ := Reading.of_none w
    · refine ⟨fun _ => by rw [read, ← same, reading], ?_⟩
      rintro ⟨-, v, at_v, asks⟩
      rw [here] at at_v
      cases at_v
      exact absurd asks enough
    · rw [unknown, Reading.unknown, Reading.mk.injEq] at reading
      exact ⟨fun whole => absurd ⟨last, w, here, asks⟩ whole,
        fun _ => ⟨w, here, reading.1.symm, reading.2.symm⟩⟩
  · refine ⟨fun _ => ?_, fun cut_off => absurd cut_off.1 last⟩
    have next := List.getElem?_eq_getElem (show l.address + 1 < words.length by omega)
    have succ : (Word.wrap l.address).succ.toInt = l.address + 1 := by
      rw [Word.toInt_succ, address]
      apply Word.bmod_of_le <;> simp only [Word.limit] at * <;> omega
    have second := written.inside _ _ (Word.wrap l.address).succ next (by push_cast; omega)
    rw [read, second, ← next, reading]

end ListingLine

/-! ### Listings of programs -/

namespace Listing

theorem sweepOnto_encoding {i : Instruction} {e : Encoding} (encoded : i.encode = .ok e)
    (done : List ListingLine) (address : Nat) (rest : List Word) :
    sweepOnto done address (e.words ++ rest) =
      sweepOnto (⟨address, i.text, e.words⟩ :: done) (address + i.words) rest := by
  have length := Instruction.length_words_of_encode encoded
  cases second : e.second with
  | none =>
    have words : e.words = [e.first] := by rw [Encoding.words, second]; rfl
    have decoded (next : Option Word) : Reading.of e.first next = ⟨i.text, i.words⟩ :=
      Reading.of_decode (Instruction.decode_of_encode_single encoded second next)
    rw [words, List.length_singleton] at length
    rw [words, ← length]
    cases rest with
    | nil =>
      rw [List.append_nil, sweepOnto, sweepOnto, decoded]
    | cons next rest =>
      rw [List.singleton_append, sweepOnto, decoded, ← length]
      rfl
  | some value =>
    have words : e.words = [e.first, value] := by rw [Encoding.words, second]; rfl
    have decoded : Reading.of e.first (some value) = ⟨i.text, i.words⟩ :=
      Reading.of_decode (Instruction.decode_of_encode encoded (by rw [second]; exact fun _ => id))
    rw [words] at length
    rw [words, List.cons_append, List.singleton_append, sweepOnto, decoded, ← length]
    rfl

end Listing

def Block.line (b : Block) : ListingLine :=
  ⟨b.placed.address, b.instruction.text, b.words⟩

namespace Listing

/-- The words of blocks are one line each. -/
theorem sweepOnto_blocks {labels : Table String Word} {bs : List Block} {start stop : Int}
    (resolved : ∀ b ∈ bs, b.Resolved labels) (tiles : Tiles Block.address Block.size start bs stop)
    (done : List ListingLine) (address : Nat) (here : (address : Int) = start) :
    sweepOnto done address (bs.flatMap Block.words) = (bs.map Block.line).reverse ++ done := by
  induction bs generalizing done address start with
  | nil => rfl
  | cons b bs ih =>
    obtain ⟨first, others⟩ := List.forall_mem_cons.mp resolved
    have same : address = b.placed.address := by
      have at_start : b.address = start := tiles.1
      rw [Block.address] at at_start
      omega
    rw [List.flatMap_cons, Block.words, sweepOnto_encoding first.encoded,
      ih others tiles.2 _ _ (by rw [Block.size]; omega), List.map_cons, List.reverse_cons,
      List.append_assoc, same]
    rfl

/-- Whether the listing of words is its heading and these lines. -/
def Prints (words : List Word) (lines : List ListingLine) : Prop :=
  text words = "; trivm disassembly\n" ++ s!"; {words.length} words\n\n"
    ++ String.join (lines.map ListingLine.render)

end Listing

/-- The listing of a program has a line for each entry of its record, and no other. -/
theorem Program.LaidOut.sweep_words {source : List Char} {p : Program} {bs : List Block}
    (h : p.LaidOut source bs) : Listing.sweep p.words = bs.map Block.line := by
  rw [Listing.sweep, h.words_eq, Listing.sweepOnto_blocks h.resolved h.tiles [] 0 rfl,
    List.append_nil, List.reverse_reverse]

/-- **Readings**: what is shown at the program counter is what a step does, a listing shows what
stands in memory up to a last word that is cut off, and the listing of a program is its record. -/
theorem readings_agree :
    (∀ m : Machine, m.status = .running → m.ShowsStep) ∧
    (∀ (words : List Word) (base : Memory), words.length ≤ 9842 →
      ∃ m lines, base.install 0 words = .ok m ∧ Listing.Prints words lines ∧
        Tiles (fun l => (l.address : Int)) (fun l => l.words.length) 0 lines words.length ∧
        ∀ l ∈ lines, l.Shows words ∧ l.Agrees words m) ∧
    ∀ source p, assemble source = .ok p →
      ∃ lines, Listing.Prints p.words lines ∧
        lines.map (fun l => ((l.address : Int), l.text)) =
          p.info.instructions.map (fun entry => (entry.1, entry.2.text)) ∧
        ∀ l ∈ lines, ¬ Text.IsUnknown l.text := by
  refine ⟨fun m running => Machine.showsStep running, fun words base fits => ?_,
    fun source p assembled => ?_⟩
  · have room : Word.zero.toInt + words.length ≤ Word.limit + 1 := by
      rw [Word.toInt_zero, Word.limit]
      omega
    obtain ⟨m, installed, written⟩ := base.install_eq_ok .zero room
    rw [Word.toInt_zero] at installed written room
    obtain ⟨lines, swept, covers⟩ := Listing.sweepOnto_eq [] 0 [] words rfl
    have sweep : Listing.sweep words = lines := by
      rw [Listing.sweep, swept, List.append_nil, List.reverse_reverse]
    refine ⟨m, lines, installed, by rw [← sweep]; rfl, ?_, fun l hl => ?_⟩
    · simpa using covers.tiles
    · have shows : l.Shows words := covers.shows l hl
      exact ⟨shows, ListingLine.agrees shows (by omega) written⟩
  · obtain ⟨bs, laid⟩ := Program.laidOut_of_assemble assembled
    refine ⟨bs.map Block.line, by rw [← laid.sweep_words]; rfl, ?_, ?_⟩
    · rw [laid.instructions, List.map_map, List.map_map]
      rfl
    · intro l hl
      obtain ⟨b, -, rfl⟩ := List.mem_map.mp hl
      exact b.instruction.not_isUnknown_text

/-- A machine at an empty cell; a word of a jump that is cut off; a program with that jump. -/
theorem readings_agree_jump :
    (∃ i, Machine.empty.step.result = .ok i ∧
      Reading.atAddress .empty .zero = ⟨i.text, i.words⟩) ∧
    (∃ m lines, Memory.empty.install 0 [.wrap 1944] = .ok m ∧
      Listing.Prints [.wrap 1944] lines ∧ ∃ l ∈ lines, l.text = "??? o+o-ooooo") ∧
    ∃ p lines, assemble ".zero\nJMP .zero" = .ok p ∧ Listing.Prints p.words lines ∧
      lines.map (fun l => ((l.address : Int), l.text)) = [(0, "JMP ooooooooo")] := by
  obtain ⟨shown, listed, recorded⟩ := readings_agree
  refine ⟨?_, ?_, ?_⟩
  · have fetched : Machine.empty.fetch = .ok .nop := by
      rw [Machine.fetch, Machine.fetched, Machine.empty, Machine.start, Memory.read_empty,
        Instruction.decode_zero]
    have stepped := Machine.step_of_fetch (m := .empty) rfl fetched
    exact ⟨.nop, by rw [stepped], (shown .empty rfl).of_ok .nop (by rw [stepped])⟩
  · obtain ⟨m, lines, installed, prints, tiles, agrees⟩ := listed [.wrap 1944] .empty (by decide)
    refine ⟨m, lines, installed, prints, ?_⟩
    cases lines with
    | nil => cases tiles
    | cons l lines =>
      have bottom : l.address = 0 := Int.natCast_inj.mp tiles.1
      have asks : Instruction.AsksForWord (.wrap 1944) := by
        rcases Reading.of_none (.wrap 1944) with ⟨-, same⟩ | ⟨asks, -⟩
        · exact absurd (congrArg Reading.width (same .zero)) (by decide +kernel)
        · exact asks
      have cut_off : l.IsCutOff [.wrap 1944] := ⟨by rw [bottom]; rfl, _, by rw [bottom]; rfl, asks⟩
      obtain ⟨w, here, text, -⟩ := (agrees l List.mem_cons_self).2.cut_off cut_off
      rw [bottom] at here
      cases here
      exact ⟨l, List.mem_cons_self, text.trans (by decide +kernel)⟩
  · have table : (assemble ".zero\nJMP .zero").map (fun p => p.info.instructions) =
        .ok [(0, ⟨.jmp, .load, .r0, .word .zero⟩)] := by decide +kernel
    obtain ⟨p, assembled, table⟩ := map_eq_ok_iff.mp table
    obtain ⟨lines, prints, record, -⟩ := recorded _ p assembled
    refine ⟨p, lines, assembled, prints, record.trans ?_⟩
    rw [table]
    decide +kernel

end TernaryMachine
