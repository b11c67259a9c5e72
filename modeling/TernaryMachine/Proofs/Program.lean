import TernaryMachine.Assembly.Program
import TernaryMachine.Proofs.Codec
import TernaryMachine.Proofs.Layout
import TernaryMachine.Proofs.Storage
/-! # What an assembled program holds

The second pass turns every statement into a `Block`: the statement with its instruction and its
words.  `assemble_eq_ok_iff` says which program a source assembles to, if any, in terms of its
layout and of the blocks of that.  `Program.LaidOut` keeps what the layout says of the program, and
`laidOut_of_assemble` gives it for every program.  What is known of one program follows from it:
its words are those of the blocks (`region_length`), nothing else is in memory (`read_outside`),
and what stands at the address of an instruction decodes to it (`decode_at`). -/

namespace TernaryMachine

/-! ### Writing words -/

/-- The second memory is the first with words written to the cells from an address on. -/
structure Memory.Written (m m' : Memory) (address : Int) (words : List Word) : Prop where
  inside : ∀ (k : Nat) (v a : Word), words[k]? = some v → a.toInt = address + k → m'.read a = v
  outside : ∀ a : Word, ¬ (address ≤ a.toInt ∧ a.toInt < address + words.length) →
    m'.read a = m.read a

namespace Memory.Written

variable {m m' m'' : Memory} {address : Int} {xs ys : List Word}

theorem refl (m : Memory) (address : Int) : Written m m address [] where
  inside k v a h := by cases h
  outside a h := rfl

theorem write (m : Memory) (a v : Word) : Written m (m.write a v) a.toInt [v] where
  inside k v' b h e := by
    cases k with
    | zero =>
      cases h
      rw [Nat.cast_zero, add_zero, Word.toInt_inj] at e
      rw [e, read_write_same]
    | succ k => cases h
  outside b h := by
    rw [read_write_of_ne]
    rintro rfl
    exact h ⟨le_refl _, by simp⟩

theorem append (h : Written m m' address xs) (h' : Written m' m'' (address + xs.length) ys) :
    Written m m'' address (xs ++ ys) where
  inside k v a hk e := by
    rcases Nat.lt_or_ge k xs.length with lt | ge
    · rw [List.getElem?_append_left lt] at hk
      rw [h'.outside a (by omega), h.inside k v a hk e]
    · rw [List.getElem?_append_right ge] at hk
      exact h'.inside (k - xs.length) v a hk (by omega)
  outside a out := by
    rw [List.length_append] at out
    rw [h'.outside a (by omega), h.outside a (by omega)]

theorem unique (h : Written m m' address xs) (h' : Written m m'' address xs) : m' = m'' := by
  apply Memory.eq_of_read_eq
  intro a
  by_cases within : address ≤ a.toInt ∧ a.toInt < address + xs.length
  · have lt : (a.toInt - address).toNat < xs.length := by omega
    have here := List.getElem?_eq_getElem lt
    rw [h.inside _ _ a here (by omega), h'.inside _ _ a here (by omega)]
  · rw [h.outside a within, h'.outside a within]

end Memory.Written

namespace Emission

theorem written_of_storeWords {m m' : Memory} {address : Int} {words : List Word}
    (h : storeWords m address words = .ok m') : m.Written m' address words := by
  induction words generalizing m address with
  | nil =>
    cases h
    exact .refl _ address
  | cons w words ih =>
    rw [storeWords] at h
    split at h
    · next stored =>
      obtain ⟨a, rfl, rfl⟩ := Memory.store_eq_ok_iff.mp stored
      exact (Memory.Written.write _ a w).append (by simpa using ih h)
    · cases h

theorem storeWords_eq_ok (m : Memory) {address : Int} {words : List Word}
    (lower : -Word.limit ≤ address) (upper : address + words.length ≤ Word.limit + 1) :
    ∃ m', storeWords m address words = .ok m' := by
  induction words generalizing m address with
  | nil => exact ⟨m, rfl⟩
  | cons w words ih =>
    rw [List.length_cons] at upper
    have here := Word.toInt_wrap_of_le lower (by omega)
    rw [storeWords, Memory.store_eq_ok_iff.mpr ⟨.wrap address, here, rfl⟩]
    exact ih _ (by omega) (by omega)

end Emission

/-! ### Blocks -/

/-- A statement with its instruction and its words. -/
structure Block where
  placed : Placed
  instruction : Instruction
  encoding : Encoding

namespace Block

/-- The address of the first word. -/
def address (b : Block) : Int :=
  b.placed.address

def size (b : Block) : Nat :=
  b.instruction.words

def words (b : Block) : List Word :=
  b.encoding.words

/-- The entry of the table of instructions. -/
def entry (b : Block) : Int × Instruction :=
  (b.address, b.instruction)

/-- The entry of the table of source lines. -/
def lineEntry (b : Block) : Int × Nat :=
  (b.address, b.placed.line)

/-- The instruction is that of the statement and the words are those of the instruction. -/
structure Resolved (labels : Table String Word) (b : Block) : Prop where
  resolved : b.placed.statement.resolve labels = .ok b.instruction
  encoded : b.instruction.encode = .ok b.encoding

theorem size_pos (b : Block) : 0 < b.size :=
  b.instruction.words_pos

end Block

theorem Operand.resolve_label_eq_ok_iff {labels : Table String Word} {name : String}
    {source : Source} :
    (label name).resolve labels = .ok source ↔
      ∃ address, labels.find? name = some address ∧ source = .word address := by
  rw [resolve]
  cases labels.find? name with
  | none => simp
  | some address => simp [eq_comm]

theorem Statement.resolve_eq_ok_iff {labels : Table String Word} {s : Statement}
    {i : Instruction} :
    s.resolve labels = .ok i ↔
      s.operand.resolve labels = .ok i.source ∧ i.opcode = s.opcode ∧
        i.direction = s.direction ∧ i.x = s.x := by
  rw [resolve]
  cases s.operand.resolve labels with
  | error fault => simp
  | ok source =>
    simp only [Except.ok.injEq]
    constructor
    · rintro rfl
      exact ⟨rfl, rfl, rfl, rfl⟩
    · rintro ⟨rfl, ho, hd, hx⟩
      rw [← ho, ← hd, ← hx]

/-- The first pass knows the size of an instruction before its label has an address. -/
theorem Statement.words_of_resolve {labels : Table String Word} {s : Statement} {i : Instruction}
    (h : s.resolve labels = .ok i) : i.words = s.words := by
  have source := (resolve_eq_ok_iff.mp h).1
  rw [Instruction.words, Instruction.mode, words]
  cases e : s.operand with
  | register r =>
    rw [e, Operand.resolve, Except.ok.injEq] at source
    rw [← source]
    rfl
  | immediate w =>
    rw [e, Operand.resolve, Except.ok.injEq] at source
    rw [← source]
    rfl
  | label name =>
    rw [e] at source
    obtain ⟨address, -, word⟩ := Operand.resolve_label_eq_ok_iff.mp source
    rw [word]
    rfl

namespace Block.Resolved

variable {labels : Table String Word} {b : Block}

theorem size_eq (h : b.Resolved labels) : b.size = b.placed.statement.words :=
  Statement.words_of_resolve h.resolved

theorem length_words (h : b.Resolved labels) : b.words.length = b.size :=
  Instruction.length_words_of_encode h.encoded

end Block.Resolved

/-! ### Emission -/

namespace Emission

variable {labels : Table String Word}

/-- What emitting one statement does. -/
theorem emit_cases {e e' : Emission} {p : Placed} (h : e.emit labels p = .ok e') :
    ∃ b : Block, b.placed = p ∧ b.Resolved labels ∧ e.memory.Written e'.memory b.address b.words ∧
      e'.instructions = b.entry :: e.instructions ∧
      e'.sourceLines = b.lineEntry :: e.sourceLines := by
  simp only [emit, bind_eq_ok_iff, mapError_eq_ok_iff, pure_eq_ok_iff] at h
  obtain ⟨i, resolved, encoding, encoded, m, stored, rfl⟩ := h
  exact ⟨⟨p, i, encoding⟩, rfl, ⟨resolved, encoded⟩, written_of_storeWords stored, rfl, rfl⟩

/-- Statements that stand one after the other are emitted as one run of words. -/
theorem emitAll_cases {e e' : Emission} {ps : List Placed} {start stop : Int}
    (h : e.emitAll labels ps = .ok e')
    (tiles : Tiles (fun p => (p.address : Int)) (fun p => p.statement.words) start ps stop) :
    ∃ bs : List Block, bs.map Block.placed = ps ∧ (∀ b ∈ bs, b.Resolved labels) ∧
      e.memory.Written e'.memory start (bs.flatMap Block.words) ∧
      e'.instructions = (bs.map Block.entry).reverse ++ e.instructions ∧
      e'.sourceLines = (bs.map Block.lineEntry).reverse ++ e.sourceLines := by
  induction ps generalizing e start with
  | nil =>
    cases h
    exact ⟨[], rfl, by simp, .refl _ _, rfl, rfl⟩
  | cons p ps ih =>
    rw [emitAll] at h
    split at h
    · next e₁ emitted =>
      obtain ⟨b, rfl, resolved, written, is, ls⟩ := emit_cases emitted
      obtain ⟨bs, rfl, all, rest, is', ls'⟩ := ih h tiles.2
      refine ⟨b :: bs, rfl, List.forall_mem_cons.mpr ⟨resolved, all⟩, ?_, ?_, ?_⟩
      · have here : b.address = start := tiles.1
        rw [List.flatMap_cons, ← here]
        apply written.append
        rw [resolved.length_words, resolved.size_eq, here]
        exact rest
      · simp [is', is]
      · simp [ls', ls]
    · cases h

theorem emit_eq_ok (e : Emission) {b : Block} (resolved : b.Resolved labels)
    (lower : -Word.limit ≤ b.address) (upper : b.address + b.size ≤ Word.limit + 1) :
    ∃ m, e.memory.Written m b.address b.words ∧
      e.emit labels b.placed =
        .ok ⟨m, b.entry :: e.instructions, b.lineEntry :: e.sourceLines⟩ := by
  rw [← resolved.length_words] at upper
  obtain ⟨m, stored⟩ := storeWords_eq_ok e.memory lower upper
  refine ⟨m, written_of_storeWords stored, ?_⟩
  simp only [emit, bind_eq_ok_iff, mapError_eq_ok_iff, pure_eq_ok_iff]
  exact ⟨b.instruction, resolved.resolved, b.encoding, resolved.encoded, m, stored, rfl⟩

theorem emitAll_eq_ok (e : Emission) {bs : List Block} {start stop : Int}
    (resolved : ∀ b ∈ bs, b.Resolved labels)
    (tiles : Tiles Block.address Block.size start bs stop) (lower : -Word.limit ≤ start)
    (upper : stop ≤ Word.limit + 1) :
    ∃ m, e.memory.Written m start (bs.flatMap Block.words) ∧
      e.emitAll labels (bs.map Block.placed) =
        .ok ⟨m, (bs.map Block.entry).reverse ++ e.instructions,
          (bs.map Block.lineEntry).reverse ++ e.sourceLines⟩ := by
  induction bs generalizing e start with
  | nil => exact ⟨e.memory, .refl _ _, rfl⟩
  | cons b bs ih =>
    obtain ⟨here, rest⟩ := List.forall_mem_cons.mp resolved
    have start_eq : b.address = start := tiles.1
    have ends := tiles.2.start_le_stop
    obtain ⟨m, first, emitted⟩ := emit_eq_ok e here (by omega) (by omega)
    obtain ⟨m', after, all⟩ := ih ⟨m, b.entry :: e.instructions, b.lineEntry :: e.sourceLines⟩
      rest tiles.2 (by omega)
    refine ⟨m', ?_, ?_⟩
    · rw [List.flatMap_cons, ← start_eq]
      apply first.append
      rw [here.length_words, start_eq]
      exact after
    · rw [List.map_cons, emitAll, emitted]
      simp [all]

end Emission

/-! ### Programs -/

/-- How blocks make up the program of a layout. -/
structure Layout.Emits (l : Layout) (bs : List Block) (p : Program) : Prop where
  placed : bs.map Block.placed = l.placed.reverse
  resolved : ∀ b ∈ bs, b.Resolved l.labels
  memory : Memory.empty.Written p.memory 0 (bs.flatMap Block.words)
  info : p.info =
    { instructions := bs.map Block.entry
      sourceLines := bs.map Block.lineEntry
      labels := l.labels
      warnings := l.redeclared.reverse.map Redeclaration.message
      length := l.length }

theorem Layout.Sound.tiles_blocks {lines : List Text.Line} {l : Layout} {bs : List Block}
    (sound : l.Sound lines) (placed : bs.map Block.placed = l.placed.reverse)
    (resolved : ∀ b ∈ bs, b.Resolved l.labels) :
    Tiles Block.address Block.size 0 bs l.length := by
  have tiles := sound.tiles
  rw [← placed, Tiles.map_iff] at tiles
  exact tiles.congr_size fun b hb => (resolved b hb).size_eq.symm

/-- The blocks of a layout make up a program. -/
theorem Layout.exists_emits {source : List Char} {l : Layout} {bs : List Block}
    (scanned : Layout.ofSource source = ⟨l, none⟩)
    (placed : bs.map Block.placed = l.placed.reverse)
    (resolved : ∀ b ∈ bs, b.Resolved l.labels) : ∃ p, l.Emits bs p := by
  have sound := Layout.Sound.ofSource scanned
  obtain ⟨m, written, -⟩ := Emission.empty.emitAll_eq_ok resolved
    (sound.tiles_blocks placed resolved) (by decide) sound.fits
  exact ⟨⟨m, _⟩, placed, resolved, written, rfl⟩

namespace Program

/-- **Assembly** by its two passes: a source assembles to the program of its layout. -/
theorem assemble_eq_ok_iff {source : String} {p : Program} :
    assemble source = .ok p ↔
      ∃ l bs, Layout.ofSource source.toList = ⟨l, none⟩ ∧ l.Emits bs p := by
  rw [assemble]
  constructor
  · intro h
    cases scanned : Layout.ofSource source.toList with
    | mk l error =>
      rw [scanned, Scan.toProgram] at h
      cases error with
      | some e => cases h
      | none =>
        have sound := Layout.Sound.ofSource scanned
        simp only [Layout.toProgram] at h
        split at h
        · cases h
        · next e emitted =>
          cases h
          obtain ⟨bs, placed, resolved, written, is, ls⟩ :=
            Emission.emitAll_cases emitted sound.tiles
          exact ⟨l, bs, rfl, placed, resolved, written,
            by simp [is, ls, Emission.empty]⟩
  · rintro ⟨l, bs, scanned, emits⟩
    have sound := Layout.Sound.ofSource scanned
    obtain ⟨m, written, emitted⟩ := Emission.empty.emitAll_eq_ok emits.resolved
      (sound.tiles_blocks emits.placed emits.resolved) (by decide) sound.fits
    have same := written.unique emits.memory
    rw [emits.placed] at emitted
    obtain ⟨memory, info⟩ := p
    obtain rfl : info = _ := emits.info
    obtain rfl : m = memory := same
    simp only [scanned, Scan.toProgram, Layout.toProgram, emitted]
    simp [Emission.empty]

/-- How the blocks of a source make up a program. -/
structure LaidOut (source : List Char) (p : Program) (bs : List Block) : Prop where
  resolved : ∀ b ∈ bs, b.Resolved p.info.labels
  tiles : Tiles Block.address Block.size 0 bs p.info.length
  fits : (p.info.length : Int) ≤ Word.limit + 1
  memory : Memory.empty.Written p.memory 0 (bs.flatMap Block.words)
  instructions : p.info.instructions = bs.map Block.entry
  sourceLines : p.info.sourceLines = bs.map Block.lineEntry
  /-- A label is bound to the end of the program or to a block. -/
  bound : ∀ name address, (name, address) ∈ p.info.labels →
    address.toInt = p.info.length ∨ ∃ b ∈ bs, address.toInt = b.address
  /-- Every block comes from a line of the source. -/
  written : ∀ b ∈ bs, ∃ line ∈ Text.significantLines source,
    line.number = b.placed.line ∧ Entry.parse line.text = .ok (.statement b.placed.statement)

theorem laidOut_of_emits {source : List Char} {l : Layout} {bs : List Block} {p : Program}
    (scanned : Layout.ofSource source = ⟨l, none⟩) (emits : l.Emits bs p) :
    p.LaidOut source bs := by
  have sound := Layout.Sound.ofSource scanned
  have mem : ∀ q, q ∈ l.placed ↔ ∃ b ∈ bs, b.placed = q := by
    intro q
    rw [← List.mem_reverse, ← emits.placed, List.mem_map]
  obtain ⟨placed, resolved, memory, info⟩ := emits
  obtain ⟨m, _⟩ := p
  subst info
  refine ⟨resolved, sound.tiles_blocks placed resolved, sound.fits, memory, rfl, rfl, ?_, ?_⟩
  · intro name address hm
    rcases sound.bound name address hm with e | ⟨q, hq, e⟩
    · exact .inl e
    · obtain ⟨b, hb, rfl⟩ := (mem q).mp hq
      exact .inr ⟨b, hb, e⟩
  · intro b hb
    exact sound.written b.placed ((mem _).mpr ⟨b, hb, rfl⟩)

theorem laidOut_of_assemble {source : String} {p : Program} (h : assemble source = .ok p) :
    ∃ bs, p.LaidOut source.toList bs := by
  obtain ⟨l, bs, scanned, emits⟩ := assemble_eq_ok_iff.mp h
  exact ⟨bs, laidOut_of_emits scanned emits⟩

namespace LaidOut

variable {source : List Char} {p : Program} {bs : List Block} {b : Block}

theorem length_words (h : p.LaidOut source bs) :
    (bs.flatMap Block.words).length = p.info.length := by
  have := h.tiles.stop_eq_length Block.words
    fun b hb => (h.resolved b hb).length_words
  omega

theorem bounds (h : p.LaidOut source bs) (hb : b ∈ bs) :
    0 ≤ b.address ∧ b.address + b.size ≤ p.info.length :=
  h.tiles.bounds hb

theorem toInt_wrap (h : p.LaidOut source bs) {a : Int} (lower : 0 ≤ a) (upper : a < p.info.length) :
    (Word.wrap a).toInt = a := by
  have fits := h.fits
  apply Word.toInt_wrap_of_le <;> simp only [Word.limit] at * <;> omega

theorem read_block (h : p.LaidOut source bs) (hb : b ∈ bs) {k : Nat} {v a : Word}
    (hv : b.words[k]? = some v) (ha : a.toInt = b.address + k) : p.memory.read a = v := by
  obtain ⟨before, after, rfl⟩ := List.append_of_mem hb
  obtain ⟨mid, front, here, -⟩ := Tiles.append_iff.mp h.tiles
  have start := front.stop_eq_length Block.words
    fun c hc => (h.resolved c (by simp [hc])).length_words
  apply h.memory.inside ((before.flatMap Block.words).length + k) v a
  · obtain ⟨lt, -⟩ := List.getElem?_eq_some_iff.mp hv
    rw [List.flatMap_append, List.getElem?_append_right (by omega), Nat.add_sub_cancel_left,
      List.flatMap_cons, List.getElem?_append_left lt, hv]
  · omega

theorem load_block (h : p.LaidOut source bs) (hb : b ∈ bs) {k : Nat} {v : Word}
    (hv : b.words[k]? = some v) : p.memory.load (b.address + k) = .ok v := by
  obtain ⟨inside, -⟩ := List.getElem?_eq_some_iff.mp hv
  rw [(h.resolved b hb).length_words] at inside
  have bounds := h.bounds hb
  have place := h.toInt_wrap (a := b.address + k) (by omega) (by omega)
  rw [← place, Memory.load_toInt, h.read_block hb hv place]

theorem read_outside (h : p.LaidOut source bs) {a : Word}
    (out : ¬ (0 ≤ a.toInt ∧ a.toInt < p.info.length)) : p.memory.read a = .zero := by
  rw [h.memory.outside a (by rw [h.length_words]; omega), Memory.read_empty]

/-- What stands at the address of a block decodes to its instruction, in every memory that agrees
with the program on the program's cells. -/
theorem decode_at (h : p.LaidOut source bs) (hb : b ∈ bs) {m : Memory}
    (agree : ∀ a : Word, 0 ≤ a.toInt → a.toInt < p.info.length → m.read a = p.memory.read a)
    {a : Word} (ha : a.toInt = b.address) {next : Option Word}
    (follows : ∀ n : Word, n.toInt = b.address + 1 → next = some (m.read n)) :
    Instruction.decode (m.read a) next = .ok b.instruction := by
  have bounds := h.bounds hb
  have pos := b.size_pos
  have resolved := h.resolved b hb
  have first : m.read a = b.encoding.first := by
    rw [agree a (by omega) (by omega)]
    exact h.read_block hb (k := 0) rfl (by omega)
  rw [first]
  apply Instruction.decode_of_encode resolved.encoded
  intro w hw
  have second : b.words[1]? = some w := by
    rw [Block.words, Encoding.words, hw]
    rfl
  obtain ⟨two, -⟩ := List.getElem?_eq_some_iff.mp second
  rw [resolved.length_words] at two
  have range := h.toInt_wrap (a := b.address + 1) (by omega) (by omega)
  rw [follows _ range, agree _ (by omega) (by omega), h.read_block hb second (by omega)]

theorem region_length (h : p.LaidOut source bs) :
    p.memory.region 0 p.info.length = .ok (bs.flatMap Block.words) := by
  have fits := h.fits
  have region := p.memory.region_toInt .zero (n := p.info.length) (by rw [Word.toInt_zero]; omega)
  rw [Word.toInt_zero] at region
  rw [region]
  congr 1
  apply List.ext_getElem
  · rw [List.length_map, List.length_range, h.length_words]
  · intro k hk hk'
    rw [List.length_map, List.length_range] at hk
    rw [List.getElem_map, List.getElem_range, zero_add]
    apply h.memory.inside k _ _ (List.getElem?_eq_getElem hk')
    rw [zero_add]
    exact h.toInt_wrap (by omega) (by omega)

theorem words_eq (h : p.LaidOut source bs) : p.words = bs.flatMap Block.words := by
  rw [Program.words, h.region_length]

theorem mem_instructions (h : p.LaidOut source bs) {a : Int} {i : Instruction} :
    (a, i) ∈ p.info.instructions ↔ ∃ b ∈ bs, b.address = a ∧ b.instruction = i := by
  rw [h.instructions, List.mem_map]
  simp only [Block.entry, Prod.mk.injEq]

theorem mem_sourceLines (h : p.LaidOut source bs) (hb : b ∈ bs) :
    (b.address, b.placed.line) ∈ p.info.sourceLines := by
  rw [h.sourceLines]
  exact List.mem_map_of_mem hb

theorem tiles_instructions (h : p.LaidOut source bs) :
    Tiles Prod.fst (fun entry => entry.2.words) 0 p.info.instructions p.info.length := by
  rw [h.instructions, Tiles.map_iff]
  exact h.tiles

theorem ascending (h : p.LaidOut source bs) :
    p.info.instructions.Pairwise fun entry other => entry.1 < other.1 := by
  refine h.tiles_instructions.pairwise.imp ?_
  intro entry other ends
  have pos := entry.2.words_pos
  omega

theorem length_eq_zero_iff (h : p.LaidOut source bs) :
    p.info.length = 0 ↔ p.info.instructions = [] := by
  have tiles := h.tiles_instructions
  cases entries : p.info.instructions with
  | nil =>
    rw [entries] at tiles
    have length : (0 : Int) = p.info.length := tiles
    simp only [iff_true]
    omega
  | cons entry rest =>
    rw [entries] at tiles
    have bounds := tiles.bounds List.mem_cons_self
    have pos := entry.2.words_pos
    simp only [reduceCtorEq, iff_false]
    omega

/-- The cell of a recorded instruction decodes to it, with the cell after it if there is one. -/
theorem decode_load (h : p.LaidOut source bs) {a : Int} {i : Instruction}
    (recorded : (a, i) ∈ p.info.instructions) :
    ∃ first, p.memory.load a = .ok first ∧
      Instruction.decode first (p.memory.load (a + 1)).toOption = .ok i := by
  obtain ⟨b, hb, rfl, rfl⟩ := h.mem_instructions.mp recorded
  have bounds := h.bounds hb
  have pos := b.size_pos
  have range := h.toInt_wrap (a := b.address) (by omega) (by omega)
  refine ⟨p.memory.read (.wrap b.address), ?_, ?_⟩
  · rw [← range, Memory.load_toInt, range]
  · apply h.decode_at hb (fun _ _ _ => rfl) range
    intro n hn
    rw [← hn, Memory.load_toInt]
    rfl

theorem words_encode (h : p.LaidOut source bs) :
    ∃ encodings : List Encoding,
      p.info.instructions.map (fun entry => entry.2.encode) = encodings.map .ok ∧
        p.words = encodings.flatMap Encoding.words := by
  refine ⟨bs.map Block.encoding, ?_, ?_⟩
  · rw [h.instructions, List.map_map, List.map_map]
    exact List.map_congr_left fun b hb => (h.resolved b hb).encoded
  · rw [h.words_eq, List.flatMap_map]
    rfl

end LaidOut

/-! ### The record of a program -/

/-- The record of a program agrees with its memory. -/
structure Consistent (p : Program) : Prop where
  /-- The instructions stand one after the other, from address zero up to the length. -/
  tiles : Tiles Prod.fst (fun entry => entry.2.words) 0 p.info.instructions p.info.length
  ascending : p.info.instructions.Pairwise fun entry other => entry.1 < other.1
  length_eq_zero_iff : p.info.length = 0 ↔ p.info.instructions = []
  keys_sourceLines : p.info.sourceLines.map Prod.fst = p.info.instructions.map Prod.fst
  /-- The cell of an instruction decodes to it, with the cell after it if there is one. -/
  decode_load : ∀ a i, (a, i) ∈ p.info.instructions → ∃ first, p.memory.load a = .ok first ∧
    Instruction.decode first (p.memory.load (a + 1)).toOption = .ok i
  read_outside : ∀ a : Word, ¬ (0 ≤ a.toInt ∧ a.toInt < p.info.length) → p.memory.read a = .zero
  region : p.memory.region 0 p.info.length = .ok p.words
  length_words : p.words.length = p.info.length
  /-- The words of the program are those of its instructions. -/
  words : ∃ encodings : List Encoding,
    p.info.instructions.map (fun entry => entry.2.encode) = encodings.map .ok ∧
      p.words = encodings.flatMap Encoding.words

/-- **Layout and decodability**: the record of every program that assembles agrees with its
memory. -/
theorem consistent_of_assemble {source : String} {p : Program} (h : assemble source = .ok p) :
    p.Consistent := by
  obtain ⟨bs, laid⟩ := laidOut_of_assemble h
  refine
    { tiles := laid.tiles_instructions
      ascending := laid.ascending
      length_eq_zero_iff := laid.length_eq_zero_iff
      keys_sourceLines := ?_
      decode_load := fun a i => laid.decode_load
      read_outside := fun a => laid.read_outside
      region := ?_
      length_words := ?_
      words := laid.words_encode }
  · rw [laid.sourceLines, laid.instructions, List.map_map, List.map_map]
    rfl
  · rw [laid.words_eq, laid.region_length]
  · rw [laid.words_eq, laid.length_words]

/-- A program with a label at its start, a value in a word of its own and a label at its end. -/
theorem consistent_of_assemble_loop :
    ∃ p, assemble ".top\nMOV r0, oooooo+--\nADD r0, r1 ; one word\nSTA r0, .top\nJMP .end\n.end"
      = .ok p ∧ p.info.length = 7 ∧ p.Consistent := by
  have length : (assemble
      ".top\nMOV r0, oooooo+--\nADD r0, r1 ; one word\nSTA r0, .top\nJMP .end\n.end").map
      (fun p => p.info.length) = .ok 7 := by decide +kernel
  obtain ⟨p, assembled, length⟩ := map_eq_ok_iff.mp length
  exact ⟨p, assembled, length, consistent_of_assemble assembled⟩

end Program

end TernaryMachine
