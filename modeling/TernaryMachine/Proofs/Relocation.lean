import TernaryMachine.Proofs.Labels
import TernaryMachine.Proofs.Text
/-! # One program above another

Two sources, one below the other, assemble to the program of the first with that of the second above
it in memory.  No size depends on the address of a label, so the second program comes out as it
would alone, except that its labels have moved up, and with them the operands that are written as
labels.

* **Layout.**  `Layout.Above` says how a layout that goes on from another one compares with one
  that starts at address zero.  A line keeps it (`Above.place`), so a scan does (`Above.scan`).
* **Blocks.**  A block that is moved up stays one of a program whose labels have moved up
  (`Block.Resolved.relocate`).
* **Programs.**  `Program.fixups` are the addresses of the instructions whose operand moves with
  the program, and `Program.Stacked` says how two programs make up a third.  `assemble_append`
  is the main result. -/

namespace TernaryMachine

/-! ### Moving up -/

/-- The word of an address that is moved up. -/
def Word.relocate (n : Nat) (w : Word) : Word :=
  .wrap (w.toInt + n)

def Source.relocate (n : Nat) : Source → Source
  | register r => register r
  | short v => short v
  | word w => word (w.relocate n)

def Instruction.relocate (n : Nat) (i : Instruction) : Instruction :=
  { i with source := i.source.relocate n }

def Encoding.relocate (n : Nat) (e : Encoding) : Encoding :=
  { e with second := e.second.map (Word.relocate n) }

/-- The statement `n` words up in memory and `k` lines down in the source. -/
def Placed.relocate (n k : Nat) (q : Placed) : Placed :=
  ⟨q.address + n, q.line + k, q.statement⟩

def Block.isLinked (b : Block) : Bool :=
  b.placed.statement.operand.isLabel

def Block.relocate (n k : Nat) (b : Block) : Block where
  placed := b.placed.relocate n k
  instruction := if b.isLinked then b.instruction.relocate n else b.instruction
  encoding := if b.isLinked then b.encoding.relocate n else b.encoding

theorem Word.toInt_relocate {w : Word} {n : Nat} (lower : -limit ≤ w.toInt + n)
    (upper : w.toInt + n ≤ limit) : (w.relocate n).toInt = w.toInt + n :=
  toInt_wrap_of_le lower upper

theorem Instruction.encode_relocate {i : Instruction} {e : Encoding} (h : i.encode = .ok e)
    (n : Nat) : (i.relocate n).encode = .ok (e.relocate n) := by
  obtain ⟨y, direction, hy, hd, packed, hs⟩ := encode_eq_ok_iff.mp h
  obtain ⟨opcode, dir, x, source⟩ := i
  refine encode_eq_ok_iff.mpr ⟨y, direction, ?_, hd, ?_, ?_⟩
  · cases source <;> exact hy
  · cases source <;> exact packed
  · rw [Encoding.relocate, ← hs]
    cases source <;> rfl

/-! ### Layouts -/

namespace Layout

variable {base l l' m : Layout} {k : Nat} {line : Text.Line} {lines : List Text.Line}

/-- The second layout goes on from the base as the first one goes on from nothing, `k` lines further
down. -/
structure Above (base : Layout) (k : Nat) (l l' : Layout) : Prop where
  length : l'.length = l.length + base.length
  placed : l'.placed = l.placed.map (Placed.relocate base.length k) ++ base.placed
  labels : ∀ name, l'.labels.find? name =
    ((l.labels.find? name).map (Word.relocate base.length)).or (base.labels.find? name)
  redeclared : l'.redeclared.length = l.redeclared.length + base.redeclared.length

theorem above_self (base : Layout) (k : Nat) : base.Above k .empty base where
  length := by simp [Layout.empty]
  placed := rfl
  labels name := by simp [Layout.empty, Table.find?]
  redeclared := by simp [Layout.empty]

theorem Above.withLabel (above : base.Above k l l') {name : String} {address : Word} (n : Nat)
    (fresh : base.labels.find? name = none) :
    base.Above k (l.withLabel n name address)
      (l'.withLabel (n + k) name (address.relocate base.length)) where
  length := above.length
  placed := above.placed
  labels other := by
    rw [Layout.withLabel, Layout.withLabel, Table.find?_insert, Table.find?_insert]
    split
    · rfl
    · exact above.labels other
  redeclared := by
    have same := above.labels name
    have count := above.redeclared
    rw [fresh, Option.or_none] at same
    rw [Layout.withLabel, Layout.withLabel, same]
    cases l.labels.find? name with
    | none => exact count
    | some previous =>
      simp only [Option.map_some, List.length_cons]
      omega

theorem Above.withStatement (above : base.Above k l l') (n : Nat) (s : Statement) :
    base.Above k (l.withStatement n s) (l'.withStatement (n + k) s) where
  length := by
    have length := above.length
    simp only [Layout.withStatement]
    omega
  placed := by
    rw [Layout.withStatement, Layout.withStatement, above.placed, above.length]
    rfl
  labels := above.labels
  redeclared := above.redeclared

/-- A line goes the same way above another layout, if it declares none of the names there and there
is room. -/
theorem Above.place (above : base.Above k l l') (placed : l.place line = .ok m)
    (fresh : ∀ name, line.declared? = some name → base.labels.find? name = none)
    (fits : (m.length + base.length : Nat) ≤ Word.limit) :
    ∃ m', l'.place (line.down k) = .ok m' ∧ base.Above k m m' := by
  have length := above.length
  obtain ⟨name, address, parsed, here, rfl⟩ | ⟨s, parsed, -, rfl⟩ := place_eq_ok_iff.mp placed
  · refine ⟨_, place_eq_ok_iff.mpr (.inl ⟨name, address.relocate base.length, parsed, ?_, rfl⟩),
      above.withLabel _ (fresh name (Text.Line.declared?_of_label parsed))⟩
    have lower := address.neg_limit_le_toInt
    simp only [Layout.withLabel] at fits
    rw [Word.toInt_relocate (by omega) (by omega)]
    omega
  · refine ⟨_, place_eq_ok_iff.mpr (.inr ⟨s, parsed, ?_, rfl⟩), above.withStatement _ s⟩
    simp only [Layout.withStatement] at fits
    omega

theorem length_le_of_scan (h : l.scan lines = ⟨l', none⟩) : l.length ≤ l'.length := by
  refine scan_invariant (P := fun m => l.length ≤ m.length) ?_ h (Nat.le_refl _)
  intro m line next kept placed
  obtain ⟨name, address, -, -, rfl⟩ | ⟨s, -, -, rfl⟩ := place_eq_ok_iff.mp placed
  · exact kept
  · exact kept.trans (Nat.le_add_right _ _)

theorem Above.scan (above : base.Above k l l') (scanned : l.scan lines = ⟨m, none⟩)
    (fresh : ∀ name ∈ declaredNames lines, base.labels.find? name = none)
    (fits : (m.length + base.length : Nat) ≤ Word.limit) :
    ∃ m', l'.scan (lines.map (Text.Line.down k)) = ⟨m', none⟩ ∧ base.Above k m m' := by
  induction lines generalizing l l' with
  | nil =>
    cases scanned
    exact ⟨l', rfl, above⟩
  | cons line lines ih =>
    obtain ⟨mid, placed, rest⟩ := scan_cons_iff.mp scanned
    have grows := length_le_of_scan rest
    have names : ∀ name, line.declared? = some name → name ∈ declaredNames (line :: lines) :=
      fun name declared => List.mem_filterMap.mpr ⟨line, List.mem_cons_self, declared⟩
    obtain ⟨mid', placed', above⟩ := above.place placed (fun name declared =>
      fresh name (names name declared)) (by omega)
    obtain ⟨m', rest', above⟩ := ih above rest fun name later => fresh name (by
      obtain ⟨other, mem, declared⟩ := List.mem_filterMap.mp later
      exact List.mem_filterMap.mpr ⟨other, List.mem_cons_of_mem _ mem, declared⟩)
    exact ⟨m', scan_cons_iff.mpr ⟨mid', placed', rest'⟩, above⟩

/-- The labels of both layouts, those of the one above as addresses that have moved up. -/
theorem Above.toInt_find? (above : base.Above k l l')
    (apart : ∀ name, base.labels.find? name ≠ none → l.labels.find? name = none)
    (fits : ∀ {name : String} (address : Word), l.labels.find? name = some address →
      0 ≤ address.toInt ∧ address.toInt + base.length ≤ Word.limit) (name : String) :
    (l'.labels.find? name).map Word.toInt =
      ((base.labels.find? name).map Word.toInt).or
        ((l.labels.find? name).map fun address => address.toInt + base.length) := by
  rw [above.labels]
  cases found : l.labels.find? name with
  | none => rw [Option.map_none, Option.none_or, Option.map_none, Option.or_none]
  | some address =>
    have none : base.labels.find? name = none := by
      by_contra other
      rw [apart name other] at found
      cases found
    obtain ⟨lower, upper⟩ := fits address found
    rw [none, Option.map_some, Option.some_or, Option.map_some, Option.map_none, Option.none_or,
      Option.map_some, Word.toInt_relocate (by simp only [Word.limit]; omega) upper]

end Layout

/-! ### Blocks -/

theorem Operand.isLabel_iff {o : Operand} : o.isLabel = true ↔ ∃ name, o = label name := by
  cases o <;> simp [isLabel]

theorem Operand.resolve_of_not_label {o : Operand} (h : o.isLabel = false)
    (labels labels' : Table String Word) : o.resolve labels = o.resolve labels' := by
  cases o with
  | register r => rfl
  | immediate w => rfl
  | label name => cases h

/-- Each word of a block that moves up is the word it was, or moves up itself if it is the
address of a label. -/
theorem Block.getElem?_words_relocate {b : Block} {j : Nat} {w : Word}
    (here : b.words[j]? = some w) (n k : Nat) :
    (b.relocate n k).words[j]? = some (if b.isLinked ∧ j = 1 then w.relocate n else w) := by
  cases linked : b.isLinked with
  | false => simpa [Block.relocate, Block.words, linked] using here
  | true =>
    rw [Block.words, Encoding.words] at here ⊢
    simp only [Block.relocate, linked, if_true, Encoding.relocate]
    cases j with
    | zero => simpa using here
    | succ j =>
      cases second : b.encoding.second with
      | none => simp [second] at here
      | some value =>
        rw [second] at here
        cases j with
        | zero =>
          obtain rfl : value = w := by simpa using here
          simp
        | succ j => simp at here

namespace Block.Resolved

variable {labels labels' : Table String Word} {b : Block}

theorem source_of_isLinked (h : b.Resolved labels) (linked : b.isLinked = true) :
    ∃ name address, b.placed.statement.operand = .label name ∧
      labels.find? name = some address ∧ b.instruction.source = .word address := by
  obtain ⟨name, label⟩ := Operand.isLabel_iff.mp linked
  obtain ⟨address, found, word⟩ := h.source_of_label label
  exact ⟨name, address, label, found, word⟩

theorem mono (h : b.Resolved labels) (more : ∀ name address, labels.find? name = some address →
    labels'.find? name = some address) : b.Resolved labels' := by
  obtain ⟨operand, rest⟩ := Statement.resolve_eq_ok_iff.mp h.resolved
  refine ⟨Statement.resolve_eq_ok_iff.mpr ⟨?_, rest⟩, h.encoded⟩
  cases linked : b.isLinked with
  | false => exact (Operand.resolve_of_not_label linked labels' labels).trans operand
  | true =>
    obtain ⟨name, address, label, found, word⟩ := h.source_of_isLinked linked
    rw [label]
    exact Operand.resolve_label_eq_ok_iff.mpr ⟨address, more name address found, word⟩

theorem size_of_isLinked (h : b.Resolved labels) (linked : b.isLinked = true) : b.size = 2 := by
  obtain ⟨name, address, -, -, word⟩ := h.source_of_isLinked linked
  rw [Block.size, Instruction.words, Instruction.mode, word]
  rfl

theorem relocate (h : b.Resolved labels) {n : Nat} (moved : ∀ name address,
    labels.find? name = some address → labels'.find? name = some (address.relocate n)) (k : Nat) :
    (b.relocate n k).Resolved labels' := by
  obtain ⟨operand, rest⟩ := Statement.resolve_eq_ok_iff.mp h.resolved
  cases linked : b.isLinked with
  | false =>
    simp only [Block.relocate, linked]
    refine ⟨Statement.resolve_eq_ok_iff.mpr ⟨?_, rest⟩, h.encoded⟩
    exact (Operand.resolve_of_not_label linked labels' labels).trans operand
  | true =>
    obtain ⟨name, address, label, found, word⟩ := h.source_of_isLinked linked
    simp only [Block.relocate, linked]
    refine ⟨Statement.resolve_eq_ok_iff.mpr ⟨?_, rest⟩, Instruction.encode_relocate h.encoded n⟩
    show b.placed.statement.operand.resolve labels' = .ok (b.instruction.source.relocate n)
    rw [label, word]
    exact Operand.resolve_label_eq_ok_iff.mpr ⟨_, moved name address found, rfl⟩

end Block.Resolved

/-- The blocks of two layouts are those of both of them. -/
theorem Layout.Above.blocks {l₁ l₂ l : Layout} {bs₁ bs₂ : List Block} {p₁ p₂ : Program} {k : Nat}
    (above : l₁.Above k l₂ l) (emits₁ : l₁.Emits bs₁ p₁) (emits₂ : l₂.Emits bs₂ p₂)
    (apart : ∀ name, l₁.labels.find? name ≠ none → l₂.labels.find? name = none) :
    (bs₁ ++ bs₂.map (Block.relocate l₁.length k)).map Block.placed = l.placed.reverse ∧
      ∀ b ∈ bs₁ ++ bs₂.map (Block.relocate l₁.length k), b.Resolved l.labels := by
  constructor
  · rw [above.placed, List.reverse_append, List.map_append, emits₁.placed, ← List.map_reverse,
      ← emits₂.placed, List.map_map, List.map_map]
    rfl
  · intro b hb
    rcases List.mem_append.mp hb with hb | hb
    · refine (emits₁.resolved b hb).mono fun name address found => ?_
      rw [above.labels, apart name (by simp [found]), Option.map_none, Option.none_or, found]
    · obtain ⟨b, hb', rfl⟩ := List.mem_map.mp hb
      refine (emits₂.resolved b hb').relocate (fun name address found => ?_) k
      rw [above.labels, found, Option.map_some, Option.some_or]

/-! ### Programs -/

/-- Whether the operand on a line is written as a label. -/
def Text.Line.isLinked (line : Line) : Bool :=
  line.statement?.any fun s => s.operand.isLabel

namespace Program

/-- The addresses of the instructions whose operand is written as a label. -/
def fixups (p : Program) (lines : List Text.Line) : List Int :=
  (p.info.sourceLines.filter fun entry =>
    lines.any fun line => line.number == entry.2 && line.isLinked).map Prod.fst

namespace LaidOut

variable {source : List Char} {p : Program} {bs : List Block} {b b' : Block} {a : Int}

theorem eq_of_address_eq (h : p.LaidOut source bs) (hb : b ∈ bs) (hb' : b' ∈ bs)
    (same : b.address = b'.address) : b = b' := by
  have pos := b.size_pos
  have pos' := b'.size_pos
  rcases h.tiles.separate hb hb' with rfl | apart | apart
  · rfl
  · omega
  · omega

theorem mem_fixups_iff (h : p.LaidOut source bs) :
    a ∈ p.fixups (Text.significantLines source) ↔ ∃ b ∈ bs, b.address = a ∧ b.isLinked = true := by
  have statement : ∀ b ∈ bs, ∀ line ∈ Text.significantLines source, line.number = b.placed.line →
      line.isLinked = b.isLinked := by
    intro b hb line mem number
    obtain ⟨line', mem', number', parsed⟩ := h.written b hb
    obtain rfl := Text.eq_of_number_eq mem mem' (number.trans number'.symm)
    rw [Text.Line.isLinked, Text.Line.statement?_eq_some_iff.mpr parsed, Block.isLinked]
    rfl
  simp only [fixups, h.sourceLines, List.mem_map, List.mem_filter, List.any_eq_true,
    Bool.and_eq_true, beq_iff_eq]
  constructor
  · rintro ⟨_, ⟨⟨b, hb, rfl⟩, line, mem, number, linked⟩, rfl⟩
    exact ⟨b, hb, rfl, statement b hb line mem number ▸ linked⟩
  · rintro ⟨b, hb, rfl, linked⟩
    obtain ⟨line, mem, number, -⟩ := h.written b hb
    exact ⟨b.lineEntry, ⟨⟨b, hb, rfl⟩, line, mem, number, statement b hb line mem number ▸ linked⟩,
      rfl⟩

theorem address_mem_fixups_iff (h : p.LaidOut source bs) (hb : b ∈ bs) :
    b.address ∈ p.fixups (Text.significantLines source) ↔ b.isLinked = true := by
  rw [h.mem_fixups_iff]
  constructor
  · rintro ⟨b', hb', same, linked⟩
    exact h.eq_of_address_eq hb' hb same ▸ linked
  · intro linked
    exact ⟨b, hb, rfl, linked⟩

/-- The cell before a word of a block is one that moves with its label exactly if the word is that
label's address. -/
theorem before_mem_fixups_iff (h : p.LaidOut source bs) (hb : b ∈ bs) {j : Nat} (hj : j < b.size) :
    b.address + j - 1 ∈ p.fixups (Text.significantLines source) ↔ b.isLinked = true ∧ j = 1 := by
  constructor
  · intro fixup
    obtain ⟨b', hb', at_b', linked⟩ := h.mem_fixups_iff.mp fixup
    have two : b'.size = 2 := (h.resolved b' hb').size_of_isLinked linked
    rcases h.tiles.separate hb hb' with rfl | apart | apart
    · exact ⟨linked, by omega⟩
    · omega
    · omega
  · rintro ⟨linked, rfl⟩
    rw [Nat.cast_one, add_sub_cancel_right]
    exact (h.address_mem_fixups_iff hb).mpr linked

theorem label_bounds (h : p.LaidOut source bs) {name : String} {address : Word}
    (found : p.info.labels.find? name = some address) :
    0 ≤ address.toInt ∧ address.toInt ≤ p.info.length := by
  rcases h.bound name address (Table.mem_of_find?_eq_some found) with ends | ⟨b, hb, starts⟩
  · omega
  · have bounds := h.bounds hb
    omega

end LaidOut

/-! ### One program above another -/

namespace LaidOut

variable {source source₁ source₂ : List Char} {p p₁ p₂ q : Program} {bs bs₁ bs₂ : List Block}
  {k : Nat}

theorem exists_word (h : p.LaidOut source bs) {a : Word} (lower : 0 ≤ a.toInt)
    (upper : a.toInt < p.info.length) :
    ∃ b ∈ bs, ∃ (j : Nat) (w : Word), j < b.size ∧ b.words[j]? = some w ∧
      a.toInt = b.address + j := by
  obtain ⟨b, hb, starts, ends⟩ := h.tiles.exists_covering lower upper
  have inside : (a.toInt - b.address).toNat < b.size := by omega
  have word := inside
  rw [← (h.resolved b hb).length_words] at word
  exact ⟨b, hb, _, _, inside, List.getElem?_eq_getElem word, by omega⟩

/-- More blocks above a program leave its cells alone. -/
theorem read_below (laid₁ : p₁.LaidOut source₁ bs₁) (laid : q.LaidOut source (bs₁ ++ bs))
    {a : Word} (below : a.toInt < p₁.info.length) : q.memory.read a = p₁.memory.read a := by
  by_cases lower : 0 ≤ a.toInt
  · obtain ⟨b, hb, j, w, -, here, place⟩ := laid₁.exists_word lower below
    rw [laid₁.read_block hb here place, laid.read_block (by simp [hb]) here place]
  · rw [laid₁.read_outside (by omega), laid.read_outside (by omega)]

/-- The cells of a program that is moved up are those it had, except for addresses of labels. -/
theorem read_above {n : Nat} (laid₂ : p₂.LaidOut source₂ bs₂)
    (laid : q.LaidOut source (bs₁ ++ bs₂.map (Block.relocate n k)))
    (length : q.info.length = n + p₂.info.length)
    {a a' : Word} (lower : 0 ≤ a.toInt) (moved : a'.toInt = a.toInt + n) :
    q.memory.read a' = if a.toInt - 1 ∈ p₂.fixups (Text.significantLines source₂) then
      (p₂.memory.read a).relocate n
    else
      p₂.memory.read a := by
  by_cases upper : a.toInt < p₂.info.length
  · obtain ⟨b, hb, j, w, inside, here, place⟩ := laid₂.exists_word lower upper
    have there := Block.getElem?_words_relocate here n k
    have address : (b.relocate n k).address = b.address + n := by
      simp [Block.address, Block.relocate, Placed.relocate]
    have mem : b.relocate n k ∈
        bs₁ ++ bs₂.map (Block.relocate n k) :=
      List.mem_append_right _ (List.mem_map_of_mem hb)
    rw [laid.read_block mem there (by omega), laid₂.read_block hb here place, place]
    simp only [laid₂.before_mem_fixups_iff hb inside]
  · have none : a.toInt - 1 ∉ p₂.fixups (Text.significantLines source₂) := by
      intro fixup
      obtain ⟨b, hb, starts, linked⟩ := laid₂.mem_fixups_iff.mp fixup
      have two := (laid₂.resolved b hb).size_of_isLinked linked
      have bounds := laid₂.bounds hb
      omega
    rw [if_neg none, laid.read_outside (by omega), laid₂.read_outside (by omega)]

theorem instructions_above {n : Nat} (laid₁ : p₁.LaidOut source₁ bs₁)
    (laid₂ : p₂.LaidOut source₂ bs₂)
    (laid : q.LaidOut source (bs₁ ++ bs₂.map (Block.relocate n k))) :
    q.info.instructions = p₁.info.instructions ++ p₂.info.instructions.map fun (a, i) =>
      (a + n, if a ∈ p₂.fixups (Text.significantLines source₂) then i.relocate n else i) := by
  rw [laid.instructions, laid₁.instructions, laid₂.instructions, List.map_append, List.map_map,
    List.map_map]
  congr 1
  refine List.map_congr_left fun b hb => ?_
  simp only [Function.comp, Block.entry, laid₂.address_mem_fixups_iff hb]
  rfl

theorem word_of_mem_fixups (h : p.LaidOut source bs) {a : Int} {i : Instruction}
    (recorded : (a, i) ∈ p.info.instructions) (fixup : a ∈ p.fixups (Text.significantLines source))
    {n : Nat} (fits : (n + p.info.length : Nat) ≤ Word.limit) :
    ∃ w, i.source = .word w ∧ (w.relocate n).toInt = w.toInt + n := by
  obtain ⟨b, hb, rfl, rfl⟩ := h.mem_instructions.mp recorded
  obtain ⟨name, address, -, found, word⟩ :=
    (h.resolved b hb).source_of_isLinked ((h.address_mem_fixups_iff hb).mp fixup)
  have bounds := h.label_bounds found
  exact ⟨address, word, Word.toInt_relocate (by omega) (by omega)⟩

end LaidOut

/-- The third program is the first with the second one above it.  The lines are those of the second
program. -/
structure Stacked (p₁ p₂ : Program) (lines : List Text.Line) (q : Program) : Prop where
  length : q.info.length = p₁.info.length + p₂.info.length
  /-- The labels of the second program have moved up, none of them past the top of memory. -/
  labels : ∀ name, (q.info.labels.find? name).map Word.toInt =
    ((p₁.info.labels.find? name).map Word.toInt).or
      ((p₂.info.labels.find? name).map fun address => address.toInt + p₁.info.length)
  /-- The instructions of the second program have moved up, and those of them whose operand is
  written as a label have it moved up. -/
  instructions : q.info.instructions =
    p₁.info.instructions ++ p₂.info.instructions.map fun (a, i) =>
      (a + p₁.info.length, if a ∈ p₂.fixups lines then i.relocate p₁.info.length else i)
  /-- An operand that moves up is a word, and stays one. -/
  exact : ∀ a i, (a, i) ∈ p₂.info.instructions → a ∈ p₂.fixups lines →
    ∃ w, i.source = .word w ∧ (w.relocate p₁.info.length).toInt = w.toInt + p₁.info.length
  below : ∀ a : Word, a.toInt < p₁.info.length → q.memory.read a = p₁.memory.read a
  /-- The cells of the second program have moved up, and those of them that hold the address of a
  label hold the one it has now. -/
  above : ∀ a a' : Word, 0 ≤ a.toInt → a'.toInt = a.toInt + p₁.info.length →
    q.memory.read a' = if a.toInt - 1 ∈ p₂.fixups lines then
      (p₂.memory.read a).relocate p₁.info.length
    else
      p₂.memory.read a
  warnings : q.info.warnings.length = p₁.info.warnings.length + p₂.info.warnings.length

variable {s₁ s₂ : String} {p₁ p₂ : Program}

/-- **Relocation**: two sources without a common label that fit in memory together assemble, one
below the other, to the program of the first with that of the second above it. -/
theorem assemble_append (h₁ : assemble s₁ = .ok p₁) (h₂ : assemble s₂ = .ok p₂)
    (apart : (declaredNames (Text.significantLines s₁.toList)).Disjoint
      (declaredNames (Text.significantLines s₂.toList)))
    (fits : (p₁.info.length + p₂.info.length : Nat) ≤ Word.limit) :
    ∃ q, assemble (s₁ ++ "\n" ++ s₂) = .ok q ∧
      p₁.Stacked p₂ (Text.significantLines s₂.toList) q := by
  obtain ⟨l₁, bs₁, scanned₁, emits₁⟩ := assemble_eq_ok_iff.mp h₁
  obtain ⟨l₂, bs₂, scanned₂, emits₂⟩ := assemble_eq_ok_iff.mp h₂
  have laid₁ := laidOut_of_emits scanned₁ emits₁
  have laid₂ := laidOut_of_emits scanned₂ emits₂
  have length₁ : p₁.info.length = l₁.length := by rw [emits₁.info]
  have length₂ : p₂.info.length = l₂.length := by rw [emits₂.info]
  have labels₁ : p₁.info.labels = l₁.labels := by rw [emits₁.info]
  have labels₂ : p₂.info.labels = l₂.labels := by rw [emits₂.info]
  have fresh : ∀ name ∈ declaredNames (Text.significantLines s₂.toList),
      l₁.labels.find? name = none := by
    intro name declared
    rw [Table.find?_eq_none_iff, (Layout.declares_of_ofSource scanned₁).names]
    exact fun other => apart other declared
  obtain ⟨l, rest, above⟩ := (Layout.above_self l₁ (Text.split '\n' s₁.toList).length).scan
    scanned₂ fresh (by omega)
  have scanned : Layout.ofSource (s₁ ++ "\n" ++ s₂).toList = ⟨l, none⟩ := by
    have text : (s₁ ++ "\n" ++ s₂).toList = s₁.toList ++ '\n' :: s₂.toList := by simp
    rw [Layout.ofSource, text, Text.significantLines_append, Layout.scan_append_iff]
    exact ⟨l₁, scanned₁, rest⟩
  have known : ∀ name, l₁.labels.find? name ≠ none → l₂.labels.find? name = none := by
    intro name known
    rw [Table.find?_eq_none_iff, (Layout.declares_of_ofSource scanned₂).names]
    exact fun declared => known (fresh name declared)
  obtain ⟨placed, resolved⟩ := above.blocks emits₁ emits₂ known
  obtain ⟨q, emits⟩ := Layout.exists_emits scanned placed resolved
  have laid := laidOut_of_emits scanned emits
  have length : q.info.length = p₁.info.length + p₂.info.length := by
    rw [emits.info, length₁, length₂, Nat.add_comm]
    exact above.length
  rw [← length₁] at laid
  refine ⟨q, assemble_eq_ok_iff.mpr ⟨l, _, scanned, emits⟩, ?_⟩
  refine
    { length := length
      labels := fun name => ?_
      instructions := laid₁.instructions_above laid₂ laid
      exact := fun a i recorded fixup => laid₂.word_of_mem_fixups recorded fixup fits
      below := fun a => laid₁.read_below laid
      above := fun a a' => laid₂.read_above laid length
      warnings := ?_ }
  · have labels : q.info.labels = l.labels := by rw [emits.info]
    rw [labels, labels₁, labels₂, length₁]
    refine above.toInt_find? known (fun address found => ?_) name
    have bounds := laid₂.label_bounds (labels₂ ▸ found)
    omega
  · rw [emits.info, emits₁.info, emits₂.info]
    simp only [List.length_map, List.length_reverse]
    rw [above.redeclared, Nat.add_comm]

/-- The second program declares its label twice and jumps to it; it has a wide value as well, which
does not move. -/
theorem assemble_append_loops :
    ∃ p₁ p₂ q,
      assemble ".top\nADD r0, r1\nJMP .top" = .ok p₁ ∧
      assemble ".loop\nMOV r0, oooooo+--\n.loop\nJMP .loop\n" = .ok p₂ ∧
      assemble (".top\nADD r0, r1\nJMP .top" ++ "\n" ++
        ".loop\nMOV r0, oooooo+--\n.loop\nJMP .loop\n") = .ok q ∧
      p₁.info.length = 3 ∧ p₂.info.length = 4 ∧
      p₂.fixups (Text.significantLines
        ".loop\nMOV r0, oooooo+--\n.loop\nJMP .loop\n".toList) = [2] ∧
      p₁.Stacked p₂ (Text.significantLines
        ".loop\nMOV r0, oooooo+--\n.loop\nJMP .loop\n".toList) q := by
  have first : (assemble ".top\nADD r0, r1\nJMP .top").map (fun p => p.info.length) = .ok 3 := by
    decide +kernel
  have second : (assemble ".loop\nMOV r0, oooooo+--\n.loop\nJMP .loop\n").map
      (fun p => (p.info.length, p.fixups
        (Text.significantLines ".loop\nMOV r0, oooooo+--\n.loop\nJMP .loop\n".toList))) =
      .ok (4, [2]) := by decide +kernel
  obtain ⟨p₁, assembled₁, length₁⟩ := map_eq_ok_iff.mp first
  obtain ⟨p₂, assembled₂, both⟩ := map_eq_ok_iff.mp second
  obtain ⟨length₂, moves⟩ := Prod.mk.inj both
  have apart : ∀ name ∈ declaredNames (Text.significantLines
        ".top\nADD r0, r1\nJMP .top".toList),
      name ∉ declaredNames (Text.significantLines
        ".loop\nMOV r0, oooooo+--\n.loop\nJMP .loop\n".toList) := by decide +kernel
  obtain ⟨q, assembled, stacked⟩ := assemble_append assembled₁ assembled₂
    (List.disjoint_left.mpr apart) (by rw [length₁, length₂]; decide)
  exact ⟨p₁, p₂, q, assembled₁, assembled₂, assembled, length₁, length₂, moves, stacked⟩

end Program

end TernaryMachine
