import Mathlib.Data.List.Dedup
import TernaryMachine.Proofs.Program
import TernaryMachine.Proofs.Statement
/-! # What labels stand for

* **Declarations.**  The table of a program has the names that its lines declare, each once, and
  there is a warning for each declaration of a name that was declared before (`Declares`).
* **Binding.**  A label stands for the address where its last declaration is: later lines leave it
  alone (`find?_labels_of_scan`), and the next statement gets that address
  (`next_of_scan`).
* **Use.**  A statement with a label for its operand becomes two words, the second of which is the
  address of the label, however small.

`Program.BindsLabels` puts these together in terms of the lines of a source and the record of the
program, and `bindsLabels_of_assemble` says that every program does so. -/

namespace TernaryMachine

/-! ### Lines -/

namespace Text.Line

/-- The name that a line declares. -/
def declared? (line : Line) : Option String :=
  match Entry.parse line.text with
  | .ok (.label name) => some name
  | _ => none

def statement? (line : Line) : Option Statement :=
  match Entry.parse line.text with
  | .ok (.statement s) => some s
  | _ => none

/-- The last operand on a line, as it is written. -/
def operand? (line : Line) : Option (List Char) :=
  (Statement.tokens (Statement.operandPart line.text)).getLast?

variable {line : Line} {name : String} {s : Statement}

theorem declared?_of_label (h : Entry.parse line.text = .ok (.label name)) :
    line.declared? = some name := by
  rw [declared?, h]

theorem declared?_of_statement (h : Entry.parse line.text = .ok (.statement s)) :
    line.declared? = none := by
  rw [declared?, h]

theorem statement?_of_label (h : Entry.parse line.text = .ok (.label name)) :
    line.statement? = none := by
  rw [statement?, h]

theorem statement?_eq_some_iff :
    line.statement? = some s ↔ Entry.parse line.text = .ok (.statement s) := by
  unfold statement?
  split
  · next e => simp [e]
  · next none =>
    simp only [reduceCtorEq, false_iff]
    exact none s

end Text.Line

/-- The names that lines declare, one for each declaration. -/
def declaredNames (lines : List Text.Line) : List String :=
  lines.filterMap Text.Line.declared?

namespace Layout

variable {l l' : Layout} {lines : List Text.Line} {name : String}

/-! ### Declarations -/

/-- What the label table of a layout has to do with the lines before. -/
structure Declares (done : List Text.Line) (l : Layout) : Prop where
  names : ∀ name, name ∈ l.labels.names ↔ name ∈ declaredNames done
  ascending : l.labels.Ascending
  /-- Every declaration either makes the table longer or is a redeclaration. -/
  count : l.redeclared.length + l.labels.length = (declaredNames done).length

theorem declares_empty : Declares [] .empty where
  names name := by simp [Layout.empty, Table.names, declaredNames]
  ascending := Table.ascending_nil
  count := rfl

theorem Declares.place {done : List Text.Line} {line : Text.Line} (h : l.Declares done)
    (placed : l.place line = .ok l') : l'.Declares (done ++ [line]) := by
  obtain ⟨name, address, parsed, -, rfl⟩ | ⟨s, parsed, -, rfl⟩ := place_eq_ok_iff.mp placed
  · have grows : declaredNames (done ++ [line]) = declaredNames done ++ [name] := by
      rw [declaredNames, List.filterMap_append,
        List.filterMap_cons_some (Text.Line.declared?_of_label parsed), List.filterMap_nil]
      rfl
    refine ⟨fun other => ?_, Table.ascending_insert h.ascending name address, ?_⟩
    · rw [grows, withLabel, Table.mem_names_insert, h.names, List.mem_append,
        List.mem_singleton, or_comm]
    · have count := h.count
      rw [grows, List.length_append, ← count, withLabel]
      simp only [Table.length_insert h.ascending, List.length_singleton]
      cases l.labels.find? name with
      | none => rw [Option.isSome_none, if_neg (by decide), Nat.add_assoc]
      | some previous =>
        rw [Option.isSome_some, if_pos rfl, List.length_cons]
        omega
  · have same : declaredNames (done ++ [line]) = declaredNames done := by
      rw [declaredNames, List.filterMap_append,
        List.filterMap_cons_none (Text.Line.declared?_of_statement parsed), List.filterMap_nil,
        List.append_nil]
      rfl
    exact ⟨fun other => by rw [same]; exact h.names other, h.ascending, by rw [same]; exact h.count⟩

theorem declares_of_ofSource {source : List Char} (h : Layout.ofSource source = ⟨l, none⟩) :
    l.Declares (Text.significantLines source) :=
  scan_induction (P := fun done l => l.Declares done)
    (fun _ _ _ _ declares placed => declares.place placed) h declares_empty

/-- Each declaration of a name beyond the first is a redeclaration. -/
theorem Declares.length_redeclared {done : List Text.Line} (h : l.Declares done) :
    l.redeclared.length + (declaredNames done).dedup.length = (declaredNames done).length := by
  have perm : (declaredNames done).dedup.Perm l.labels.names :=
    (List.perm_ext_iff_of_nodup (List.nodup_dedup _) h.ascending.nodup).mpr
      fun name => by rw [List.mem_dedup, h.names]
  rw [perm.length_eq, Table.names, List.length_map, h.count]

/-! ### Binding -/

theorem find?_labels_of_scan (h : l.scan lines = ⟨l', none⟩) (fresh : name ∉ declaredNames lines) :
    l'.labels.find? name = l.labels.find? name := by
  induction lines generalizing l with
  | nil =>
    cases h
    rfl
  | cons line lines ih =>
    obtain ⟨mid, placed, rest⟩ := scan_cons_iff.mp h
    obtain ⟨other, address, parsed, -, rfl⟩ | ⟨s, parsed, -, rfl⟩ := place_eq_ok_iff.mp placed
    · rw [declaredNames, List.filterMap_cons_some (Text.Line.declared?_of_label parsed),
        List.mem_cons, not_or] at fresh
      rw [ih rest fresh.2, withLabel, Table.find?_insert, if_neg fresh.1]
    · rw [declaredNames,
        List.filterMap_cons_none (Text.Line.declared?_of_statement parsed)] at fresh
      rw [ih rest fresh, withStatement]

theorem placed_subset_of_scan (h : l.scan lines = ⟨l', none⟩) : l.placed ⊆ l'.placed := by
  refine scan_invariant (P := fun m => l.placed ⊆ m.placed) ?_ h (List.Subset.refl _)
  intro m line next kept placed
  obtain ⟨other, address, -, -, rfl⟩ | ⟨s, -, -, rfl⟩ := place_eq_ok_iff.mp placed
  · exact kept
  · exact List.Subset.trans kept (List.subset_cons_self _ _)

theorem mem_placed_of_scan (h : l.scan lines = ⟨l', none⟩) {line : Text.Line} (mem : line ∈ lines)
    {s : Statement} (parsed : Entry.parse line.text = .ok (.statement s)) :
    ∃ address, ⟨address, line.number, s⟩ ∈ l'.placed := by
  obtain ⟨before, after, rfl⟩ := List.append_of_mem mem
  obtain ⟨mid, -, h⟩ := scan_append_iff.mp h
  obtain ⟨next, placed, rest⟩ := scan_cons_iff.mp h
  obtain ⟨other, address, label, -, -⟩ | ⟨s', same, -, rfl⟩ := place_eq_ok_iff.mp placed
  · rw [parsed] at label
    cases label
  · rw [parsed] at same
    cases same
    exact ⟨mid.length, placed_subset_of_scan rest List.mem_cons_self⟩

/-- The address at which lines begin is that of their first statement; if they have none, it is
the end. -/
theorem next_of_scan (h : l.scan lines = ⟨l', none⟩) :
    match lines.find? fun line => line.statement?.isSome with
    | some next => ∃ s, ⟨l.length, next.number, s⟩ ∈ l'.placed
    | none => l'.length = l.length := by
  induction lines generalizing l with
  | nil =>
    cases h
    rfl
  | cons line lines ih =>
    obtain ⟨mid, placed, rest⟩ := scan_cons_iff.mp h
    obtain ⟨other, address, parsed, -, rfl⟩ | ⟨s, parsed, -, rfl⟩ := place_eq_ok_iff.mp placed
    · have no_statement := Text.Line.statement?_of_label parsed
      rw [List.find?_cons_of_neg (by simp [no_statement])]
      have next := ih rest
      exact next
    · have statement := Text.Line.statement?_eq_some_iff.mpr parsed
      rw [List.find?_cons_of_pos (by simp [statement])]
      exact ⟨s, placed_subset_of_scan rest List.mem_cons_self⟩

/-- A label stands for the address of the first statement after its last declaration; if there is
none, for the end. -/
theorem bound_of_scan {before after : List Text.Line} {line : Text.Line}
    (h : l.scan (before ++ line :: after) = ⟨l', none⟩) (declared : line.declared? = some name)
    (last : name ∉ declaredNames after) :
    ∃ address, l'.labels.find? name = some address ∧
      match after.find? fun line => line.statement?.isSome with
      | some next => ∃ (a : Nat) (s : Statement),
        ⟨a, next.number, s⟩ ∈ l'.placed ∧ address.toInt = a
      | none => address.toInt = l'.length := by
  obtain ⟨mid, -, h⟩ := scan_append_iff.mp h
  obtain ⟨next, placed, rest⟩ := scan_cons_iff.mp h
  obtain ⟨other, address, parsed, here, rfl⟩ | ⟨s, parsed, -, rfl⟩ := place_eq_ok_iff.mp placed
  · rw [Text.Line.declared?_of_label parsed, Option.some.injEq] at declared
    subst declared
    have found : l'.labels.find? other = some address := by
      rw [find?_labels_of_scan rest last, withLabel, Table.find?_insert, if_pos rfl]
    have follows := next_of_scan rest
    refine ⟨address, found, ?_⟩
    split
    · next next first =>
      rw [first] at follows
      obtain ⟨s, placed⟩ := follows
      exact ⟨_, s, placed, here⟩
    · next none =>
      rw [none] at follows
      rw [here, follows]
      rfl
  · rw [Text.Line.declared?_of_statement parsed] at declared
    cases declared

end Layout

/-! ### Blocks -/

namespace Block.Resolved

variable {labels : Table String Word} {b : Block}

theorem source_of_label (h : b.Resolved labels) {name : String}
    (label : b.placed.statement.operand = .label name) :
    ∃ address, labels.find? name = some address ∧ b.instruction.source = .word address := by
  have operand := (Statement.resolve_eq_ok_iff.mp h.resolved).1
  rw [label] at operand
  exact Operand.resolve_label_eq_ok_iff.mp operand

theorem second_of_word (h : b.Resolved labels) {w : Word} (word : b.instruction.source = .word w) :
    b.encoding.second = some w := by
  obtain ⟨_, _, _, _, _, value⟩ := Instruction.encode_eq_ok_iff.mp h.encoded
  rw [← value, word]
  rfl

end Block.Resolved

/-! ### Programs -/

/-- The instruction of a statement whose operand is a full word. -/
def Statement.withWord (s : Statement) (w : Word) : Instruction :=
  ⟨s.opcode, s.direction, s.x, .word w⟩

namespace Program

/-- The label table of a program is that of its lines, and the program goes by it. -/
structure BindsLabels (p : Program) (lines : List Text.Line) : Prop where
  names : ∀ name, name ∈ p.info.labels.names ↔ name ∈ declaredNames lines
  nodup : p.info.labels.names.Nodup
  /-- A label stands for the address of the first statement after its last declaration, or for the
  end of the program. -/
  bound : ∀ before line after name, lines = before ++ line :: after →
    line.declared? = some name → name ∉ declaredNames after →
      ∃ address, p.info.labels.find? name = some address ∧
        match after.find? fun line => line.statement?.isSome with
        | some next => (address.toInt, next.number) ∈ p.info.sourceLines
        | none => address.toInt = p.info.length
  /-- A statement with a label for its operand is two words, and the second is the address of the
  label. -/
  used : ∀ line ∈ lines, ∀ s name, line.statement? = some s →
    line.operand? = some ('.' :: name.toList) →
      ∃ a address first, p.info.labels.find? name = some address ∧
        (a, line.number) ∈ p.info.sourceLines ∧
        (a, s.withWord address) ∈ p.info.instructions ∧
        (s.withWord address).encode = .ok ⟨first, some address⟩ ∧
        p.memory.load a = .ok first ∧ p.memory.load (a + 1) = .ok address
  /-- There is one warning for each declaration of a name beyond the first. -/
  warnings :
    p.info.warnings.length + (declaredNames lines).dedup.length = (declaredNames lines).length

theorem LaidOut.load_label {source : List Char} {p : Program} {bs : List Block}
    (h : p.LaidOut source bs) {b : Block} (hb : b ∈ bs) {name : String}
    (label : b.placed.statement.operand = .label name) :
    ∃ address first, p.info.labels.find? name = some address ∧
      b.instruction = b.placed.statement.withWord address ∧
      b.instruction.encode = .ok ⟨first, some address⟩ ∧
      p.memory.load b.address = .ok first ∧ p.memory.load (b.address + 1) = .ok address := by
  obtain ⟨address, found, word⟩ := (h.resolved b hb).source_of_label label
  have second := (h.resolved b hb).second_of_word word
  have words : b.words = [b.encoding.first, address] := by
    rw [Block.words, Encoding.words, second]
    rfl
  have load := h.load_block hb (k := 0) (by rw [words]; rfl)
  have load_next := h.load_block hb (k := 1) (by rw [words]; rfl)
  rw [Nat.cast_zero, add_zero] at load
  refine ⟨address, b.encoding.first, found, ?_, ?_, load, load_next⟩
  · obtain ⟨-, opcode, direction, x⟩ := Statement.resolve_eq_ok_iff.mp (h.resolved b hb).resolved
    rw [Statement.withWord, ← opcode, ← direction, ← x, ← word]
  · rw [(h.resolved b hb).encoded, ← second]

/-- **Labels**: every program that assembles binds the labels that its lines declare, each to what
follows its last declaration, and resolves every use of them. -/
theorem bindsLabels_of_assemble {source : String} {p : Program} (h : assemble source = .ok p) :
    p.BindsLabels (Text.significantLines source.toList) := by
  obtain ⟨l, bs, scanned, emits⟩ := assemble_eq_ok_iff.mp h
  have laid := laidOut_of_emits scanned emits
  have declares := Layout.declares_of_ofSource scanned
  have labels : p.info.labels = l.labels := by rw [emits.info]
  have length : p.info.length = l.length := by rw [emits.info]
  have recorded : ∀ q ∈ l.placed, ∃ b ∈ bs, b.placed = q := by
    intro q hq
    rw [← List.mem_reverse, ← emits.placed, List.mem_map] at hq
    exact hq
  refine
    { names := fun name => by rw [labels, declares.names]
      nodup := by rw [labels]; exact declares.ascending.nodup
      bound := ?_
      used := ?_
      warnings := ?_ }
  · intro before line after name split declared last
    rw [Layout.ofSource, split] at scanned
    obtain ⟨address, found, binds⟩ := Layout.bound_of_scan scanned declared last
    refine ⟨address, by rw [labels, found], ?_⟩
    split
    · next next first =>
      rw [first] at binds
      obtain ⟨a, s, placed, here⟩ := binds
      obtain ⟨b, hb, same⟩ := recorded _ placed
      have entry := laid.mem_sourceLines hb
      rw [Block.address, same] at entry
      rw [here]
      exact entry
    · next none =>
      rw [none] at binds
      rw [binds, length]
  · intro line mem s name statement written
    have parsed := Text.Line.statement?_eq_some_iff.mp statement
    obtain ⟨a, placed⟩ := Layout.mem_placed_of_scan scanned mem parsed
    obtain ⟨b, hb, same⟩ := recorded _ placed
    have label : b.placed.statement.operand = .label name := by
      rw [same]
      exact (Statement.operand_eq_label_iff (Entry.parse_eq_statement_iff.mp parsed).2).mpr written
    obtain ⟨address, first, found, instruction, encoded, load, load_next⟩ :=
      laid.load_label hb label
    have line_entry := laid.mem_sourceLines hb
    have entry : (b.address, b.instruction) ∈ p.info.instructions :=
      laid.mem_instructions.mpr ⟨b, hb, rfl, rfl⟩
    rw [same] at line_entry
    rw [instruction, same] at entry encoded
    exact ⟨b.address, address, first, found, line_entry, entry, encoded, load, load_next⟩
  · have warnings : p.info.warnings.length = l.redeclared.length := by
      rw [emits.info, List.length_map, List.length_reverse]
    rw [warnings, declares.length_redeclared]

/-- A label that is used before, between and after its two declarations, and one at the end. -/
theorem bindsLabels_of_assemble_twice :
    ∃ p, assemble "JMP .a
.a
LDA r0, .a ; again

.a
.end
BEQ .a
JAL .end
.end" = .ok p ∧
      p.info.labels.map (fun entry => (entry.1, entry.2.toInt)) = [("a", 4), ("end", 8)] ∧
      p.info.warnings.length = 2 ∧
      p.BindsLabels (Text.significantLines
        "JMP .a
.a
LDA r0, .a ; again

.a
.end
BEQ .a
JAL .end
.end".toList) := by
  have table : (assemble
      "JMP .a
.a
LDA r0, .a ; again

.a
.end
BEQ .a
JAL .end
.end").map (fun p =>
        (p.info.labels.map (fun entry => (entry.1, entry.2.toInt)), p.info.warnings.length)) =
      .ok ([("a", 4), ("end", 8)], 2) := by decide +kernel
  obtain ⟨p, assembled, table⟩ := map_eq_ok_iff.mp table
  rw [Prod.mk.injEq] at table
  exact ⟨p, assembled, table.1, table.2, bindsLabels_of_assemble assembled⟩

end Program

end TernaryMachine
