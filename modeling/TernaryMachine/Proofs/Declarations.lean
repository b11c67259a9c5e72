import TernaryMachine.Proofs.Grammar
/-! # Spellings of labels

A label is declared on a line of its own and used as an operand, and both have a point in front of
its name.

* **Use.**  Everything behind the point must be the name (`Statement.parse_jump_eq_ok_iff`).
* **Declaration.**  There may be blanks between the point and the name
  (`Layout.place_point_eq_ok_iff`).  Any other line with a point in front stops the first pass,
  and the error names the line (`assemble_eq_error_of_reaches`).

So the two agree on every text that has no blank behind its point, and only there
(`label_spelling`). -/

namespace TernaryMachine

variable {rest : List Char} {n : Nat}

/-! ### Names -/

theorem LabelChar.not_blank {c : Char} (h : LabelChar c) : Text.isBlank c = false := by
  have printable : 33 ≤ c.toNat ∧ c.toNat ≤ 126 := by
    rcases h with ⟨lower, upper⟩ | ⟨lower, upper⟩ | ⟨lower, upper⟩ | rfl | rfl
    · have above : 65 ≤ c.toNat := lower
      have below : c.toNat ≤ 90 := upper
      omega
    · have above : 97 ≤ c.toNat := lower
      have below : c.toNat ≤ 122 := upper
      omega
    · have above : 48 ≤ c.toNat := lower
      have below : c.toNat ≤ 57 := upper
      omega
    · decide
    · decide
  simp [Text.isBlank, Text.blankRanges]
  omega

namespace LabelName

theorem head_not_blank (h : LabelName rest) : ∀ c ∈ rest.head?, Text.isBlank c = false :=
  fun c mem => (h.2 c (List.mem_of_mem_head? mem)).not_blank

theorem comma_not_mem (h : LabelName rest) : ',' ∉ rest := by
  intro mem
  have comma := isLabelChar_iff.mpr (h.2 _ mem)
  revert comma
  decide

end LabelName

/-- Blanks behind the point are all that trimming takes away from a text that is trimmed with its
point. -/
theorem Text.trim_eq_self_of_point (trimmed : trim ('.' :: rest) = '.' :: rest)
    (first : ∀ c ∈ rest.head?, isBlank c = false) : trim rest = rest := by
  refine trim_eq_self first fun c last => ?_
  have last_of_point : c ∈ (trim ('.' :: rest)).getLast? := by
    rw [trimmed, Option.mem_def, List.getLast?_cons, Option.mem_def.mp last]
    rfl
  exact not_blank_of_mem_getLast?_trim last_of_point

/-! ### Declarations -/

theorem Entry.parse_point (rest : List Char) :
    Entry.parse ('.' :: rest) =
      if namesLabel (Text.trim rest) then
        .ok (.label (String.ofList (Text.trim rest)))
      else
        .error (.argument (.labelName (String.ofList (Text.trim rest)))) := rfl

namespace Layout

variable {l l' : Layout}

/-- A line with a point in front is laid out if a name follows and the end of the layout is still
an address. -/
theorem place_point_eq_ok_iff :
    l.place ⟨n, '.' :: rest⟩ = .ok l' ↔
      LabelName (Text.trim rest) ∧ ∃ address : Word, address.toInt = l.length ∧
        l' = l.withLabel n (String.ofList (Text.trim rest)) address := by
  rw [place_eq_ok_iff]
  dsimp only
  rw [Entry.parse_point, ← namesLabel_iff]
  split
  · next proper =>
    simp only [Except.ok.injEq, Entry.label.injEq, reduceCtorEq, false_and, exists_false,
      or_false]
    constructor
    · rintro ⟨_, address, rfl, here, rfl⟩
      exact ⟨proper, address, here, rfl⟩
    · rintro ⟨-, address, here, rfl⟩
      exact ⟨_, address, rfl, here, rfl⟩
  · next improper => simp [improper]

theorem place_point_of_not (improper : ¬ LabelName (Text.trim rest)) :
    l.place ⟨n, '.' :: rest⟩ =
      .error (.argument (.labelName (String.ofList (Text.trim rest)))) := by
  rw [← namesLabel_iff] at improper
  rw [place, Entry.parse_point, if_neg improper]

theorem exists_address_iff :
    (∃ address : Word, address.toInt = l.length) ↔ (l.length : Int) ≤ Word.limit := by
  constructor
  · rintro ⟨address, here⟩
    rw [← here]
    exact address.toInt_le_limit
  · intro room
    refine ⟨.wrap l.length, Word.toInt_wrap_of_le ?_ room⟩
    rw [Word.limit]
    omega

theorem exists_place_point_iff (room : (l.length : Int) ≤ Word.limit) :
    (∃ l', l.place ⟨n, '.' :: rest⟩ = .ok l') ↔ LabelName (Text.trim rest) := by
  obtain ⟨address, here⟩ := exists_address_iff.mpr room
  constructor
  · rintro ⟨l', placed⟩
    exact (place_point_eq_ok_iff.mp placed).1
  · intro proper
    exact ⟨_, place_point_eq_ok_iff.mpr ⟨proper, address, here, rfl⟩⟩

/-- The first pass gets to a line of a source with a layout of the lines before it. -/
def Reaches (source : String) (line : Text.Line) (l : Layout) : Prop :=
  ∃ before after, Text.significantLines source.toList = before ++ line :: after ∧
    empty.scan before = ⟨l, none⟩

end Layout

/-- A line that the first pass cannot lay out is what assembly fails with. -/
theorem assemble_eq_error_of_reaches {source : String} {line : Text.Line} {l : Layout}
    {fault : AssemblyFault} (reached : l.Reaches source line)
    (failed : l.place line = .error fault) :
    assemble source = .error ⟨line.number, fault⟩ := by
  obtain ⟨before, after, lines, scanned⟩ := reached
  rw [assemble, Layout.ofSource, lines, Layout.scan_append scanned, Layout.scan, failed]
  rfl

/-- A line alone is a program if it declares a label. -/
theorem exists_assemble_point_iff (trimmed : Text.trim ('.' :: rest) = '.' :: rest)
    (no_comment : ';' ∉ rest) (no_newline : '\n' ∉ rest) :
    (∃ p, assemble (String.ofList ('.' :: rest)) = .ok p) ↔ LabelName (Text.trim rest) := by
  have lines : Text.significantLines (String.ofList ('.' :: rest)).toList =
      [⟨1, '.' :: rest⟩] := by
    rw [String.toList_ofList]
    refine Text.significantLines_of_significant ?_ (Text.significant_eq_self ?_ trimmed)
      (List.cons_ne_nil _ _)
    · exact List.not_mem_cons_of_ne_of_not_mem (by decide) no_newline
    · exact List.not_mem_cons_of_ne_of_not_mem (by decide) no_comment
  constructor
  · rintro ⟨p, assembled⟩
    by_contra improper
    have failed := assemble_eq_error_of_reaches ⟨[], [], lines, rfl⟩
      (Layout.place_point_of_not improper)
    rw [assembled] at failed
    cases failed
  · intro proper
    obtain ⟨l, placed⟩ := (Layout.exists_place_point_iff (n := 1) (l := .empty) (by decide)).mpr
      proper
    have scanned : Layout.ofSource (String.ofList ('.' :: rest)).toList = ⟨l, none⟩ := by
      rw [Layout.ofSource, lines]
      exact Layout.scan_cons_iff.mpr ⟨l, placed, rfl⟩
    obtain ⟨-, address, -, rfl⟩ := Layout.place_point_eq_ok_iff.mp placed
    obtain ⟨p, emits⟩ := @Layout.exists_emits _ _ [] scanned rfl (List.forall_mem_nil _)
    exact ⟨p, Program.assemble_eq_ok_iff.mpr ⟨_, _, scanned, emits⟩⟩

/-! ### Uses -/

namespace Statement

/-- What a jump jumps to if its operand has a point in front. -/
theorem parse_jump_eq_ok_iff (trimmed : Text.trim ('.' :: rest) = '.' :: rest) {s : Statement} :
    parse ("JMP ".toList ++ '.' :: rest) = .ok s ↔
      LabelName rest ∧ s = ⟨.jmp, .load, .r0, .label (String.ofList rest)⟩ := by
  have plain : Text.Plain "JMP".toList := .of_isPlain rfl
  have mnemonic : mnemonicPart ("JMP ".toList ++ '.' :: rest) = "JMP".toList :=
    mnemonicPart_append plain ('.' :: rest)
  have operands : operandPart ("JMP ".toList ++ '.' :: rest) = '.' :: rest :=
    (operandPart_append plain ('.' :: rest)).trans trimmed
  have capitals : Mnemonic.capitals "JMP".toList = Opcode.mnemonic .jmp := by decide
  rw [parse_eq_ok_iff, mnemonic, operands, capitals]
  constructor
  · rintro ⟨names, written⟩
    obtain ⟨jump, load⟩ := names.unique (.opcode .jmp)
    obtain ⟨opcode, direction, x, o⟩ := s
    dsimp only at jump load written
    subst jump load
    generalize whole : '.' :: rest = operands at written
    cases written with
    | target jumps one target =>
      rw [← whole, Operand.written_point_iff] at target
      obtain ⟨proper, rfl⟩ := target
      exact ⟨proper, rfl⟩
    | pair used stays => exact absurd rfl stays
  · rintro ⟨proper, rfl⟩
    refine ⟨.opcode .jmp, .target rfl ?_ (.label proper)⟩
    rw [List.mem_cons, not_or]
    exact ⟨by decide, proper.comma_not_mem⟩

end Statement

/-! ### Both -/

/-- How a text behind a point is declared as a label and used as one. -/
structure LabelSpelling (rest : List Char) : Prop where
  /-- A declaration binds the name to the end of the layout, if that is an address. -/
  declared : ∀ (l l' : Layout) (n : Nat), l.place ⟨n, '.' :: rest⟩ = .ok l' ↔
    LabelName (Text.trim rest) ∧ ∃ address : Word, address.toInt = l.length ∧
      l' = l.withLabel n (String.ofList (Text.trim rest)) address
  accepted : ∀ (l : Layout) (n : Nat), (l.length : Int) ≤ Word.limit →
    ((∃ l', l.place ⟨n, '.' :: rest⟩ = .ok l') ↔ LabelName (Text.trim rest))
  used : ∀ name, Statement.parse ("JMP ".toList ++ '.' :: rest) =
      .ok ⟨.jmp, .load, .r0, .label name⟩ ↔
    LabelName rest ∧ name = String.ofList rest
  /-- What can be used can be declared, and the other way round but for blanks behind the point. -/
  agree : LabelName rest ↔
    LabelName (Text.trim rest) ∧ ∀ c ∈ rest.head?, Text.isBlank c = false
  same : (∀ c ∈ rest.head?, Text.isBlank c = false) → Text.trim rest = rest
  /-- A program of one line. -/
  alone : ';' ∉ rest → '\n' ∉ rest →
    ((∃ p, assemble (String.ofList ('.' :: rest)) = .ok p) ↔ LabelName (Text.trim rest))
  /-- A line that declares no label is an error that names it. -/
  refused : ¬ LabelName (Text.trim rest) →
    ∀ (source : String) (n : Nat) (l : Layout), l.Reaches source ⟨n, '.' :: rest⟩ →
      assemble source =
        .error ⟨n, .argument (.labelName (String.ofList (Text.trim rest)))⟩

/-- **Labels**: a text behind a point is a label to a declaration if it is a name once it is
trimmed, and to an operand if it is one as it stands. -/
theorem label_spelling (trimmed : Text.trim ('.' :: rest) = '.' :: rest) : LabelSpelling rest where
  declared _ _ _ := Layout.place_point_eq_ok_iff
  accepted _ _ := Layout.exists_place_point_iff
  used name := by
    rw [Statement.parse_jump_eq_ok_iff trimmed]
    simp
  agree := by
    constructor
    · intro proper
      have first := proper.head_not_blank
      rw [Text.trim_eq_self_of_point trimmed first]
      exact ⟨proper, first⟩
    · rintro ⟨proper, first⟩
      rwa [Text.trim_eq_self_of_point trimmed first] at proper
  same := Text.trim_eq_self_of_point trimmed
  alone := exists_assemble_point_iff trimmed
  refused improper _ _ _ reached :=
    assemble_eq_error_of_reaches reached (Layout.place_point_of_not improper)

/-- A name with two kinds of blanks in front of it. -/
theorem label_spelling_blanks :
    Text.trim ".\t loop-1".toList = ".\t loop-1".toList ∧ LabelSpelling "\t loop-1".toList :=
  ⟨by decide, label_spelling (by decide)⟩

/-- With a blank behind its point a label is declared, though no operand is read so. -/
theorem not_only_names_declared :
    ¬ ∀ (rest : List Char) (l : Layout) (n : Nat), Text.trim ('.' :: rest) = '.' :: rest →
      (l.length : Int) ≤ Word.limit →
        ((∃ l', l.place ⟨n, '.' :: rest⟩ = .ok l') ↔ LabelName rest) := by
  intro claim
  have declared : ∃ l', Layout.empty.place ⟨1, ". a".toList⟩ = .ok l' :=
    (Layout.exists_place_point_iff (by decide)).mpr (namesLabel_iff.mp (by decide))
  have proper := (claim _ .empty 1 (by decide) (by decide)).mp declared
  exact absurd (namesLabel_iff.mpr proper) (by decide)

end TernaryMachine
