import TernaryMachine.Assembly.Program
import TernaryMachine.Proofs.Grammar
/-! # Edits that make no difference

A program means the same however its source is laid out.

* **Lines.**  `LineEdit` is a change of one line: of its comment, of a blank at one of its ends or
  beside a comma between operands, or of the case of its mnemonic or of a register.  The line reads
  the same afterwards (`LineEdit.alike`).
* **Sources.**  `Edit` changes one line, or adds or takes away one with nothing on it, and says
  where each line goes.  The significant lines correspond (`Edit.corresponding`), and they do so
  along a chain of edits (`Edits.corresponding`).
* **Programs.**  Each pass does the same for corresponding lines (`Layout.scan_related`,
  `Emission.emitAll_renumber`), so that programs differ only in the numbers of their lines and
  errors, beside that, only in the letters of a mnemonic that is unknown. -/

namespace TernaryMachine

variable {f g : Nat → Nat}

/-! ### Letters -/

namespace Text

variable {c : Char} {cs as bs : List Char}

/-- A character from the first capital to the last small letter. -/
def Between (c : Char) : Prop :=
  'A' ≤ c ∧ c ≤ 'z'

instance (c : Char) : Decidable (Between c) :=
  inferInstanceAs (Decidable (_ ∧ _))

theorem between_iff : Between c ↔ 65 ≤ c.toNat ∧ c.toNat ≤ 122 := by
  simp [Between, Char.le_def, UInt32.le_iff_toNat_le, ← Char.toNat_val]

theorem not_blank_of_between (h : Between c) : isBlank c = false := by
  rw [between_iff] at h
  simp [isBlank, blankRanges]
  omega

theorem ne_of_between {d : Char} (sign : ¬ Between d) (h : Between c) : c ≠ d := by
  rintro rfl
  exact sign h

/-- Whether a function on characters changes nothing but letters, and those into letters. -/
def KeepsSigns (f : Char → Char) : Prop :=
  ∀ c, f c = c ∨ Between c ∧ Between (f c)

theorem keepsSigns_toUpper : KeepsSigns Char.toUpper := by
  intro c
  unfold Char.toUpper
  split
  · next small =>
    have bounds := small
    simp [UInt32.le_iff_toNat_le, -Char.toNat_val] at bounds
    simp [between_iff, ← Char.toNat_val]
    omega
  · exact .inl rfl

theorem keepsSigns_toLower : KeepsSigns Char.toLower := by
  intro c
  unfold Char.toLower
  split
  · next capital =>
    have bounds := capital
    simp [UInt32.le_iff_toNat_le, -Char.toNat_val] at bounds
    simp [between_iff, ← Char.toNat_val]
    omega
  · exact .inl rfl

theorem forall_mem_of_map_eq {f : Char → Char} {p : Char → Prop} (keeps : KeepsSigns f)
    (letters : ∀ c, Between c → p c) (same : as.map f = bs.map f) (h : ∀ c ∈ as, p c) :
    ∀ c ∈ bs, p c := by
  intro c mem
  have image : f c ∈ as.map f := by
    rw [same]
    exact List.mem_map_of_mem mem
  obtain ⟨a, there, equal⟩ := List.mem_map.mp image
  obtain sign | ⟨letter, -⟩ := keeps c
  · rw [sign] at equal
    obtain sign | ⟨-, letter⟩ := keeps a
    · rw [← equal, sign]
      exact h a there
    · rw [equal] at letter
      exact letters c letter
  · exact letters c letter

theorem not_mem_of_map_eq {f : Char → Char} {d : Char} (keeps : KeepsSigns f) (sign : ¬ Between d)
    (same : as.map f = bs.map f) (h : d ∉ as) : d ∉ bs := by
  have others : ∀ c ∈ as, c ≠ d := by
    rintro c mem rfl
    exact h mem
  exact fun mem => forall_mem_of_map_eq keeps (fun c => ne_of_between sign) same others d mem rfl

end Text

/-! ### Capital and small letters -/

theorem Register.Named.plain {r : Register} {token : List Char} (named : r.Named token) :
    Text.Plain token := by
  have plain := r.plain_name
  have same : r.name.toList.map Char.toLower = token.map Char.toLower := by
    rw [named]
    cases r <;> rfl
  refine ⟨?_, ?_, ?_⟩
  · rintro rfl
    exact plain.ne_nil named.symm
  · exact Text.forall_mem_of_map_eq Text.keepsSigns_toLower
      (fun c => Text.not_blank_of_between) same plain.not_blank
  · exact Text.forall_mem_of_map_eq Text.keepsSigns_toLower
      (fun c letter => ⟨Text.ne_of_between (by decide) letter,
        Text.ne_of_between (by decide) letter, Text.ne_of_between (by decide) letter⟩)
      same plain.not_special

namespace Mnemonic

variable {name name' : List Char}

/-- A text that a line with operands begins with: it is read as a mnemonic, whether or not it is
one. -/
structure Heads (name : List Char) : Prop where
  ne_nil : name ≠ []
  no_point : name.head? ≠ some '.'
  not_blank : ∀ c ∈ name, Text.isBlank c = false
  no_comment : ';' ∉ name

theorem Heads.of_plain (h : Text.Plain name) : Heads name := by
  refine ⟨h.ne_nil, fun point => ?_, h.not_blank, fun comment => (h.of_mem comment).1 rfl⟩
  exact (h.of_mem (List.mem_of_mem_head? point)).2.2 rfl

theorem Heads.of_capitals (h : Heads name) (same : capitals name = capitals name') :
    Heads name' := by
  have letters : name.map Char.toUpper = name'.map Char.toUpper := String.ofList_injective same
  refine ⟨?_, ?_, ?_, ?_⟩
  · rintro rfl
    exact h.ne_nil (List.map_eq_nil_iff.mp letters)
  · intro point
    obtain ⟨a, name, rfl⟩ := List.exists_cons_of_ne_nil h.ne_nil
    obtain ⟨name', rfl⟩ := List.head?_eq_some_iff.mp point
    have first : [a].map Char.toUpper = ['.'].map Char.toUpper := by
      rw [List.map_cons, List.map_cons, List.cons.injEq] at letters
      rw [List.map_singleton, List.map_singleton, letters.1]
    have other : '.' ∉ [a] := by simpa [eq_comm] using h.no_point
    exact Text.not_mem_of_map_eq Text.keepsSigns_toUpper (by decide) first other
      (List.mem_singleton_self _)
  · exact Text.forall_mem_of_map_eq Text.keepsSigns_toUpper
      (fun c => Text.not_blank_of_between) letters h.not_blank
  · exact Text.not_mem_of_map_eq Text.keepsSigns_toUpper (by decide) letters h.no_comment

end Mnemonic

/-! ### Reading alike -/

/-- Faults of one kind: an unknown mnemonic may have been written with other letters. -/
inductive AssemblyFault.Alike : AssemblyFault → AssemblyFault → Prop
  | same (fault : AssemblyFault) : Alike fault fault
  | unknown {name name' : List Char} (same : Mnemonic.capitals name = Mnemonic.capitals name') :
      Alike (.unknownMnemonic (String.ofList name)) (.unknownMnemonic (String.ofList name'))

namespace AssemblyFault

variable {fault₁ fault₂ fault₃ : AssemblyFault}

theorem Alike.symm (h : Alike fault₁ fault₂) : Alike fault₂ fault₁ := by
  cases h with
  | same => exact .same fault₁
  | unknown same => exact .unknown same.symm

theorem Alike.trans (h : Alike fault₁ fault₂) (h' : Alike fault₂ fault₃) : Alike fault₁ fault₃ := by
  cases h with
  | same => exact h'
  | @unknown name name' same =>
    generalize middle : AssemblyFault.unknownMnemonic (String.ofList name') = fault at h'
    cases h' with
    | same =>
      rw [← middle]
      exact .unknown same
    | unknown same' =>
      rw [AssemblyFault.unknownMnemonic.injEq] at middle
      rw [String.ofList_injective middle] at same
      exact .unknown (same.trans same')

end AssemblyFault

/-- Two texts that are read alike: as the same entry, or with faults of one kind. -/
abbrev Entry.ReadsAlike (cs cs' : List Char) : Prop :=
  Related AssemblyFault.Alike Eq (Entry.parse cs) (Entry.parse cs')

def Operand.SameRead (token token' : List Char) : Prop :=
  ∀ position, Operand.parse position token = Operand.parse position token'

theorem Operand.sameRead_self (tokens : List (List Char)) :
    List.Forall₂ SameRead tokens tokens :=
  List.forall₂_same.mpr fun _ _ _ => rfl

namespace Statement

variable {cs cs' name name' xs ys : List Char} {ts ts' : List (List Char)}

/-- The letters of a mnemonic and how the operands are written play no part in what is read. -/
theorem parseOperands_congr (m : Mnemonic) (same : Mnemonic.capitals name = Mnemonic.capitals name')
    (tokens : List.Forall₂ Operand.SameRead ts ts') :
    parseOperands name m ts = parseOperands name' m ts' := by
  obtain ⟨opcode, direction, signature⟩ := m
  cases tokens with
  | nil => cases signature <;> simp [parseOperands, same]
  | cons first rest =>
    cases rest with
    | nil => cases signature <;> simp [parseOperands, same, first 1]
    | cons second rest =>
      cases rest with
      | nil => cases signature <;> simp [parseOperands, same, first 1, second 2]
      | cons third rest => cases signature <;> simp [parseOperands, same, rest.length_eq]

theorem parse_related
    (same : Mnemonic.capitals (mnemonicPart cs) = Mnemonic.capitals (mnemonicPart cs'))
    (operands : List.Forall₂ Operand.SameRead (tokens (operandPart cs))
      (tokens (operandPart cs'))) :
    Related AssemblyFault.Alike Eq (parse cs) (parse cs') := by
  have known : Mnemonic.parse? (mnemonicPart cs') = Mnemonic.parse? (mnemonicPart cs) := by
    rw [Mnemonic.parse?, Mnemonic.parse?, same]
  cases found : Mnemonic.parse? (mnemonicPart cs) with
  | none =>
    rw [parse_of_none found, parse_of_none (known.trans found)]
    exact .error (.unknown same)
  | some m =>
    rw [parse_of_some found, parse_of_some (known.trans found), parseOperands_congr m same operands]
    exact .refl .same _

theorem tokens_trim {c : Char} (mem : c ∈ xs) (h : Text.isBlank c = false) :
    tokens (Text.trim xs) = (Text.split ',' xs).map Text.trim := by
  rw [tokens_of_ne_nil (Text.trim_ne_nil mem h), Text.map_trim_split_trim (by decide)]

theorem tokens_trim_comma (as bs : List Char) :
    tokens (Text.trim (as ++ ',' :: bs)) =
      (Text.split ',' (Text.trim as)).map Text.trim ++
        (Text.split ',' (Text.trim bs)).map Text.trim := by
  rw [tokens_trim (List.mem_append_right as List.mem_cons_self) (by decide), Text.split_append,
    List.map_append, Text.map_trim_split_trim (by decide), Text.map_trim_split_trim (by decide)]

end Statement

/-! ### Edits of a line -/

inductive OperandEdit : List Char → List Char → Prop
  /-- A blank is added before a comma. -/
  | before_comma (as bs : List Char) {c : Char} (blank : Text.isBlank c = true) :
      OperandEdit (as ++ ',' :: bs) (as ++ c :: ',' :: bs)
  /-- A blank is added after a comma. -/
  | after_comma (as bs : List Char) {c : Char} (blank : Text.isBlank c = true) :
      OperandEdit (as ++ ',' :: bs) (as ++ ',' :: c :: bs)
  /-- A register between commas, or between a comma and an end, is written with other letters. -/
  | register {as front token token' back bs : List Char} {r : Register}
      (starts : ∀ c ∈ as.getLast?, c = ',') (front_blank : ∀ c ∈ front, Text.isBlank c = true)
      (named : r.Named token) (named' : r.Named token')
      (back_blank : ∀ c ∈ back, Text.isBlank c = true) (ends : ∀ c ∈ bs.head?, c = ',') :
      OperandEdit (as ++ (front ++ token ++ back) ++ bs) (as ++ (front ++ token' ++ back) ++ bs)

inductive LineEdit : List Char → List Char → Prop
  /-- The text of a comment is changed. -/
  | comment (code old new : List Char) : LineEdit (code ++ ';' :: old) (code ++ ';' :: new)
  /-- A comment is added. -/
  | remark (code new : List Char) : LineEdit code (code ++ ';' :: new)
  /-- A blank is added at the front. -/
  | front {c : Char} (blank : Text.isBlank c = true) (cs : List Char) : LineEdit cs (c :: cs)
  /-- A blank is added at the back. -/
  | back {c : Char} (blank : Text.isBlank c = true) (cs : List Char) : LineEdit cs (cs ++ [c])
  /-- The mnemonic is written with other letters. -/
  | mnemonic {front name name' rest : List Char} (front_blank : ∀ c ∈ front, Text.isBlank c = true)
      (heads : Mnemonic.Heads name) (same : Mnemonic.capitals name = Mnemonic.capitals name')
      (ends : ∀ c ∈ rest.head?, Text.isBlank c = true ∨ c = ';') :
      LineEdit (front ++ (name ++ rest)) (front ++ (name' ++ rest))
  /-- The operands are changed, which stand between the first blank after the mnemonic and the
  comment. -/
  | operands {front name xs ys comment : List Char} {c : Char}
      (front_blank : ∀ c ∈ front, Text.isBlank c = true) (heads : Mnemonic.Heads name)
      (blank : Text.isBlank c = true) (code : ';' ∉ xs) (edit : OperandEdit xs ys)
      (ends : ∀ c ∈ comment.head?, c = ';') :
      LineEdit (front ++ (name ++ c :: (xs ++ comment))) (front ++ (name ++ c :: (ys ++ comment)))

namespace OperandEdit

open Statement

variable {xs ys : List Char}

theorem tokens_register {as front back bs : List Char}
    (starts : ∀ c ∈ as.getLast?, c = ',') (front_blank : ∀ c ∈ front, Text.isBlank c = true)
    (back_blank : ∀ c ∈ back, Text.isBlank c = true) (ends : ∀ c ∈ bs.head?, c = ',') :
    ∃ before after, ∀ token, Text.Plain token →
      tokens (Text.trim (as ++ (front ++ token ++ back) ++ bs)) = before ++ token :: after := by
  obtain ⟨before, after, pieces⟩ := Text.exists_piece starts ends
  refine ⟨before.map Text.trim, after.map Text.trim, fun token plain => ?_⟩
  obtain ⟨c, rest, text⟩ := List.exists_cons_of_ne_nil plain.ne_nil
  have first : c ∈ token := by simp [text]
  have no_comma {cs : List Char} (blank : ∀ c ∈ cs, Text.isBlank c = true) : ',' ∉ cs :=
    fun mem => absurd (blank ',' mem) (by decide)
  rw [tokens_trim (by simp [first]) (plain.not_blank c first), pieces, List.map_append,
    List.map_cons, Text.trim_append_blanks back_blank, Text.trim_blanks_append front_blank,
    plain.trim]
  simp [no_comma front_blank, no_comma back_blank, plain.comma_not_mem]

theorem sameRead (edit : OperandEdit xs ys) :
    List.Forall₂ Operand.SameRead (tokens (Text.trim xs)) (tokens (Text.trim ys)) := by
  cases edit with
  | @before_comma as bs c blank =>
    rw [List.append_cons as c, tokens_trim_comma, tokens_trim_comma, Text.trim_append_blank blank]
    exact Operand.sameRead_self _
  | @after_comma as bs c blank =>
    rw [tokens_trim_comma, tokens_trim_comma, Text.trim_blank_cons blank]
    exact Operand.sameRead_self _
  | register starts front_blank named named' back_blank ends =>
    obtain ⟨before, after, tokens⟩ := tokens_register starts front_blank back_blank ends
    rw [tokens _ named.plain, tokens _ named'.plain]
    refine List.rel_append (Operand.sameRead_self before)
      (.cons (fun position => ?_) (Operand.sameRead_self after))
    rw [Operand.parse_eq_ok_iff.mpr (Operand.written_register_iff.mpr named),
      Operand.parse_eq_ok_iff.mpr (Operand.written_register_iff.mpr named')]

theorem no_comment (edit : OperandEdit xs ys) (code : ';' ∉ xs) : ';' ∉ ys := by
  cases edit with
  | before_comma as bs blank =>
    simp only [List.mem_append, List.mem_cons, not_or] at code ⊢
    refine ⟨code.1, ?_, code.2⟩
    rintro rfl
    cases blank
  | after_comma as bs blank =>
    simp only [List.mem_append, List.mem_cons, not_or] at code ⊢
    refine ⟨code.1, code.2.1, ?_, code.2.2⟩
    rintro rfl
    cases blank
  | register starts front_blank named named' back_blank ends =>
    simp only [List.mem_append, not_or] at code ⊢
    obtain ⟨⟨before, ⟨front, -⟩, back⟩, after⟩ := code
    exact ⟨⟨before, ⟨front, fun mem => (named'.plain.not_special _ mem).2.1 rfl⟩, back⟩, after⟩

end OperandEdit

/-- Two lines that are both without anything significant or read alike. -/
structure LinesAlike (cs cs' : List Char) : Prop where
  empty_iff : Text.significant cs = [] ↔ Text.significant cs' = []
  reads : Entry.ReadsAlike (Text.significant cs) (Text.significant cs')

namespace LinesAlike

variable {cs cs' front name name' rest rest' : List Char}

theorem symm (h : LinesAlike cs cs') : LinesAlike cs' cs :=
  ⟨h.empty_iff.symm, h.reads.symm fun _ _ => AssemblyFault.Alike.symm⟩

theorem of_significant (same : Text.significant cs = Text.significant cs') : LinesAlike cs cs' := by
  refine ⟨by rw [same], ?_⟩
  rw [same]
  exact .refl .same _

theorem significant_append (front_blank : ∀ c ∈ front, Text.isBlank c = true)
    (heads : Mnemonic.Heads name) (rest : List Char) :
    Text.significant (front ++ (name ++ rest)) = name ++ Text.trimBack (Text.code rest) := by
  show Text.trim (Text.code _) = _
  rw [Text.code_append (Text.semicolon_not_mem_of_blank front_blank),
    Text.code_append heads.no_comment, Text.trim_blanks_append front_blank,
    Text.trim_append_of_not_blank heads.ne_nil heads.not_blank]

/-- Lines read alike that begin with the same mnemonic and have operands that are read the same. -/
theorem of_heads (front_blank : ∀ c ∈ front, Text.isBlank c = true) (heads : Mnemonic.Heads name)
    (same : Mnemonic.capitals name = Mnemonic.capitals name')
    (ends : ∀ c ∈ (Text.code rest).head?, Text.isBlank c = true)
    (ends' : ∀ c ∈ (Text.code rest').head?, Text.isBlank c = true)
    (operands : List.Forall₂ Operand.SameRead (Statement.tokens (Text.trim (Text.code rest)))
      (Statement.tokens (Text.trim (Text.code rest')))) :
    LinesAlike (front ++ (name ++ rest)) (front ++ (name' ++ rest')) := by
  have heads' := heads.of_capitals same
  have no_point {name xs : List Char} (heads : Mnemonic.Heads name) :
      (name ++ xs).head? ≠ some '.' := by
    rw [List.head?_append_of_ne_nil _ heads.ne_nil]
    exact heads.no_point
  obtain ⟨mnemonic, operand⟩ := Statement.parts_append heads.not_blank
    fun c mem => ends c (Text.mem_head?_of_mem_head?_trimBack mem)
  obtain ⟨mnemonic', operand'⟩ := Statement.parts_append heads'.not_blank
    fun c mem => ends' c (Text.mem_head?_of_mem_head?_trimBack mem)
  have text := significant_append front_blank heads rest
  have text' := significant_append front_blank heads' rest'
  refine ⟨?_, ?_⟩
  · rw [text, text']
    simp [heads.ne_nil, heads'.ne_nil]
  · rw [text, text', Entry.ReadsAlike, Entry.parse_of_head (no_point heads),
      Entry.parse_of_head (no_point heads')]
    refine (Statement.parse_related ?_ ?_).map _
    · rw [mnemonic, mnemonic', same]
    · rw [operand, operand', Text.trim_trimBack, Text.trim_trimBack]
      exact operands

end LinesAlike

/-- A line reads alike after an edit. -/
theorem LineEdit.alike {cs cs' : List Char} (edit : LineEdit cs cs') : LinesAlike cs cs' := by
  cases edit with
  | comment code old new =>
    refine .of_significant ?_
    rw [Text.significant_comment, Text.significant_comment]
  | remark _ new => exact .of_significant (Text.significant_comment cs new).symm
  | front blank _ => exact .of_significant (Text.significant_blank_cons blank cs).symm
  | back blank _ => exact .of_significant (Text.significant_append_blank blank cs).symm
  | @mnemonic front name name' rest front_blank heads same ends =>
    have blank : ∀ c ∈ (Text.code rest).head?, Text.isBlank c = true := by
      cases rest with
      | nil => nofun
      | cons d rest =>
        obtain blank | rfl := ends d rfl
        · rw [Text.code_cons (Text.ne_semicolon_of_blank blank)]
          simpa using blank
        · nofun
    exact .of_heads front_blank heads same blank blank (Operand.sameRead_self _)
  | @operands front name xs ys comment c front_blank heads blank code edit ends =>
    have cut {zs : List Char} (code : ';' ∉ zs) : Text.code (c :: (zs ++ comment)) = c :: zs := by
      rw [Text.code_cons (Text.ne_semicolon_of_blank blank), Text.code_append code,
        Text.code_of_head ends, List.append_nil]
    refine .of_heads front_blank heads rfl ?_ ?_ ?_
    · rw [cut code]
      simpa using blank
    · rw [cut (edit.no_comment code)]
      simpa using blank
    · rw [cut code, cut (edit.no_comment code), Text.trim_blank_cons blank,
        Text.trim_blank_cons blank]
      exact edit.sameRead

/-! ### Edits of a source -/

/-- The lines of a source, as they stand between its line feeds. -/
def rawLines (source : String) : List (List Char) :=
  Text.split '\n' source.toList

/-- Whether there is nothing on a line but blanks and a comment. -/
def Text.Vacant (cs : List Char) : Prop :=
  ∃ blanks comment, cs = blanks ++ comment ∧ (∀ c ∈ blanks, isBlank c = true) ∧
    ∀ c ∈ comment.head?, c = ';'

theorem Text.Vacant.significant_eq {cs : List Char} (h : Vacant cs) : significant cs = [] := by
  obtain ⟨blanks, comment, rfl, blank, ends⟩ := h
  show trim (code _) = _
  rw [code_append (semicolon_not_mem_of_blank blank), code_of_head ends, trim_blanks_append blank]
  rfl

/-- An edit of the lines of a source, with the new number of each line.  What it says of the number
of a line that is taken away does not matter. -/
inductive Edit : List (List Char) → List (List Char) → (Nat → Nat) → Prop
  /-- A line with nothing on it is added. -/
  | insert (above below : List (List Char)) {cs : List Char} (vacant : Text.Vacant cs) :
      Edit (above ++ below) (above ++ cs :: below) fun n => if n ≤ above.length then n else n + 1
  /-- A line with nothing on it is taken away. -/
  | delete (above below : List (List Char)) {cs : List Char} (vacant : Text.Vacant cs) :
      Edit (above ++ cs :: below) (above ++ below) fun n => if n ≤ above.length then n else n - 1
  /-- A line is changed, or a change of it is taken back. -/
  | change (above below : List (List Char)) {cs cs' : List Char}
      (edit : LineEdit cs cs' ∨ LineEdit cs' cs) :
      Edit (above ++ cs :: below) (above ++ cs' :: below) id

/-- Any number of edits, one after the other, with the new number of each line. -/
inductive Edits : String → String → (Nat → Nat) → Prop
  | none (source : String) : Edits source source id
  | next {source mid target : String} {f g : Nat → Nat} (before : Edits source mid f)
      (edit : Edit (rawLines mid) (rawLines target) g) : Edits source target (g ∘ f)

/-- Two lines that read alike, the second with the new number of the first. -/
structure Corresponding (f : Nat → Nat) (line line' : Text.Line) : Prop where
  number : line'.number = f line.number
  reads : Entry.ReadsAlike line.text line'.text

namespace Corresponding

variable {lines lines' lines'' : List Text.Line}

theorem of_text {line line' : Text.Line} (number : line'.number = f line.number)
    (text : line'.text = line.text) : Corresponding f line line' := by
  refine ⟨number, ?_⟩
  rw [text]
  exact .refl .same _

theorem self (stays : ∀ line ∈ lines, f line.number = line.number) :
    List.Forall₂ (Corresponding f) lines lines :=
  List.forall₂_same.mpr fun line mem => .of_text (stays line mem).symm rfl

/-- The significant ones of some lines, at two places of a source. -/
theorem moved {n j k : Nat} {pieces : List (List Char)}
    (moves : ∀ line ∈ Text.numbered n pieces, f (line.number + j) = line.number + k) :
    List.Forall₂ (Corresponding f) (Text.numbered (n + j) pieces)
      (Text.numbered (n + k) pieces) := by
  rw [Text.numbered_add, Text.numbered_add, List.forall₂_map_left_iff, List.forall₂_map_right_iff]
  exact List.forall₂_same.mpr fun line mem => .of_text (moves line mem).symm rfl

theorem trans (h : List.Forall₂ (Corresponding f) lines lines')
    (h' : List.Forall₂ (Corresponding g) lines' lines'') :
    List.Forall₂ (Corresponding (g ∘ f)) lines lines'' := by
  induction h generalizing lines'' with
  | nil =>
    cases h'
    exact .nil
  | cons first rest ih =>
    cases h' with
    | cons first' rest' =>
      refine .cons ⟨?_, ?_⟩ (ih rest')
      · rw [first'.number, first.number]
        rfl
      · exact first.reads.trans (fun _ _ _ => AssemblyFault.Alike.trans) first'.reads

end Corresponding

theorem Edit.corresponding {pieces pieces' : List (List Char)} (edit : Edit pieces pieces' f) :
    List.Forall₂ (Corresponding f) (Text.numbered 0 pieces) (Text.numbered 0 pieces') := by
  cases edit with
  | insert above below vacant =>
    rw [Text.numbered_append, Text.numbered_append, Nat.zero_add,
      Text.numbered_cons_of_blank vacant.significant_eq]
    refine List.rel_append (Corresponding.self fun line mem => ?_)
      (Corresponding.moved (j := 0) (k := 1) fun line mem => ?_)
    · have last := Text.number_le_of_mem_numbered mem
      exact if_pos (by omega)
    · have first := Text.lt_number_of_mem_numbered mem
      exact if_neg (by omega)
  | delete above below vacant =>
    rw [Text.numbered_append, Text.numbered_append, Nat.zero_add,
      Text.numbered_cons_of_blank vacant.significant_eq]
    refine List.rel_append (Corresponding.self fun line mem => ?_)
      (Corresponding.moved (j := 1) (k := 0) fun line mem => ?_)
    · have last := Text.number_le_of_mem_numbered mem
      exact if_pos (by omega)
    · have first := Text.lt_number_of_mem_numbered mem
      exact if_neg (by omega)
  | @change above below cs cs' edit =>
    have alike : LinesAlike cs cs' := edit.elim LineEdit.alike fun back => back.alike.symm
    rw [Text.numbered_append, Text.numbered_append, Nat.zero_add]
    have unchanged (lines : List Text.Line) : List.Forall₂ (Corresponding id) lines lines :=
      Corresponding.self fun _ _ => rfl
    refine List.rel_append (unchanged _) ?_
    by_cases empty : Text.significant cs = []
    · rw [Text.numbered_cons_of_blank empty,
        Text.numbered_cons_of_blank (alike.empty_iff.mp empty)]
      exact unchanged _
    · rw [Text.numbered_cons empty, Text.numbered_cons (mt alike.empty_iff.mpr empty)]
      exact .cons ⟨rfl, alike.reads⟩ (unchanged _)

theorem Edits.corresponding {source target : String} (edits : Edits source target f) :
    List.Forall₂ (Corresponding f) (Text.significantLines source.toList)
      (Text.significantLines target.toList) := by
  induction edits with
  | none => exact Corresponding.self fun _ _ => rfl
  | next before edit ih =>
    have last := edit.corresponding
    rw [rawLines, ← Text.significantLines_eq, rawLines, ← Text.significantLines_eq] at last
    exact Corresponding.trans ih last

/-! ### The first pass -/

def Placed.renumber (f : Nat → Nat) (p : Placed) : Placed :=
  { p with line := f p.line }

def Redeclaration.renumber (f : Nat → Nat) (r : Redeclaration) : Redeclaration :=
  { r with line := f r.line }

/-- Errors on corresponding lines, of the same kind. -/
structure AssemblyError.Matches (f : Nat → Nat) (e e' : AssemblyError) : Prop where
  line : e'.line = f e.line
  fault : e.fault.Alike e'.fault

/-- The layout of all lines, if there is one. -/
def Scan.complete (s : Scan) : Except AssemblyError Layout :=
  match s.error with
  | some e => .error e
  | none => .ok s.layout

namespace Layout

variable {l l' : Layout} {line line' : Text.Line} {lines lines' : List Text.Line}

def renumber (f : Nat → Nat) (l : Layout) : Layout :=
  { l with
    placed := l.placed.map (Placed.renumber f)
    redeclared := l.redeclared.map (Redeclaration.renumber f) }

theorem declare_renumber (l : Layout) (n : Nat) (name : String) :
    (l.renumber f).declare (f n) name = (l.declare n name).map (renumber f) := by
  simp only [declare, renumber]
  cases Word.ofInt l.length with
  | error _ => rfl
  | ok address =>
    cases l.labels.find? name with
    | none => rfl
    | some previous => rfl

theorem append_renumber (l : Layout) (n : Nat) (s : Statement) :
    (l.renumber f).append (f n) s = (l.append n s).map (renumber f) := by
  rw [append, append]
  by_cases past : Word.limit < (l.length + s.words : Nat) - 1
  · rw [if_pos past]
    exact if_pos past
  · rw [if_neg past]
    exact if_neg past

theorem place_related (h : Corresponding f line line') (l : Layout) :
    Related AssemblyFault.Alike (fun m m' => m' = m.renumber f) (l.place line)
      ((l.renumber f).place line') := by
  have reads : Related AssemblyFault.Alike Eq (Entry.parse line.text) (Entry.parse line'.text) :=
    h.reads
  rw [place, place, h.number]
  generalize Entry.parse line.text = entry at reads
  generalize Entry.parse line'.text = entry' at reads
  cases reads with
  | error alike => exact .error alike
  | @ok entry _ same =>
    subst same
    cases entry with
    | label name =>
      dsimp only
      rw [declare_renumber]
      exact .of_map .same _ _
    | statement s =>
      dsimp only
      rw [append_renumber]
      exact .of_map .same _ _

theorem scan_related (h : List.Forall₂ (Corresponding f) lines lines') (l : Layout) :
    Related (AssemblyError.Matches f) (fun m m' => m' = m.renumber f) (l.scan lines).complete
      ((l.renumber f).scan lines').complete := by
  induction h generalizing l with
  | nil => exact .ok rfl
  | @cons line line' lines lines' first rest ih =>
    have placed := place_related first l
    rw [scan, scan]
    generalize l.place line = result at placed
    generalize (l.renumber f).place line' = result' at placed
    cases placed with
    | error alike => exact .error ⟨first.number, alike⟩
    | @ok m _ same =>
      subst same
      exact ih m

end Layout

/-! ### The second pass -/

namespace Emission

variable {labels : Table String Word}

def renumber (f : Nat → Nat) (e : Emission) : Emission :=
  { e with sourceLines := e.sourceLines.map fun (a, n) => (a, f n) }

theorem emit_renumber (e : Emission) (p : Placed) :
    (e.renumber f).emit labels (p.renumber f) = (e.emit labels p).map (renumber f) := by
  simp only [emit, renumber, Placed.renumber]
  cases p.statement.resolve labels with
  | error fault => rfl
  | ok i =>
    simp only [bind, Except.bind]
    cases i.encode.mapError AssemblyFault.encode with
    | error fault => rfl
    | ok encoding =>
      dsimp only
      cases storeWords e.memory p.address encoding.words with
      | error fault => rfl
      | ok memory => rfl

theorem emitAll_renumber (e : Emission) (ps : List Placed) :
    Related (AssemblyError.Matches f) (fun e e' => e' = e.renumber f) (e.emitAll labels ps)
      ((e.renumber f).emitAll labels (ps.map (Placed.renumber f))) := by
  induction ps generalizing e with
  | nil => exact .ok rfl
  | cons p ps ih =>
    rw [List.map_cons, emitAll, emitAll, emit_renumber]
    cases e.emit labels p with
    | error fault => exact .error ⟨rfl, .same fault⟩
    | ok e => exact ih e

end Emission

/-! ### Programs -/

/-- Two programs that differ only in the numbers of their lines. -/
structure Program.SameButLines (f : Nat → Nat) (p p' : Program) : Prop where
  memory : p'.memory = p.memory
  instructions : p'.info.instructions = p.info.instructions
  labels : p'.info.labels = p.info.labels
  length : p'.info.length = p.info.length
  sourceLines : p'.info.sourceLines = p.info.sourceLines.map fun (a, n) => (a, f n)
  warnings : ∃ rs : List Redeclaration, p.info.warnings = rs.map Redeclaration.message ∧
    p'.info.warnings = (rs.map (Redeclaration.renumber f)).map Redeclaration.message

theorem Layout.toProgram_renumber (l : Layout) :
    Related (AssemblyError.Matches f) (Program.SameButLines f) l.toProgram
      (l.renumber f).toProgram := by
  have emitted : Related (AssemblyError.Matches f) (fun e e' => e' = e.renumber f)
      (Emission.empty.emitAll l.labels l.placed.reverse)
      (Emission.empty.emitAll (l.renumber f).labels (l.renumber f).placed.reverse) := by
    have same : (l.renumber f).placed.reverse = l.placed.reverse.map (Placed.renumber f) :=
      List.map_reverse.symm
    rw [same]
    exact Emission.emitAll_renumber .empty l.placed.reverse
  rw [toProgram, toProgram]
  generalize Emission.empty.emitAll l.labels l.placed.reverse = result at emitted
  generalize Emission.empty.emitAll (l.renumber f).labels (l.renumber f).placed.reverse = result'
    at emitted
  cases emitted with
  | error same => exact .error same
  | @ok e _ same =>
    subst same
    exact .ok ⟨rfl, rfl, rfl, rfl, List.map_reverse.symm, l.redeclared.reverse, rfl,
      congrArg (List.map Redeclaration.message) List.map_reverse.symm⟩

theorem Scan.toProgram_eq (s : Scan) : s.toProgram = s.complete >>= Layout.toProgram := by
  rw [toProgram, complete]
  cases s.error with
  | none => rfl
  | some e => rfl

/-- **Layout**: edits of a source change nothing of its program but the numbers of the lines, and
nothing of its error but the number of the line and the letters of an unknown mnemonic. -/
theorem edits_keep_program {source target : String} (edits : Edits source target f) :
    Related (AssemblyError.Matches f) (Program.SameButLines f) (assemble source)
      (assemble target) := by
  have scanned : Related (AssemblyError.Matches f) (fun l l' => l' = l.renumber f)
      (Layout.ofSource source.toList).complete (Layout.ofSource target.toList).complete :=
    Layout.scan_related edits.corresponding .empty
  rw [assemble, assemble, Scan.toProgram_eq, Scan.toProgram_eq]
  generalize (Layout.ofSource source.toList).complete = result at scanned
  generalize (Layout.ofSource target.toList).complete = result' at scanned
  cases scanned with
  | error same => exact .error same
  | @ok l _ same =>
    subst same
    exact Layout.toProgram_renumber l

/-- A sum in capitals, with a blank after its comma and a comment above it. -/
theorem edits_keep_program_sum :
    ∃ f, Edits "add r0,r1" "; sum\nADD r0, r1" f ∧ f 1 = 2 ∧
      Related (AssemblyError.Matches f) (Program.SameButLines f) (assemble "add r0,r1")
        (assemble "; sum\nADD r0, r1") := by
  have small : Mnemonic.Heads ['a', 'd', 'd'] := .of_plain (.of_isPlain (by decide))
  have capital : Mnemonic.Heads ['A', 'D', 'D'] := .of_plain (.of_isPlain (by decide))
  have letters : LineEdit ([] ++ (['a', 'd', 'd'] ++ [' ', 'r', '0', ',', 'r', '1']))
      ([] ++ (['A', 'D', 'D'] ++ [' ', 'r', '0', ',', 'r', '1'])) := by
    refine .mnemonic (by simp) small (by decide) ?_
    rintro c ⟨⟩
    exact .inl (by decide)
  have blank :
      LineEdit ([] ++ (['A', 'D', 'D'] ++ ' ' :: ((['r', '0'] ++ ',' :: ['r', '1']) ++ [])))
        ([] ++ (['A', 'D', 'D'] ++ ' ' :: ((['r', '0'] ++ ',' :: ' ' :: ['r', '1']) ++ []))) :=
    .operands (by simp) capital (by decide) (by decide) (.after_comma _ _ (by decide)) (by simp)
  have comment : Text.Vacant [';', ' ', 's', 'u', 'm'] :=
    ⟨[], _, rfl, by simp, by simp⟩
  have in_capitals : Edits "add r0,r1" "ADD r0,r1" _ :=
    (Edits.none _).next (.change [] [] (.inl letters))
  have spaced : Edits "add r0,r1" "ADD r0, r1" _ := in_capitals.next (.change [] [] (.inl blank))
  have edits : Edits "add r0,r1" "; sum\nADD r0, r1" _ := spaced.next (.insert [] _ comment)
  exact ⟨_, edits, rfl, edits_keep_program edits⟩

end TernaryMachine
