import TernaryMachine.Proofs.Reading
/-! # The grammar of statements

Which texts are statements, and what they say, without the functions that read them.

* **Words.**  The name of a label is one or more ASCII letters, digits, `_` and `-` (`LabelName`).
  An operand is the name of a register, nine sign characters or a label behind a point
  (`Operand.Written`).  Capital and small letters are the same in mnemonics and in names of
  registers, and different in labels.
* **Mnemonics.**  There is one for each opcode, and `LOD` and `STA` beside them
  (`Mnemonic.Names`).
* **Operands.**  `Statement.Takes` says which operands go with an opcode, and
  `Statement.WrittenOperands` what a statement gets from them.

Every reader has one lemma that says what it reads (`Operand.parse_eq_ok_iff`,
`Mnemonic.parse?_eq_some_iff`, `Statement.parse_eq_ok_iff`), and `Statement.keeps_grammar` puts
them together with the errors of the lines that are none. -/

namespace TernaryMachine

/-! ### Words -/

/-- A character that may stand in the name of a label. -/
def LabelChar (c : Char) : Prop :=
  'A' ≤ c ∧ c ≤ 'Z' ∨ 'a' ≤ c ∧ c ≤ 'z' ∨ '0' ≤ c ∧ c ≤ '9' ∨ c = '_' ∨ c = '-'

def LabelName (name : List Char) : Prop :=
  name ≠ [] ∧ ∀ c ∈ name, LabelChar c

theorem isLabelChar_iff {c : Char} : isLabelChar c = true ↔ LabelChar c := by
  have ranges : c.isAlphanum = (decide ('A' ≤ c ∧ c ≤ 'Z') ||
      decide ('a' ≤ c) && decide (c ≤ 'z') || decide ('0' ≤ c) && decide (c ≤ '9')) := rfl
  simp only [isLabelChar, LabelChar, ranges, Bool.or_eq_true, Bool.and_eq_true, decide_eq_true_eq,
    beq_iff_eq, or_assoc]

theorem namesLabel_iff {name : List Char} : namesLabel name = true ↔ LabelName name := by
  simp only [namesLabel, LabelName, Bool.and_eq_true, Bool.not_eq_true', List.isEmpty_eq_false_iff,
    List.all_eq_true, isLabelChar_iff]

namespace Register

/-- Whether a text is the name of a register, in capital or small letters. -/
def Named (r : Register) (token : List Char) : Prop :=
  token.map Char.toLower = r.name.toList

theorem parse?_eq_some_iff {token : List Char} {r : Register} :
    parse? token = some r ↔ r.Named token := by
  constructor
  · intro h
    have same := List.find?_some h
    exact (beq_iff_eq.mp same).symm
  · intro h
    rw [parse?, h]
    cases r <;> rfl

theorem not_named_point {r : Register} {rest : List Char} : ¬ r.Named ('.' :: rest) := by
  intro named
  cases r <;> cases named

end Register

namespace Operand

variable {token name : List Char} {o : Operand} {position : Nat}

/-- How an operand is written. -/
inductive Written : List Char → Operand → Prop
  | register {token : List Char} {r : Register} (named : r.Named token) :
      Written token (.register r)
  | immediate {token : List Char} {w : Word} (digits : w.text.toList = token) :
      Written token (.immediate w)
  | label {name : List Char} (proper : LabelName name) :
      Written ('.' :: name) (.label (String.ofList name))

theorem not_written_nil : ¬ Written [] o := by
  intro written
  cases written with
  | register named =>
    have length := congrArg List.length named
    rw [Register.length_name] at length
    cases length
  | immediate digits =>
    have length := congrArg List.length digits
    rw [Word.length_text] at length
    cases length

theorem parse_of_written (h : Written token o) : Operand.parse position token = .ok o := by
  cases h with
  | register named =>
    have no_point : token.head? ≠ some '.' := by
      intro point
      obtain ⟨rest, rfl⟩ := List.head?_eq_some_iff.mp point
      exact Register.not_named_point named
    rw [parse_of_head no_point, Register.parse?_eq_some_iff.mpr named]
  | immediate digits =>
    rw [← digits]
    exact parse_immediate _ position
  | label proper => exact parse_point_eq_ok_iff.mpr ⟨namesLabel_iff.mpr proper, rfl⟩

theorem written_of_parse (h : Operand.parse position token = .ok o) : Written token o := by
  by_cases point : token.head? = some '.'
  · obtain ⟨name, rfl⟩ := List.head?_eq_some_iff.mp point
    obtain ⟨proper, rfl⟩ := parse_point_eq_ok_iff.mp h
    exact .label (namesLabel_iff.mp proper)
  · rw [parse_of_head point] at h
    split at h
    · next register =>
      cases h
      exact .register (Register.parse?_eq_some_iff.mp register)
    · split at h
      · next immediate =>
        cases h
        refine .immediate ?_
        rw [← Word.parse_eq_ok_iff.mp immediate, String.toList_ofList]
      · cases h

/-- An operand is read from the texts that it is written as. -/
theorem parse_eq_ok_iff : Operand.parse position token = .ok o ↔ Written token o :=
  ⟨written_of_parse, parse_of_written⟩

/-- A text with a point in front can only be a label. -/
theorem written_point_iff :
    Written ('.' :: name) o ↔ LabelName name ∧ o = .label (String.ofList name) := by
  have read : Operand.parse 1 ('.' :: name) = .ok o ↔ Written ('.' :: name) o := parse_eq_ok_iff
  rw [← read, parse_point_eq_ok_iff, namesLabel_iff]

theorem written_register_iff {r : Register} : Written token (.register r) ↔ r.Named token := by
  constructor
  · intro written
    cases written with
    | register named => exact named
  · exact .register

theorem exists_written_iff {labels : Prop} :
    (∃ o, Written token o ∧ (o.isLabel = true → labels)) ↔
      (∃ r : Register, r.Named token) ∨ Word.IsLiteral token ∨
        labels ∧ ∃ name, token = '.' :: name ∧ LabelName name := by
  rw [Word.isLiteral_iff]
  constructor
  · rintro ⟨o, written, label⟩
    cases written with
    | register named => exact .inl ⟨_, named⟩
    | immediate digits => exact .inr (.inl ⟨_, digits⟩)
    | label proper => exact .inr (.inr ⟨label rfl, _, rfl, proper⟩)
  · rintro (⟨r, named⟩ | ⟨w, digits⟩ | ⟨allowed, name, rfl, proper⟩)
    · exact ⟨_, .register named, nofun⟩
    · exact ⟨_, .immediate digits, nofun⟩
    · exact ⟨_, .label proper, fun _ => allowed⟩

end Operand

/-! ### Mnemonics -/

namespace Mnemonic

/-- The mnemonics in capital letters, with what they stand for. -/
inductive Names : String → Opcode → Direction → Prop
  | opcode (opcode : Opcode) : Names opcode.mnemonic opcode .load
  | lod : Names "LOD" .lod .load
  | sta : Names "STA" .lod .store

theorem names_of_ofCapitals? {name : String} {m : Mnemonic} (h : ofCapitals? name = some m) :
    Names name m.opcode m.direction ∧ m.signature = signatureOf m.opcode := by
  unfold ofCapitals? at h
  split at h
  · next lod =>
    cases h
    rw [lod]
    exact ⟨.lod, rfl⟩
  · split at h
    · next sta =>
      cases h
      rw [sta]
      exact ⟨.sta, rfl⟩
    · obtain ⟨opcode, found, rfl⟩ := Option.map_eq_some_iff.mp h
      have same := List.find?_some found
      rw [← beq_iff_eq.mp same]
      exact ⟨.opcode opcode, rfl⟩

theorem ofCapitals?_of_names {name : String} {opcode : Opcode} {direction : Direction}
    (h : Names name opcode direction) :
    ofCapitals? name = some ⟨opcode, direction, signatureOf opcode⟩ := by
  cases h with
  | opcode => cases opcode <;> decide
  | lod => decide
  | sta => decide

theorem parse?_of_names {name : List Char} {opcode : Opcode} {direction : Direction}
    (h : Names (capitals name) opcode direction) :
    parse? name = some ⟨opcode, direction, signatureOf opcode⟩ :=
  ofCapitals?_of_names h

theorem parse?_eq_some_iff {name : List Char} {m : Mnemonic} :
    parse? name = some m ↔
      Names (capitals name) m.opcode m.direction ∧ m.signature = signatureOf m.opcode := by
  constructor
  · exact names_of_ofCapitals?
  · rintro ⟨names, signature⟩
    rw [parse?_of_names names, ← signature]

theorem parse?_eq_none_iff {name : List Char} :
    parse? name = none ↔ ∀ opcode direction, ¬ Names (capitals name) opcode direction := by
  rw [Option.eq_none_iff_forall_ne_some]
  constructor
  · intro none opcode direction names
    exact none _ (parse?_of_names names)
  · intro none m found
    exact none _ _ (parse?_eq_some_iff.mp found).1

theorem Names.unique {name : String} {opcode opcode' : Opcode} {direction direction' : Direction}
    (h : Names name opcode direction) (h' : Names name opcode' direction') :
    opcode = opcode' ∧ direction = direction' := by
  have same := (ofCapitals?_of_names h).symm.trans (ofCapitals?_of_names h')
  simp only [Option.some.injEq, Mnemonic.mk.injEq] at same
  exact ⟨same.1, same.2.1⟩

theorem signatureOf_eq_value_iff (opcode : Opcode) :
    signatureOf opcode = .value ↔
      opcode ≠ .nop ∧ ¬ opcode.isControlFlow = true ∧ opcode ≠ .lod := by
  cases opcode <;> decide

theorem signatureOf_eq_address_iff (opcode : Opcode) :
    signatureOf opcode = .address ↔ opcode = .lod := by
  cases opcode <;> decide

theorem Names.store_iff {name : String} {opcode : Opcode} {direction : Direction}
    (h : Names name opcode direction) : direction = .store ↔ name = "STA" := by
  cases h with
  | opcode => cases opcode <;> decide
  | lod => decide
  | sta => decide

end Mnemonic

/-! ### Statements -/

namespace Statement

variable {cs operands : List Char} {s : Statement} {opcode : Opcode} {x : Register} {o : Operand}

/-- What a statement gets from its operands: the text may have blanks around a comma, but none at
its ends. -/
inductive WrittenOperands : Opcode → List Char → Register → Operand → Prop
  | none : WrittenOperands .nop [] .r0 (.register .r0)
  | target {opcode : Opcode} {operands : List Char} {o : Operand}
      (jumps : opcode.isControlFlow = true) (one : ',' ∉ operands)
      (written : Operand.Written operands o) : WrittenOperands opcode operands .r0 o
  | pair {opcode : Opcode} {as bs : List Char} {x : Register} {o : Operand}
      (used : opcode ≠ .nop) (stays : ¬ opcode.isControlFlow = true) (first : ',' ∉ as)
      (second : ',' ∉ bs) (register : Operand.Written (Text.trim as) (.register x))
      (written : Operand.Written (Text.trim bs) o) (address : o.isLabel = true → opcode = .lod) :
      WrittenOperands opcode (as ++ ',' :: bs) x o

/-- Which operands an opcode takes. -/
def Takes (opcode : Opcode) (operands : List Char) : Prop :=
  opcode = .nop ∧ operands = [] ∨
    opcode.isControlFlow = true ∧ operands ≠ [] ∧ ',' ∉ operands ∧
      ((∃ r : Register, r.Named operands) ∨ Word.IsLiteral operands ∨
        ∃ name, operands = '.' :: name ∧ LabelName name) ∨
    (opcode ≠ .nop ∧ ¬ opcode.isControlFlow = true) ∧
      ∃ as bs, operands = as ++ ',' :: bs ∧ ',' ∉ as ∧ ',' ∉ bs ∧
        (∃ r : Register, r.Named (Text.trim as)) ∧
        ((∃ r : Register, r.Named (Text.trim bs)) ∨ Word.IsLiteral (Text.trim bs) ∨
          opcode = .lod ∧ ∃ name, Text.trim bs = '.' :: name ∧ LabelName name)

theorem exists_writtenOperands_iff :
    (∃ x o, WrittenOperands opcode operands x o) ↔ Takes opcode operands := by
  constructor
  · rintro ⟨x, o, written⟩
    cases written with
    | none => exact .inl ⟨rfl, rfl⟩
    | target jumps one written =>
      have some_text : operands ≠ [] := by
        rintro rfl
        exact Operand.not_written_nil written
      have kinds := Operand.exists_written_iff.mp ⟨o, written, fun _ => trivial⟩
      rw [true_and] at kinds
      exact .inr (.inl ⟨jumps, some_text, one, kinds⟩)
    | pair used stays first second register written address =>
      exact .inr (.inr ⟨⟨used, stays⟩, _, _, rfl, first, second,
        ⟨x, Operand.written_register_iff.mp register⟩,
        Operand.exists_written_iff.mp ⟨o, written, address⟩⟩)
  · rintro (⟨rfl, rfl⟩ | ⟨jumps, -, one, kinds⟩ |
      ⟨⟨used, stays⟩, as, bs, rfl, first, second, ⟨x, named⟩, kinds⟩)
    · exact ⟨_, _, .none⟩
    · rw [← true_and (∃ name, operands = '.' :: name ∧ LabelName name)] at kinds
      obtain ⟨o, written, -⟩ := Operand.exists_written_iff.mpr kinds
      exact ⟨_, o, .target jumps one written⟩
    · obtain ⟨o, written, address⟩ := Operand.exists_written_iff.mpr kinds
      exact ⟨x, o, .pair used stays first second (.register named) written address⟩

/-! ### Reading operands -/

theorem tokens_eq_nil_iff : tokens operands = [] ↔ operands = [] := by
  cases operands with
  | nil => simp [tokens]
  | cons c cs =>
    rw [tokens_of_ne_nil (List.cons_ne_nil c cs), List.map_eq_nil_iff]
    exact iff_of_false (Text.split_ne_nil ',' _) (List.cons_ne_nil c cs)

theorem tokens_eq_singleton_iff {token : List Char} :
    tokens operands = [token] ↔ operands ≠ [] ∧ ',' ∉ operands ∧ token = Text.trim operands := by
  by_cases none : operands = []
  · simp [none, tokens]
  · rw [tokens_of_ne_nil none, List.map_eq_singleton_iff]
    constructor
    · rintro ⟨piece, one, rfl⟩
      obtain ⟨no_comma, rfl⟩ := Text.split_eq_singleton_iff.mp one
      exact ⟨none, no_comma, rfl⟩
    · rintro ⟨-, no_comma, rfl⟩
      exact ⟨operands, Text.split_of_not_mem no_comma, rfl⟩

theorem tokens_eq_pair_iff {a b : List Char} :
    tokens operands = [a, b] ↔
      ∃ as bs, operands = as ++ ',' :: bs ∧ ',' ∉ as ∧ ',' ∉ bs ∧
        a = Text.trim as ∧ b = Text.trim bs := by
  by_cases none : operands = []
  · simp [none, tokens]
  · rw [tokens_of_ne_nil none]
    constructor
    · intro two
      obtain ⟨as, rest, pieces, rfl, last⟩ := List.map_eq_cons_iff.mp two
      obtain ⟨bs, rfl, rfl⟩ := List.map_eq_singleton_iff.mp last
      obtain ⟨whole, first, second⟩ := Text.split_eq_pair_iff.mp pieces
      exact ⟨as, bs, whole, first, second, rfl, rfl⟩
    · rintro ⟨as, bs, whole, first, second, rfl, rfl⟩
      rw [Text.split_eq_pair_iff.mpr ⟨whole, first, second⟩]
      rfl

theorem ofPair_eq_ok_iff {m : Mnemonic} {first second : Operand} :
    ofPair m first second = .ok s ↔
      ∃ x, first = .register x ∧ (second.isLabel = true → m.signature ≠ .value) ∧
        s = ⟨m.opcode, m.direction, x, second⟩ := by
  cases first with
  | immediate w => simp [ofPair]
  | label name => simp [ofPair]
  | register x =>
    obtain ⟨opcode, direction, signature⟩ := m
    cases second <;> cases signature <;> simp [ofPair, Operand.isLabel, eq_comm]

theorem readPair_eq_ok_iff {m : Mnemonic} {a b : List Char} :
    (do
      let first ← Operand.parse 1 a
      let second ← Operand.parse 2 b
      ofPair m first second) = .ok s ↔
      ∃ x o, Operand.Written a (.register x) ∧ Operand.Written b o ∧
        (o.isLabel = true → m.signature ≠ .value) ∧ s = ⟨m.opcode, m.direction, x, o⟩ := by
  simp only [bind_eq_ok_iff, Operand.parse_eq_ok_iff, ofPair_eq_ok_iff]
  constructor
  · rintro ⟨_, register, o, written, x, rfl, label, rfl⟩
    exact ⟨x, o, register, written, label, rfl⟩
  · rintro ⟨x, o, register, written, label, rfl⟩
    exact ⟨_, register, o, written, x, rfl, label, rfl⟩

theorem writtenOperands_of_parse {name : List Char} {m : Mnemonic}
    (signature : m.signature = Mnemonic.signatureOf m.opcode)
    (trimmed : Text.trim operands = operands)
    (h : parseOperands name m (tokens operands) = .ok s) :
    s.opcode = m.opcode ∧ s.direction = m.direction ∧
      WrittenOperands m.opcode operands s.x s.operand := by
  obtain ⟨is_empty, is_target⟩ := Mnemonic.signatureOf_cases m.opcode
  have is_value := Mnemonic.signatureOf_eq_value_iff m.opcode
  have is_address := Mnemonic.signatureOf_eq_address_iff m.opcode
  rw [← signature] at is_empty is_target is_value is_address
  unfold parseOperands at h
  split at h
  · next empty none =>
    cases h
    rw [is_empty.mp empty, tokens_eq_nil_iff.mp none]
    exact ⟨rfl, rfl, .none⟩
  · next token target one =>
    obtain ⟨o, read, h⟩ := bind_eq_ok_iff.mp h
    cases h
    obtain ⟨-, no_comma, rfl⟩ := tokens_eq_singleton_iff.mp one
    rw [trimmed, Operand.parse_eq_ok_iff] at read
    exact ⟨rfl, rfl, .target (is_target.mp target) no_comma read⟩
  · next a b value two =>
    obtain ⟨x, o, register, written, label, rfl⟩ := readPair_eq_ok_iff.mp h
    obtain ⟨as, bs, rfl, first, second, rfl, rfl⟩ := tokens_eq_pair_iff.mp two
    obtain ⟨used, stays, -⟩ := is_value.mp value
    exact ⟨rfl, rfl, .pair used stays first second register written
      fun is_label => absurd value (label is_label)⟩
  · next a b address two =>
    obtain ⟨x, o, register, written, -, rfl⟩ := readPair_eq_ok_iff.mp h
    obtain ⟨as, bs, rfl, first, second, rfl, rfl⟩ := tokens_eq_pair_iff.mp two
    have lod := is_address.mp address
    have used : m.opcode ≠ .nop := by
      rw [lod]
      decide
    have stays : ¬ m.opcode.isControlFlow = true := by
      rw [lod]
      decide
    exact ⟨rfl, rfl, .pair used stays first second register written fun _ => lod⟩
  · cases h

theorem parseOperands_of_written {name : List Char} {m : Mnemonic}
    (signature : m.signature = Mnemonic.signatureOf m.opcode)
    (trimmed : Text.trim operands = operands) (h : WrittenOperands m.opcode operands x o) :
    parseOperands name m (tokens operands) = .ok ⟨m.opcode, m.direction, x, o⟩ := by
  obtain ⟨opcode, direction, _⟩ := m
  dsimp only at signature h
  subst signature
  cases h with
  | none => rfl
  | target jumps one written =>
    have some_text : operands ≠ [] := by
      rintro rfl
      exact Operand.not_written_nil written
    rw [tokens_eq_singleton_iff.mpr ⟨some_text, one, rfl⟩, trimmed,
      (Mnemonic.signatureOf_cases opcode).2.mpr jumps]
    simp only [parseOperands, Operand.parse_eq_ok_iff.mpr written]
    rfl
  | @pair _ as bs _ _ used stays first second register written address =>
    rw [tokens_eq_pair_iff.mpr ⟨as, bs, rfl, first, second, rfl, rfl⟩,
      Mnemonic.signatureOf_eq opcode used, if_neg stays]
    split
    · have not_value : Signature.address ≠ .value := by decide
      simp only [parseOperands]
      exact readPair_eq_ok_iff.mpr ⟨x, o, register, written, fun _ => not_value, rfl⟩
    · next other =>
      simp only [parseOperands]
      exact readPair_eq_ok_iff.mpr
        ⟨x, o, register, written, fun label => absurd (address label) other, rfl⟩

/-! ### Reading statements -/

theorem parse_of_none (h : Mnemonic.parse? (mnemonicPart cs) = none) :
    parse cs = .error (.unknownMnemonic (String.ofList (mnemonicPart cs))) := by
  rw [parse, h]

theorem parse_of_some {m : Mnemonic} (h : Mnemonic.parse? (mnemonicPart cs) = some m) :
    parse cs =
      (parseOperands (mnemonicPart cs) m (tokens (operandPart cs))).mapError .argument := by
  rw [parse, h]

theorem trim_operandPart (cs : List Char) : Text.trim (operandPart cs) = operandPart cs :=
  Text.trim_trim _

/-- A statement is read from a mnemonic and the operands that go with it. -/
theorem parse_eq_ok_iff :
    parse cs = .ok s ↔
      Mnemonic.Names (Mnemonic.capitals (mnemonicPart cs)) s.opcode s.direction ∧
        WrittenOperands s.opcode (operandPart cs) s.x s.operand := by
  constructor
  · intro h
    cases found : Mnemonic.parse? (mnemonicPart cs) with
    | none =>
      rw [parse_of_none found] at h
      cases h
    | some m =>
      rw [parse_of_some found, mapError_eq_ok_iff] at h
      obtain ⟨names, signature⟩ := Mnemonic.parse?_eq_some_iff.mp found
      obtain ⟨opcode, direction, written⟩ :=
        writtenOperands_of_parse signature (trim_operandPart cs) h
      rw [opcode, direction]
      exact ⟨names, written⟩
  · rintro ⟨names, written⟩
    rw [parse_of_some (Mnemonic.parse?_of_names names), mapError_eq_ok_iff]
    exact parseOperands_of_written rfl (trim_operandPart cs) written

theorem exists_parse_iff :
    (∃ s, parse cs = .ok s) ↔
      ∃ opcode direction, Mnemonic.Names (Mnemonic.capitals (mnemonicPart cs)) opcode direction ∧
        Takes opcode (operandPart cs) := by
  constructor
  · rintro ⟨s, h⟩
    obtain ⟨names, written⟩ := parse_eq_ok_iff.mp h
    exact ⟨_, _, names, exists_writtenOperands_iff.mp ⟨_, _, written⟩⟩
  · rintro ⟨opcode, direction, names, takes⟩
    obtain ⟨x, o, written⟩ := exists_writtenOperands_iff.mpr takes
    exact ⟨⟨opcode, direction, x, o⟩, parse_eq_ok_iff.mpr ⟨names, written⟩⟩

/-- Without a mnemonic the error is that there is none, and otherwise it is in the operands. -/
theorem parse_eq_error_cases {fault : AssemblyFault} (h : parse cs = .error fault) :
    Mnemonic.parse? (mnemonicPart cs) = none ∧
        fault = .unknownMnemonic (String.ofList (mnemonicPart cs)) ∨
      (∃ m, Mnemonic.parse? (mnemonicPart cs) = some m) ∧ ∃ detail, fault = .argument detail := by
  cases found : Mnemonic.parse? (mnemonicPart cs) with
  | none =>
    rw [parse_of_none found] at h
    cases h
    exact .inl ⟨rfl, rfl⟩
  | some m =>
    rw [parse_of_some found] at h
    cases operands : parseOperands (mnemonicPart cs) m (tokens (operandPart cs)) with
    | ok s =>
      rw [operands] at h
      cases h
    | error detail =>
      rw [operands] at h
      cases h
      exact .inr ⟨⟨m, rfl⟩, detail, rfl⟩

/-! ### Statements on lines -/

/-- The statement on a line, or an error that names the line. -/
def onLine (line : Text.Line) : Except AssemblyError Statement :=
  (parse line.text).mapError (AssemblyError.mk line.number)

/-- How the text of a line decides what is read from it.  The mnemonic and the operands are its
parts before and after the first blank. -/
structure KeepsGrammar (line : Text.Line) : Prop where
  parts : ∃ rest, line.text = mnemonicPart line.text ++ rest ∧
    (∀ c ∈ mnemonicPart line.text, Text.isBlank c = false) ∧
    (∀ c ∈ rest.head?, Text.isBlank c = true) ∧ operandPart line.text = Text.trim rest
  unknown : ∀ name, onLine line = .error ⟨line.number, .unknownMnemonic name⟩ ↔
    name = String.ofList (mnemonicPart line.text) ∧ ∀ opcode direction,
      ¬ Mnemonic.Names (Mnemonic.capitals (mnemonicPart line.text)) opcode direction
  accepted : (∃ s, onLine line = .ok s) ↔
    ∃ opcode direction,
      Mnemonic.Names (Mnemonic.capitals (mnemonicPart line.text)) opcode direction ∧
        Takes opcode (operandPart line.text)
  refused : (∃ fault, onLine line = .error ⟨line.number, .argument fault⟩) ↔
    ∃ opcode direction,
      Mnemonic.Names (Mnemonic.capitals (mnemonicPart line.text)) opcode direction ∧
        ¬ Takes opcode (operandPart line.text)
  /-- A statement is what is written on its line. -/
  written : ∀ s, onLine line = .ok s →
    Mnemonic.Names (Mnemonic.capitals (mnemonicPart line.text)) s.opcode s.direction ∧
      (s.direction = .store ↔ Mnemonic.capitals (mnemonicPart line.text) = "STA") ∧
      WrittenOperands s.opcode (operandPart line.text) s.x s.operand
  /-- The first pass stops at a line that is neither a statement nor a label, with its error. -/
  stops : ∀ e, line.text.head? ≠ some '.' → onLine line = .error e →
    ∀ (l : Layout) (lines : List Text.Line), l.scan (line :: lines) = ⟨l, some e⟩

variable {line : Text.Line} {fault : AssemblyFault}

theorem onLine_eq_ok_iff : onLine line = .ok s ↔ parse line.text = .ok s :=
  mapError_eq_ok_iff

theorem onLine_eq_error_iff {e : AssemblyError} :
    onLine line = .error e ↔
      ∃ fault, parse line.text = .error fault ∧ e = ⟨line.number, fault⟩ := by
  rw [onLine]
  cases parse line.text with
  | ok s => simp [Except.mapError]
  | error fault => simp [Except.mapError, eq_comm]

theorem mnemonicPart_append_rest (cs : List Char) :
    ∃ rest, cs = mnemonicPart cs ++ rest ∧ (∀ c ∈ mnemonicPart cs, Text.isBlank c = false) ∧
      (∀ c ∈ rest.head?, Text.isBlank c = true) ∧ operandPart cs = Text.trim rest := by
  refine ⟨cs.dropWhile fun c => !Text.isBlank c, ?_, fun c mem => ?_, fun c mem => ?_, rfl⟩
  · exact (List.takeWhile_append_dropWhile).symm
  · have := List.mem_takeWhile_imp mem
    simpa using this
  · have first := List.head?_dropWhile_not (fun c => !Text.isBlank c) cs
    rw [Option.mem_def] at mem
    rw [mem] at first
    simpa using first

theorem exists_argument_iff :
    (∃ detail, parse cs = .error (.argument detail)) ↔
      ∃ opcode direction, Mnemonic.Names (Mnemonic.capitals (mnemonicPart cs)) opcode direction ∧
        ¬ Takes opcode (operandPart cs) := by
  constructor
  · rintro ⟨detail, h⟩
    obtain ⟨-, other⟩ | ⟨⟨m, found⟩, -⟩ := parse_eq_error_cases h
    · cases other
    · have names := (Mnemonic.parse?_eq_some_iff.mp found).1
      refine ⟨_, _, names, fun takes => ?_⟩
      obtain ⟨s, accepted⟩ := exists_parse_iff.mpr ⟨_, _, names, takes⟩
      rw [h] at accepted
      cases accepted
  · rintro ⟨opcode, direction, names, refused⟩
    cases result : parse cs with
    | ok s =>
      obtain ⟨names', written⟩ := parse_eq_ok_iff.mp result
      rw [(names.unique names').1] at refused
      exact absurd (exists_writtenOperands_iff.mp ⟨_, _, written⟩) refused
    | error fault =>
      obtain ⟨none, -⟩ | ⟨-, detail, rfl⟩ := parse_eq_error_cases result
      · exact absurd names (Mnemonic.parse?_eq_none_iff.mp none opcode direction)
      · exact ⟨detail, rfl⟩

theorem parse_eq_unknown_iff {name : String} :
    parse cs = .error (.unknownMnemonic name) ↔
      name = String.ofList (mnemonicPart cs) ∧ ∀ opcode direction,
        ¬ Mnemonic.Names (Mnemonic.capitals (mnemonicPart cs)) opcode direction := by
  rw [← Mnemonic.parse?_eq_none_iff]
  constructor
  · intro h
    obtain ⟨none, same⟩ | ⟨-, detail, other⟩ := parse_eq_error_cases h
    · cases same
      exact ⟨rfl, none⟩
    · cases other
  · rintro ⟨rfl, none⟩
    exact parse_of_none none

/-- **Grammar**: a line is read as a statement exactly if it has a mnemonic and operands that go
with it, and then as the statement that is written there; the error of any other line says which of
the two it lacks, and names the line. -/
theorem keeps_grammar (line : Text.Line) : KeepsGrammar line where
  parts := mnemonicPart_append_rest line.text
  unknown name := by
    rw [← parse_eq_unknown_iff]
    simp [onLine_eq_error_iff]
  accepted := by
    rw [← exists_parse_iff]
    simp only [onLine_eq_ok_iff]
  refused := by
    rw [← exists_argument_iff]
    simp [onLine_eq_error_iff]
  written s h := by
    obtain ⟨names, written⟩ := parse_eq_ok_iff.mp (onLine_eq_ok_iff.mp h)
    exact ⟨names, names.store_iff, written⟩
  stops e no_point h l lines := by
    obtain ⟨fault, failed, rfl⟩ := onLine_eq_error_iff.mp h
    rw [Layout.scan, Layout.place, Entry.parse_of_head no_point, failed]
    rfl

/-- Behind a comma there is another operand, even if it is empty. -/
example : onLine ⟨3, "jmp R0,".toList⟩ = .error ⟨3, .argument (.count "JMP" 1 2)⟩ := by decide

end Statement

end TernaryMachine
