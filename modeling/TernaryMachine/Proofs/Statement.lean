import TernaryMachine.Assembly.Layout
import TernaryMachine.Proofs.Result
/-! # What is written on a line

`Statement.parse_cases` takes a statement back to its line: the mnemonic there, and for each form of
operands where its own come from.  A statement keeps the last operand of its line, and
`operand_eq_label_iff` says of the text of the line when that is a label. -/

namespace TernaryMachine

namespace Operand

def isLabel : Operand → Bool
  | label _ => true
  | register _ | immediate _ => false

variable {position : Nat} {token : List Char} {o : Operand}

theorem parse_point_eq_ok_iff {rest : List Char} :
    Operand.parse position ('.' :: rest) = .ok o ↔
      namesLabel rest = true ∧ o = .label (String.ofList rest) := by
  rw [Operand.parse]
  by_cases proper : namesLabel rest = true
  · simp [proper, eq_comm]
  · simp [proper]

theorem eq_point_of_parse {name : String} (h : Operand.parse position token = .ok (.label name)) :
    token = '.' :: name.toList := by
  unfold Operand.parse at h
  split at h
  · split at h
    · cases h
      rw [String.toList_ofList]
    · cases h
  · split at h
    · cases h
    · split at h
      · cases h
      · cases h

end Operand

namespace Statement

variable {cs : List Char} {s : Statement}

theorem ofPair_cases {m : Mnemonic} {first second : Operand} (h : ofPair m first second = .ok s) :
    s.opcode = m.opcode ∧ s.direction = m.direction ∧ s.operand = second := by
  unfold ofPair at h
  split at h
  · split at h
    · cases h
    · cases h
      exact ⟨rfl, rfl, rfl⟩
  · cases h

theorem readPair_cases {m : Mnemonic} {a b : List Char}
    (h : (do
      let first ← Operand.parse 1 a
      let second ← Operand.parse 2 b
      ofPair m first second) = .ok s) :
    s.opcode = m.opcode ∧ s.direction = m.direction ∧ Operand.parse 2 b = .ok s.operand := by
  obtain ⟨_, -, h⟩ := bind_eq_ok_iff.mp h
  obtain ⟨second, read, h⟩ := bind_eq_ok_iff.mp h
  obtain ⟨opcode, direction, rfl⟩ := ofPair_cases h
  exact ⟨opcode, direction, read⟩

/-- What a statement has of its mnemonic, and what of the operands on its line. -/
theorem parse_cases (h : parse cs = .ok s) :
    ∃ m, Mnemonic.parse? (mnemonicPart cs) = some m ∧ s.opcode = m.opcode ∧
      s.direction = m.direction ∧
      ((m.signature = .empty ∧ tokens (operandPart cs) = [] ∧ s.x = .r0 ∧
          s.operand = .register .r0) ∨
        (m.signature = .target ∧ s.x = .r0 ∧
          ∃ token, tokens (operandPart cs) = [token] ∧ Operand.parse 1 token = .ok s.operand) ∨
        ((m.signature = .value ∨ m.signature = .address) ∧
          ∃ a b, tokens (operandPart cs) = [a, b] ∧ Operand.parse 2 b = .ok s.operand)) := by
  rw [parse] at h
  split at h
  · cases h
  · next m found =>
    refine ⟨m, found, ?_⟩
    rw [mapError_eq_ok_iff] at h
    unfold parseOperands at h
    split at h
    · next empty none =>
      cases h
      exact ⟨rfl, rfl, .inl ⟨empty, none, rfl, rfl⟩⟩
    · next token target one =>
      obtain ⟨o, read, h⟩ := bind_eq_ok_iff.mp h
      cases h
      exact ⟨rfl, rfl, .inr (.inl ⟨target, rfl, token, one, read⟩)⟩
    · next a b value two =>
      obtain ⟨opcode, direction, read⟩ := readPair_cases h
      exact ⟨opcode, direction, .inr (.inr ⟨.inl value, a, b, two, read⟩)⟩
    · next a b address two =>
      obtain ⟨opcode, direction, read⟩ := readPair_cases h
      exact ⟨opcode, direction, .inr (.inr ⟨.inr address, a, b, two, read⟩)⟩
    · cases h

theorem operand_of_parse (h : parse cs = .ok s) :
    ((tokens (operandPart cs)).getLast? = none ∧ s.operand = .register .r0) ∨
      ∃ token position, (tokens (operandPart cs)).getLast? = some token ∧
        Operand.parse position token = .ok s.operand := by
  obtain ⟨m, -, -, -, ⟨-, none, -, register⟩ | ⟨-, -, token, one, read⟩ | ⟨-, a, b, two, read⟩⟩ :=
    parse_cases h
  · rw [none]
    exact .inl ⟨rfl, register⟩
  · rw [one]
    exact .inr ⟨token, 1, rfl, read⟩
  · rw [two]
    exact .inr ⟨b, 2, rfl, read⟩

theorem operand_eq_label_iff (h : parse cs = .ok s) {name : String} :
    s.operand = .label name ↔
      (tokens (operandPart cs)).getLast? = some ('.' :: name.toList) := by
  constructor
  · intro label
    obtain ⟨-, register⟩ | ⟨token, position, last, read⟩ := operand_of_parse h
    · rw [register] at label
      cases label
    · rw [label] at read
      rw [last, Operand.eq_point_of_parse read]
  · intro written
    obtain ⟨none, -⟩ | ⟨token, position, last, read⟩ := operand_of_parse h
    · rw [written] at none
      cases none
    · rw [written, Option.some.injEq] at last
      rw [← last, Operand.parse_point_eq_ok_iff] at read
      rw [read.2, String.ofList_toList]

end Statement

namespace Entry

theorem parse_of_head {text : List Char} (h : text.head? ≠ some '.') :
    Entry.parse text = (Statement.parse text).map .statement := by
  unfold Entry.parse
  split
  · exact absurd rfl h
  · rfl

/-- A line is a statement if it reads as one and has no point in front. -/
theorem parse_eq_statement_iff {text : List Char} {s : Statement} :
    Entry.parse text = .ok (.statement s) ↔
      text.head? ≠ some '.' ∧ Statement.parse text = .ok s := by
  unfold Entry.parse
  split
  · constructor
    · intro h
      dsimp only at h
      split at h
      · cases h
      · cases h
    · rintro ⟨no_point, -⟩
      exact absurd rfl no_point
  · next no_point =>
    rw [map_eq_ok_iff]
    constructor
    · rintro ⟨_, read, same⟩
      cases same
      refine ⟨fun point => ?_, read⟩
      obtain ⟨rest, rfl⟩ := List.head?_eq_some_iff.mp point
      exact no_point rest rfl
    · rintro ⟨-, read⟩
      exact ⟨s, read, rfl⟩

end Entry

end TernaryMachine
