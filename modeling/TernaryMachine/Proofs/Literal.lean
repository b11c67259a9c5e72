import TernaryMachine.Proofs.Text
import TernaryMachine.Text.Blank
import TernaryMachine.Word.Basic
/-! # The text of a word

A word is found again in its text, and in no other (`Word.parse_eq_ok_iff`).  The text is nine sign
characters, so it stays whole between blanks and commas (`Word.plain_text`); and any nine sign
characters are the text of a word (`Word.isLiteral_iff`). -/

namespace TernaryMachine

theorem Trit.plain_toChar (t : Trit) : Text.isBlank t.toChar = false ∧
    t.toChar ≠ ',' ∧ t.toChar ≠ ';' ∧ t.toChar ≠ '.' := by
  cases t <;> decide

theorem Trit.ofChar?_eq_some_iff {c : Char} {t : Trit} : ofChar? c = some t ↔ c = t.toChar := by
  constructor
  · intro h
    unfold ofChar? at h
    split at h
    · cases h
      rfl
    · cases h
      rfl
    · cases h
      rfl
    · cases h
  · rintro rfl
    exact t.ofChar?_toChar

theorem Trit.exists_toChar_iff {c : Char} :
    (∃ t : Trit, t.toChar = c) ↔ c = '-' ∨ c = 'o' ∨ c = '+' := by
  constructor
  · rintro ⟨t, rfl⟩
    cases t <;> decide
  · rintro (rfl | rfl | rfl)
    · exact ⟨.minus, rfl⟩
    · exact ⟨.zero, rfl⟩
    · exact ⟨.plus, rfl⟩

namespace Word

theorem toList_text (w : Word) : w.text.toList = w.digits.map Trit.toChar := by
  rw [text, Numeral.text, String.toList_ofList]

theorem length_text (w : Word) : w.text.toList.length = 9 := by
  rw [toList_text, List.length_map, length_digits]

theorem plain_text (w : Word) : Text.Plain w.text.toList := by
  have chars : ∀ c ∈ w.text.toList, ∃ t : Trit, t.toChar = c := by
    intro c mem
    rw [toList_text, List.mem_map] at mem
    obtain ⟨t, -, same⟩ := mem
    exact ⟨t, same⟩
  refine ⟨fun none => ?_, fun c mem => ?_, fun c mem => ?_⟩
  · have length := w.length_text
    rw [none] at length
    cases length
  · obtain ⟨t, rfl⟩ := chars c mem
    exact t.plain_toChar.1
  · obtain ⟨t, rfl⟩ := chars c mem
    exact t.plain_toChar.2

theorem readTrits_map_toChar (ts : List Trit) : readTrits (ts.map Trit.toChar) = .ok ts := by
  induction ts with
  | nil => rfl
  | cons t ts ih => simp only [List.map_cons, readTrits, Trit.ofChar?_toChar, ih]

/-- **Reading back**: a word is found again in its text. -/
theorem parse_text (w : Word) : parse w.text = .ok w := by
  have read : readTrits w.text.toList = .ok w.digits := by
    rw [toList_text, readTrits_map_toChar]
  rw [parse, dif_pos w.length_text]
  split
  · next c bad =>
    rw [read] at bad
    cases bad
  · next ds good =>
    rw [read] at good
    cases good
    simp only [digits, List.reverse_reverse]

theorem eq_map_toChar_of_readTrits {cs : List Char} {ts : List Trit} (h : readTrits cs = .ok ts) :
    cs = ts.map Trit.toChar := by
  induction cs generalizing ts with
  | nil =>
    cases h
    rfl
  | cons c cs ih =>
    rw [readTrits] at h
    split at h
    · cases h
    · next t sign =>
      split at h
      · next ts rest =>
        cases h
        rw [List.map_cons, ← ih rest, Trit.ofChar?_eq_some_iff.mp sign]
      · cases h

theorem parse_eq_ok_iff {s : String} {w : Word} : parse s = .ok w ↔ s = w.text := by
  constructor
  · intro h
    unfold parse at h
    split at h
    · split at h
      · cases h
      · next ds read =>
        cases h
        rw [← String.toList_inj, toList_text, digits, List.reverse_reverse]
        exact eq_map_toChar_of_readTrits read
    · cases h
  · rintro rfl
    exact w.parse_text

/-- Whether a text is nine sign characters. -/
def IsLiteral (token : List Char) : Prop :=
  token.length = 9 ∧ ∀ c ∈ token, c = '-' ∨ c = 'o' ∨ c = '+'

theorem IsLiteral.ne_nil {token : List Char} (h : IsLiteral token) : token ≠ [] := by
  rintro rfl
  cases h.1

theorem isLiteral_iff {token : List Char} :
    IsLiteral token ↔ ∃ w : Word, w.text.toList = token := by
  constructor
  · rintro ⟨length, signs⟩
    choose! trit written using fun c mem => Trit.exists_toChar_iff.mpr (signs c mem)
    refine ⟨⟨(token.map trit).reverse, by rw [List.length_reverse, List.length_map, length]⟩, ?_⟩
    rw [toList_text, digits, List.reverse_reverse, List.map_map]
    exact (List.map_congr_left written).trans (List.map_id token)
  · rintro ⟨w, rfl⟩
    refine ⟨w.length_text, fun c mem => ?_⟩
    rw [toList_text, List.mem_map] at mem
    obtain ⟨t, -, written⟩ := mem
    exact Trit.exists_toChar_iff.mp ⟨t, written⟩

end Word

end TernaryMachine
