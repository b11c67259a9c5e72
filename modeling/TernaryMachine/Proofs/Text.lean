import Mathlib.Data.List.Nodup
import Mathlib.Data.List.TakeWhile
import TernaryMachine.Text.Lines
/-! # Texts put together and taken apart

How splitting, trimming and the choice of significant lines act on a text that was put together
from parts.

* **Splitting** at a separator is the inverse of joining with it (`split_append`,
  `split_intercalate`).  What is put at an end of a text and does not separate goes to the piece
  there (`exists_first_piece`, `exists_last_piece`).
* **Trimming** does nothing to a text whose first and last characters are not blank
  (`trim_eq_self`), and blanks beside such a text are lost (`trim_blanks_append`,
  `trim_append_blanks`).  Nothing else is (`exists_append_trim_append`).
* **Plain texts** (`Plain`) have nothing in them that separates, so they stay whole between
  blanks and commas.
* **Comments.**  What is significant of a line does not change with its comment
  (`significant_comment`) or with blanks at its ends (`significant_blank_cons`,
  `significant_append_blank`).
* **Lines.**  A carriage return at the end of a line never matters, so the significant lines of a
  text are found among the pieces between its line feeds (`significantLines_eq`).  It follows that
  the significant lines of a text are those of its upper part and those of its lower part, moved
  down (`significantLines_append`). -/

namespace TernaryMachine

namespace Text

variable {separator c : Char} {cs as bs : List Char}

/-! ### Pieces -/

theorem split_ne_nil (separator : Char) (cs : List Char) : split separator cs ≠ [] := by
  cases cs with
  | nil => exact List.cons_ne_nil _ _
  | cons c cs =>
    rw [split_cons]
    unfold consPiece
    split
    · exact List.cons_ne_nil _ _
    · split
      · exact List.cons_ne_nil _ _
      · exact List.cons_ne_nil _ _

theorem split_append (separator : Char) (as bs : List Char) :
    split separator (as ++ separator :: bs) = split separator as ++ split separator bs := by
  induction as with
  | nil => simp [consPiece]
  | cons a as ih =>
    rw [List.cons_append, split_cons, ih, split_cons]
    cases pieces : split separator as with
    | nil => exact absurd pieces (split_ne_nil separator as)
    | cons piece rest =>
      simp only [List.cons_append, consPiece]
      split
      · rfl
      · rfl

theorem split_of_not_mem (h : separator ∉ cs) : split separator cs = [cs] := by
  induction cs with
  | nil => rfl
  | cons c cs ih =>
    rw [List.mem_cons, not_or] at h
    rw [split_cons, ih h.2, consPiece, if_neg (Ne.symm h.1)]

/-- Pieces that are joined are found again. -/
theorem split_intercalate {pieces : List (List Char)} (some_piece : pieces ≠ [])
    (h : ∀ piece ∈ pieces, separator ∉ piece) :
    split separator (List.intercalate [separator] pieces) = pieces := by
  induction pieces with
  | nil => exact absurd rfl some_piece
  | cons piece rest ih =>
    have here := split_of_not_mem (h piece List.mem_cons_self)
    cases rest with
    | nil => rw [List.intercalate_singleton, here]
    | cons next rest =>
      rw [List.intercalate_cons_cons, List.append_assoc, List.singleton_append, split_append, here,
        ih (List.cons_ne_nil _ _) (fun p hp => h p (List.mem_cons_of_mem _ hp)),
        List.singleton_append]

theorem intercalate_split (separator : Char) (cs : List Char) :
    List.intercalate [separator] (split separator cs) = cs := by
  induction cs with
  | nil => rfl
  | cons c cs ih =>
    rw [split_cons]
    cases pieces : split separator cs with
    | nil => exact absurd pieces (split_ne_nil separator cs)
    | cons piece rest =>
      rw [pieces] at ih
      unfold consPiece
      split
      · next same =>
        rw [List.intercalate_cons_cons, ih, same, List.nil_append, List.singleton_append]
      · cases rest with
        | nil =>
          rw [List.intercalate_singleton] at ih ⊢
          rw [ih]
        | cons next rest =>
          rw [List.intercalate_cons_cons] at ih ⊢
          rw [List.cons_append, List.cons_append, ih]

theorem not_mem_of_mem_split {piece : List Char} (h : piece ∈ split separator cs) :
    separator ∉ piece := by
  induction cs generalizing piece with
  | nil =>
    rw [split_nil, List.mem_singleton] at h
    rw [h]
    exact List.not_mem_nil
  | cons c cs ih =>
    rw [split_cons] at h
    unfold consPiece at h
    split at h
    · rcases List.mem_cons.mp h with rfl | h
      · exact List.not_mem_nil
      · exact ih h
    · next other =>
      cases pieces : split separator cs with
      | nil => exact absurd pieces (split_ne_nil separator cs)
      | cons first rest =>
        rw [pieces] at h ih
        rcases List.mem_cons.mp h with rfl | h
        · rw [List.mem_cons, not_or]
          exact ⟨Ne.symm other, ih List.mem_cons_self⟩
        · exact ih (List.mem_cons_of_mem _ h)

theorem split_eq_singleton_iff : split separator cs = [as] ↔ separator ∉ cs ∧ as = cs := by
  constructor
  · intro one
    have whole := intercalate_split separator cs
    rw [one, List.intercalate_singleton] at whole
    rw [← whole]
    exact ⟨not_mem_of_mem_split (one ▸ List.mem_singleton_self as), rfl⟩
  · rintro ⟨none, rfl⟩
    exact split_of_not_mem none

theorem split_eq_pair_iff :
    split separator cs = [as, bs] ↔
      cs = as ++ separator :: bs ∧ separator ∉ as ∧ separator ∉ bs := by
  constructor
  · intro two
    have whole := intercalate_split separator cs
    rw [two, List.intercalate_cons_cons, List.intercalate_singleton, List.append_assoc] at whole
    refine ⟨whole.symm, ?_, ?_⟩
    · exact not_mem_of_mem_split (two ▸ List.mem_cons_self)
    · exact not_mem_of_mem_split (two ▸ List.mem_cons_of_mem _ List.mem_cons_self)
  · rintro ⟨rfl, first, second⟩
    rw [split_append, split_of_not_mem first, split_of_not_mem second, List.singleton_append]

theorem split_cons_self (separator : Char) (cs : List Char) :
    split separator (separator :: cs) = [] :: split separator cs :=
  if_pos rfl

theorem split_cons_of_ne {first : List Char} {rest : List (List Char)} (h : c ≠ separator)
    (pieces : split separator cs = first :: rest) :
    split separator (c :: cs) = (c :: first) :: rest := by
  rw [split_cons, pieces, consPiece, if_neg h]

/-- What is put in front of a text and does not separate goes to the first piece. -/
theorem exists_first_piece (separator : Char) (cs : List Char) :
    ∃ first rest, split separator cs = first :: rest ∧
      ∀ as, separator ∉ as → split separator (as ++ cs) = (as ++ first) :: rest := by
  obtain ⟨first, rest, pieces⟩ := List.exists_cons_of_ne_nil (split_ne_nil separator cs)
  refine ⟨first, rest, pieces, fun as => ?_⟩
  induction as with
  | nil => exact fun _ => pieces
  | cons a as ih =>
    intro whole
    rw [List.mem_cons, not_or] at whole
    exact split_cons_of_ne (Ne.symm whole.1) (ih whole.2)

theorem exists_last_piece (separator : Char) (cs : List Char) :
    ∃ init last, split separator cs = init ++ [last] ∧
      ∀ bs, separator ∉ bs → split separator (cs ++ bs) = init ++ [last ++ bs] := by
  induction cs with
  | nil => exact ⟨[], [], rfl, fun bs whole => split_of_not_mem whole⟩
  | cons c cs ih =>
    obtain ⟨init, last, pieces, behind⟩ := ih
    by_cases separates : c = separator
    · subst separates
      refine ⟨[] :: init, last, ?_, fun bs whole => ?_⟩
      · rw [split_cons_self, pieces, List.cons_append]
      · rw [List.cons_append, split_cons_self, behind bs whole, List.cons_append]
    · cases init with
      | nil =>
        exact ⟨[], c :: last, split_cons_of_ne separates pieces,
          fun bs whole => split_cons_of_ne separates (behind bs whole)⟩
      | cons first init =>
        exact ⟨(c :: first) :: init, last, split_cons_of_ne separates pieces,
          fun bs whole => split_cons_of_ne separates (behind bs whole)⟩

theorem exists_piece (starts : ∀ c ∈ as.getLast?, c = separator)
    (ends : ∀ c ∈ bs.head?, c = separator) :
    ∃ before after, ∀ mid, separator ∉ mid →
      split separator (as ++ mid ++ bs) = before ++ mid :: after := by
  have back : ∃ after, ∀ mid, separator ∉ mid → split separator (mid ++ bs) = mid :: after := by
    cases bs with
    | nil =>
      refine ⟨[], fun mid whole => ?_⟩
      rw [List.append_nil, split_of_not_mem whole]
    | cons b bs =>
      obtain rfl := ends b rfl
      refine ⟨split b bs, fun mid whole => ?_⟩
      rw [split_append, split_of_not_mem whole, List.singleton_append]
  obtain ⟨after, back⟩ := back
  rcases List.eq_nil_or_concat as with rfl | ⟨as, a, rfl⟩
  · refine ⟨[], after, fun mid whole => ?_⟩
    rw [List.nil_append, back mid whole, List.nil_append]
  · rw [List.concat_eq_append] at starts ⊢
    obtain rfl := starts a (by simp)
    refine ⟨split a as, after, fun mid whole => ?_⟩
    rw [List.append_assoc, List.append_assoc, List.singleton_append, split_append, back mid whole]

/-! ### Trimming -/

theorem trimBack_append_blank (h : isBlank c = true) (cs : List Char) :
    trimBack (cs ++ [c]) = trimBack cs := by
  rw [trimBack, trimBack, List.reverse_append, List.reverse_singleton, List.singleton_append,
    List.dropWhile_cons_of_pos h]

theorem trim_append_blank (h : isBlank c = true) (cs : List Char) :
    trim (cs ++ [c]) = trim cs := by
  rw [trim, trim, trimFront, trimFront, List.dropWhile_append]
  split
  · next none =>
    rw [List.dropWhile_cons_of_pos h, List.isEmpty_iff.mp none]
    rfl
  · exact trimBack_append_blank h _

theorem trim_blank_cons (h : isBlank c = true) (cs : List Char) : trim (c :: cs) = trim cs := by
  rw [trim, trim, trimFront, trimFront, List.dropWhile_cons_of_pos h]

theorem trim_eq_self (first : ∀ c ∈ cs.head?, isBlank c = false)
    (last : ∀ c ∈ cs.getLast?, isBlank c = false) : trim cs = cs := by
  have front : trimFront cs = cs := by
    cases cs with
    | nil => rfl
    | cons c cs => exact List.dropWhile_cons_of_neg (by simp [first c rfl])
  rw [trim, front, trimBack]
  rcases List.eq_nil_or_concat cs with rfl | ⟨init, c, rfl⟩
  · rfl
  · rw [List.concat_eq_append] at last ⊢
    rw [List.reverse_append, List.reverse_singleton, List.singleton_append,
      List.dropWhile_cons_of_neg (by simp [last c (by simp)]), List.reverse_cons,
      List.reverse_reverse]

theorem not_blank_of_mem_head?_trimFront (h : c ∈ (trimFront cs).head?) : isBlank c = false := by
  have first := List.head?_dropWhile_not isBlank cs
  rw [trimFront, Option.mem_def] at h
  rw [h] at first
  exact first

theorem not_blank_of_mem_head?_trim (h : c ∈ (trim cs).head?) : isBlank c = false := by
  have front : trim cs <+: trimFront cs := by
    rw [trim, trimBack, ← List.reverse_suffix, List.reverse_reverse]
    exact List.dropWhile_suffix isBlank
  obtain ⟨back, whole⟩ := front
  have first : c ∈ (trimFront cs).head? := by
    rw [← whole, Option.mem_def, List.head?_append, h, Option.some_or]
  exact not_blank_of_mem_head?_trimFront first

theorem not_blank_of_mem_getLast?_trim (h : c ∈ (trim cs).getLast?) : isBlank c = false := by
  rw [trim, trimBack, List.getLast?_reverse] at h
  exact not_blank_of_mem_head?_trimFront h

theorem trim_trim (cs : List Char) : trim (trim cs) = trim cs :=
  trim_eq_self (fun _ => not_blank_of_mem_head?_trim) fun _ => not_blank_of_mem_getLast?_trim

theorem trim_append_blanks (h : ∀ c ∈ bs, isBlank c = true) (cs : List Char) :
    trim (cs ++ bs) = trim cs := by
  induction bs generalizing cs with
  | nil => rw [List.append_nil]
  | cons b bs ih =>
    rw [List.forall_mem_cons] at h
    rw [List.append_cons, ih h.2, trim_append_blank h.1]

theorem trim_blanks_append (h : ∀ c ∈ as, isBlank c = true) (cs : List Char) :
    trim (as ++ cs) = trim cs := by
  induction as with
  | nil => rfl
  | cons a as ih =>
    rw [List.forall_mem_cons] at h
    rw [List.cons_append, trim_blank_cons h.1, ih h.2]

theorem exists_trimBack_append (cs : List Char) :
    ∃ bs, cs = trimBack cs ++ bs ∧ ∀ c ∈ bs, isBlank c = true := by
  refine ⟨(cs.reverse.takeWhile isBlank).reverse, ?_, fun c mem => ?_⟩
  · rw [trimBack, ← List.reverse_append, List.takeWhile_append_dropWhile, List.reverse_reverse]
  · exact List.mem_takeWhile_imp (List.mem_reverse.mp mem)

theorem exists_append_trim_append (cs : List Char) :
    ∃ as bs, cs = as ++ trim cs ++ bs ∧ (∀ c ∈ as, isBlank c = true) ∧
      ∀ c ∈ bs, isBlank c = true := by
  obtain ⟨bs, whole, back⟩ := exists_trimBack_append (trimFront cs)
  refine ⟨cs.takeWhile isBlank, bs, ?_, fun c => List.mem_takeWhile_imp, back⟩
  rw [List.append_assoc, trim, ← whole, trimFront, List.takeWhile_append_dropWhile]

theorem trim_trimBack (cs : List Char) : trim (trimBack cs) = trim cs := by
  obtain ⟨bs, whole, back⟩ := exists_trimBack_append cs
  conv_rhs => rw [whole, trim_append_blanks back]

theorem trim_ne_nil (mem : c ∈ cs) (h : isBlank c = false) : trim cs ≠ [] := by
  intro none
  obtain ⟨as, bs, whole, front, back⟩ := exists_append_trim_append cs
  rw [whole, none, List.append_nil, List.mem_append] at mem
  have blank : isBlank c = true := mem.elim (front c) (back c)
  rw [h] at blank
  cases blank

/-- Blanks at the ends of a text make no difference to its pieces. -/
theorem map_trim_split_trim (h : isBlank separator = false) (cs : List Char) :
    (split separator (trim cs)).map trim = (split separator cs).map trim := by
  have whole {bs : List Char} (blank : ∀ c ∈ bs, isBlank c = true) : separator ∉ bs := by
    intro mem
    rw [blank separator mem] at h
    cases h
  obtain ⟨as, bs, parts, front, back⟩ := exists_append_trim_append cs
  obtain ⟨first, rest, first_pieces, in_front⟩ := exists_first_piece separator (trim cs ++ bs)
  obtain ⟨init, last, last_pieces, behind⟩ := exists_last_piece separator (trim cs)
  conv_rhs => rw [parts, List.append_assoc, in_front as (whole front), List.map_cons,
    trim_blanks_append front, ← List.map_cons, ← first_pieces, behind bs (whole back),
    List.map_append, List.map_singleton, trim_append_blanks back, ← List.map_singleton,
    ← List.map_append, ← last_pieces]

/-- In a text that begins with what is not blank, blanks are cut off the rest. -/
theorem trim_append_of_not_blank (some_text : as ≠ []) (h : ∀ c ∈ as, isBlank c = false)
    (bs : List Char) : trim (as ++ bs) = as ++ trimBack bs := by
  obtain ⟨blanks, whole, back⟩ := exists_trimBack_append bs
  conv_lhs => rw [whole, ← List.append_assoc, trim_append_blanks back]
  refine trim_eq_self (fun c mem => ?_) fun c mem => ?_
  · obtain ⟨a, as, rfl⟩ := List.exists_cons_of_ne_nil some_text
    cases mem
    exact h _ List.mem_cons_self
  · rw [List.getLast?_append] at mem
    cases last : (trimBack bs).getLast? with
    | none =>
      rw [last, Option.none_or] at mem
      exact h c (List.mem_of_mem_getLast? mem)
    | some d =>
      rw [last, Option.some_or] at mem
      cases mem
      rw [trimBack, List.getLast?_reverse] at last
      exact not_blank_of_mem_head?_trimFront last

theorem mem_head?_of_mem_head?_trimBack (h : c ∈ (trimBack cs).head?) : c ∈ cs.head? := by
  obtain ⟨bs, whole, -⟩ := exists_trimBack_append cs
  rw [whole, Option.mem_def, List.head?_append, h, Option.some_or]

/-! ### Plain texts -/

/-- A text in which nothing is separated. -/
structure Plain (cs : List Char) : Prop where
  ne_nil : cs ≠ []
  not_blank : ∀ c ∈ cs, isBlank c = false
  not_special : ∀ c ∈ cs, c ≠ ',' ∧ c ≠ ';' ∧ c ≠ '.'

def isPlain (cs : List Char) : Bool :=
  !cs.isEmpty && cs.all fun c => !isBlank c && c != ',' && c != ';' && c != '.'

namespace Plain

variable {cs as bs : List Char}

theorem of_isPlain (h : isPlain cs = true) : Plain cs := by
  simp only [isPlain, Bool.and_eq_true, Bool.not_eq_true', List.isEmpty_eq_false_iff,
    List.all_eq_true, bne_iff_ne] at h
  obtain ⟨some_text, all⟩ := h
  refine ⟨some_text, fun c mem => (all c mem).1.1.1, fun c mem => ?_⟩
  obtain ⟨⟨⟨-, comma⟩, semicolon⟩, point⟩ := all c mem
  exact ⟨comma, semicolon, point⟩

theorem trim_append (ha : Plain as) (hb : Plain bs) (mid : List Char) :
    trim (as ++ mid ++ bs) = as ++ mid ++ bs := by
  refine trim_eq_self (fun c hc => ?_) fun c hc => ?_
  · obtain ⟨a, as, rfl⟩ := List.exists_cons_of_ne_nil ha.ne_nil
    cases hc
    exact ha.not_blank _ List.mem_cons_self
  · rw [List.getLast?_append_of_ne_nil _ hb.ne_nil] at hc
    exact hb.not_blank c (List.mem_of_mem_getLast? hc)

theorem trim (h : Plain cs) : Text.trim cs = cs :=
  trim_eq_self (fun c hc => h.not_blank c (List.mem_of_mem_head? hc))
    fun c hc => h.not_blank c (List.mem_of_mem_getLast? hc)

theorem comma_not_mem (h : Plain cs) : ',' ∉ cs :=
  fun mem => (h.not_special _ mem).1 rfl

theorem of_mem (h : Plain cs) {c : Char} (mem : c ∈ cs) : c ≠ ';' ∧ c ≠ '\n' ∧ c ≠ '.' := by
  refine ⟨(h.not_special c mem).2.1, ?_, (h.not_special c mem).2.2⟩
  rintro rfl
  exact absurd (h.not_blank _ mem) (by decide)

end Plain

/-! ### Comments -/

/-- The part of a line before its comment. -/
def code (cs : List Char) : List Char :=
  cs.takeWhile fun c => c ≠ ';'

theorem code_nil : code [] = [] := rfl

theorem code_cons (h : c ≠ ';') (cs : List Char) : code (c :: cs) = c :: code cs :=
  List.takeWhile_cons_of_pos (decide_eq_true h)

theorem code_append (h : ';' ∉ as) (bs : List Char) : code (as ++ bs) = as ++ code bs := by
  refine List.takeWhile_append_of_pos fun c mem => decide_eq_true ?_
  rintro rfl
  exact h mem

theorem code_comment (cs text : List Char) : code (cs ++ ';' :: text) = code cs := by
  induction cs with
  | nil => rfl
  | cons c cs ih =>
    by_cases begins : c = ';'
    · subst begins
      rfl
    · rw [List.cons_append, code_cons begins, code_cons begins, ih]

theorem code_of_head (h : ∀ c ∈ cs.head?, c = ';') : code cs = [] := by
  cases cs with
  | nil => rfl
  | cons c cs =>
    obtain rfl := h c rfl
    rfl

theorem ne_semicolon_of_blank (h : isBlank c = true) : c ≠ ';' := by
  rintro rfl
  cases h

theorem semicolon_not_mem_of_blank (h : ∀ c ∈ cs, isBlank c = true) : ';' ∉ cs :=
  fun mem => ne_semicolon_of_blank (h _ mem) rfl

theorem significant_comment (cs text : List Char) :
    significant (cs ++ ';' :: text) = significant cs := by
  show trim (code _) = trim (code _)
  rw [code_comment]

theorem significant_blank_cons (h : isBlank c = true) (cs : List Char) :
    significant (c :: cs) = significant cs := by
  show trim (code _) = trim (code _)
  rw [code_cons (ne_semicolon_of_blank h), trim_blank_cons h]

theorem significant_append_blank (h : isBlank c = true) (cs : List Char) :
    significant (cs ++ [c]) = significant cs := by
  show trim (code _) = trim (code _)
  by_cases comment : ';' ∈ cs
  · obtain ⟨as, text, rfl⟩ := List.append_of_mem comment
    rw [List.append_assoc, List.cons_append, code_comment, code_comment]
  · have whole := code_append comment []
    rw [List.append_nil, code_nil, List.append_nil] at whole
    rw [code_append comment, code_cons (ne_semicolon_of_blank h), code_nil, trim_append_blank h,
      whole]

/-! ### Significant lines -/

theorem significant_nil : significant [] = [] := rfl

/-- A carriage return at the end of a line is a blank, or in a comment. -/
theorem significant_dropReturn (cs : List Char) : significant (dropReturn cs) = significant cs := by
  rw [dropReturn]
  split
  · next returns =>
    obtain ⟨init, rfl⟩ := List.getLast?_eq_some_iff.mp returns
    rw [List.dropLast_concat, significant_append_blank (by decide)]
  · rfl

/-- The significant ones of some lines, the first of which has number `n + 1`. -/
def numbered (n : Nat) (pieces : List (List Char)) : List Line :=
  (pieces.zipIdx n).filterMap fun (piece, i) =>
    match significant piece with
    | [] => none
    | text => some ⟨i + 1, text⟩

/-- A line further down. -/
def Line.down (k : Nat) (line : Line) : Line :=
  { line with number := line.number + k }

@[simp] theorem numbered_nil (n : Nat) : numbered n [] = [] := rfl

theorem numbered_cons_of_blank {piece : List Char} (h : significant piece = []) (n : Nat)
    (pieces : List (List Char)) : numbered n (piece :: pieces) = numbered (n + 1) pieces := by
  rw [numbered, List.zipIdx_cons, List.filterMap_cons_none (by simp [h]), numbered]

theorem numbered_cons {piece : List Char} (h : significant piece ≠ []) (n : Nat)
    (pieces : List (List Char)) :
    numbered n (piece :: pieces) = ⟨n + 1, significant piece⟩ :: numbered (n + 1) pieces := by
  rw [numbered, List.zipIdx_cons, List.filterMap_cons_some (b := ⟨n + 1, significant piece⟩),
    numbered]
  show (match significant piece with
    | [] => none
    | text => some (⟨n + 1, text⟩ : Line)) = some ⟨n + 1, significant piece⟩
  cases e : significant piece with
  | nil => exact absurd e h
  | cons c cs => rfl

theorem numbered_append (n : Nat) (xs ys : List (List Char)) :
    numbered n (xs ++ ys) = numbered n xs ++ numbered (n + xs.length) ys := by
  rw [numbered, List.zipIdx_append, List.filterMap_append, numbered, numbered]

theorem numbered_map_dropReturn (n : Nat) (pieces : List (List Char)) :
    numbered n (pieces.map dropReturn) = numbered n pieces := by
  induction pieces generalizing n with
  | nil => rfl
  | cons piece pieces ih =>
    have same := significant_dropReturn piece
    rw [List.map_cons]
    by_cases blank : significant piece = []
    · rw [numbered_cons_of_blank (same.trans blank), numbered_cons_of_blank blank, ih]
    · rw [numbered_cons (by rwa [same]), numbered_cons blank, ih, same]

theorem numbered_add (n k : Nat) (pieces : List (List Char)) :
    numbered (n + k) pieces = (numbered n pieces).map (Line.down k) := by
  induction pieces generalizing n with
  | nil => rfl
  | cons piece pieces ih =>
    by_cases blank : significant piece = []
    · rw [numbered_cons_of_blank blank, numbered_cons_of_blank blank, ← ih, Nat.add_right_comm]
    · rw [numbered_cons blank, numbered_cons blank, List.map_cons, ← ih, Nat.add_right_comm n k 1]
      rfl

theorem lt_number_of_mem_numbered {n : Nat} {pieces : List (List Char)} {line : Line}
    (h : line ∈ numbered n pieces) : n < line.number := by
  induction pieces generalizing n with
  | nil => cases h
  | cons piece pieces ih =>
    by_cases blank : significant piece = []
    · rw [numbered_cons_of_blank blank] at h
      have := ih h
      omega
    · rw [numbered_cons blank, List.mem_cons] at h
      rcases h with rfl | h
      · exact Nat.lt_succ_self n
      · have := ih h
        omega

theorem pairwise_numbered (n : Nat) (pieces : List (List Char)) :
    (numbered n pieces).Pairwise fun line other => line.number < other.number := by
  induction pieces generalizing n with
  | nil => exact List.Pairwise.nil
  | cons piece pieces ih =>
    by_cases blank : significant piece = []
    · rw [numbered_cons_of_blank blank]
      exact ih (n + 1)
    · rw [numbered_cons blank]
      exact List.pairwise_cons.mpr ⟨fun other mem => lt_number_of_mem_numbered mem, ih (n + 1)⟩

theorem number_le_of_mem_numbered {n : Nat} {pieces : List (List Char)} {line : Line}
    (h : line ∈ numbered n pieces) : line.number ≤ n + pieces.length := by
  induction pieces generalizing n with
  | nil => cases h
  | cons piece pieces ih =>
    rw [List.length_cons]
    by_cases blank : significant piece = []
    · rw [numbered_cons_of_blank blank] at h
      have := ih h
      omega
    · rw [numbered_cons blank, List.mem_cons] at h
      rcases h with rfl | h
      · dsimp only
        omega
      · have := ih h
        omega

theorem exists_of_numbered_eq {n : Nat} {pieces : List (List Char)} {before after : List Line}
    {line : Line} (h : numbered n pieces = before ++ line :: after) :
    ∃ above piece below, pieces = above ++ piece :: below ∧ numbered n above = before ∧
      significant piece ≠ [] ∧ line = ⟨n + above.length + 1, significant piece⟩ := by
  induction pieces generalizing n before with
  | nil => simp at h
  | cons piece pieces ih =>
    by_cases blank : significant piece = []
    · rw [numbered_cons_of_blank blank] at h
      obtain ⟨above, found, below, rfl, rfl, some_text, rfl⟩ := ih h
      refine ⟨piece :: above, found, below, rfl, numbered_cons_of_blank blank n above, some_text,
        ?_⟩
      rw [List.length_cons, Nat.add_right_comm n 1]
      rfl
    · rw [numbered_cons blank] at h
      cases before with
      | nil =>
        rw [List.nil_append, List.cons.injEq] at h
        exact ⟨[], piece, pieces, rfl, rfl, blank, h.1.symm⟩
      | cons first before =>
        rw [List.cons_append, List.cons.injEq] at h
        obtain ⟨above, found, below, rfl, rfl, some_text, rfl⟩ := ih h.2
        refine ⟨piece :: above, found, below, rfl, ?_, some_text, ?_⟩
        · rw [numbered_cons blank, h.1]
        · rw [List.length_cons, Nat.add_right_comm n 1]
          rfl

theorem numbered_take {pieces : List (List Char)} {before after : List Line} {line : Line}
    (h : numbered 0 pieces = before ++ line :: after) :
    numbered 0 (pieces.take line.number) = before ++ [line] := by
  obtain ⟨above, piece, below, rfl, rfl, some_text, rfl⟩ := exists_of_numbered_eq h
  have upper : (above ++ piece :: below).take (0 + above.length + 1) = above ++ [piece] := by
    rw [Nat.zero_add, List.take_length_add_append, List.take_succ_cons, List.take_zero]
  rw [upper, numbered_append, numbered_cons some_text, numbered_nil]

/-- What is significant of some lines, where anything is. -/
def contents (pieces : List (List Char)) : List (List Char) :=
  (pieces.map significant).filter fun cs => !cs.isEmpty

theorem map_text_numbered (n : Nat) (pieces : List (List Char)) :
    (numbered n pieces).map Line.text = contents pieces := by
  induction pieces generalizing n with
  | nil => rfl
  | cons piece pieces ih =>
    rw [contents, List.map_cons]
    by_cases blank : significant piece = []
    · rw [numbered_cons_of_blank blank, List.filter_cons_of_neg (by simp [blank]), ih, contents]
    · rw [numbered_cons blank, List.filter_cons_of_pos (by simp [blank]), List.map_cons, ih,
        contents]

theorem contents_append {above below : List (List Char)} {piece : List Char}
    (some_text : significant piece ≠ []) :
    contents (above ++ piece :: below) = contents above ++ significant piece :: contents below := by
  simp [contents, some_text]

/-- The significant lines of a text are found among the pieces between its line feeds. -/
theorem significantLines_eq (cs : List Char) :
    significantLines cs = numbered 0 (split '\n' cs) := by
  show numbered 0 (lines cs) = _
  rw [lines]
  rcases List.eq_nil_or_concat (split '\n' cs) with none | ⟨ended, last, pieces⟩
  · exact absurd none (split_ne_nil '\n' cs)
  · rw [List.concat_eq_append] at pieces
    rw [pieces, List.reverse_append, List.reverse_singleton, List.singleton_append]
    cases last with
    | nil =>
      simp only [← List.map_reverse, List.reverse_reverse]
      rw [numbered_map_dropReturn, numbered_append, numbered_cons_of_blank significant_nil,
        numbered_nil, List.append_nil]
    | cons c last =>
      simp only [List.reverse_cons, ← List.map_reverse, List.reverse_reverse]
      rw [numbered_append, numbered_map_dropReturn, List.length_map, numbered_append]

theorem eq_of_number_eq {line other : Line} (hl : line ∈ significantLines cs)
    (ho : other ∈ significantLines cs) (same : line.number = other.number) : line = other := by
  have distinct : ((significantLines cs).map Line.number).Nodup := by
    rw [significantLines_eq]
    exact List.pairwise_map.mpr ((pairwise_numbered _ _).imp Nat.ne_of_lt)
  exact List.inj_on_of_nodup_map distinct hl ho same

theorem significant_eq_self (no_comment : ';' ∉ cs) (trimmed : trim cs = cs) :
    significant cs = cs := by
  have whole := code_append no_comment []
  rw [List.append_nil, code_nil, List.append_nil] at whole
  show trim (code cs) = cs
  rw [whole, trimmed]

theorem significantLines_of_significant (h : '\n' ∉ cs) (same : significant cs = cs)
    (some_text : cs ≠ []) : significantLines cs = [⟨1, cs⟩] := by
  rw [significantLines_eq, split_of_not_mem h, numbered_cons (by rwa [same]), same, numbered_nil]

/-- The significant lines of two texts, one below the other. -/
theorem significantLines_append (as bs : List Char) :
    significantLines (as ++ '\n' :: bs) =
      significantLines as ++ (significantLines bs).map (Line.down (split '\n' as).length) := by
  rw [significantLines_eq, split_append, numbered_append, numbered_add, significantLines_eq,
    significantLines_eq]

theorem significantLines_intercalate {pieces : List (List Char)}
    (h : ∀ piece ∈ pieces, '\n' ∉ piece) :
    significantLines (List.intercalate ['\n'] pieces) = numbered 0 pieces := by
  rw [significantLines_eq]
  cases pieces with
  | nil => rfl
  | cons piece rest => rw [split_intercalate (List.cons_ne_nil _ _) h]

end Text

end TernaryMachine
