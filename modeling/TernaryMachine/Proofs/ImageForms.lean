import TernaryMachine.Proofs.Image
import TernaryMachine.Proofs.TotalMap
/-! # The forms of an image

The words of an image are kept as text and put into memory, and come back from either.

* **Text.**  `readLines` takes the words off a text line by line (`texts_of_readLines`) and stops at
  the first line that is no word or for which there is no room (`readLines_error_cases`).  In terms
  of all lines of the text, significant or not, this is the first one that spoils it
  (`ReadsText`).  Of the text of a list of words nothing else is ever read (`WritesText`).
* **Memory.**  The cells from address zero up to the largest address hold as many words as an image
  may have, so that neither a word nor a cell is lost on the way (`Captured`, `PlacesImage`). -/

namespace TernaryMachine

namespace Image

/-! ### Reading lines -/

section

variable {lines : List Text.Line} {words done : List Word} {count : Nat} {e : ImageError}

theorem texts_of_readLines (room : count ≤ maxWords) (h : readLines count done lines = .ok words) :
    ∃ new : List Word, words = done.reverse ++ new ∧
      lines.map Text.Line.text = new.map (fun w => w.text.toList) ∧
      count + new.length ≤ maxWords := by
  induction lines generalizing count done with
  | nil =>
    cases h
    exact ⟨[], (List.append_nil _).symm, rfl, room⟩
  | cons line lines ih =>
    rw [readLines] at h
    split at h
    · cases h
    · next w read =>
      split at h
      · cases h
      · next left =>
        obtain ⟨new, rfl, texts, fits⟩ := ih (by omega) h
        refine ⟨w :: new, ?_, ?_, ?_⟩
        · rw [List.reverse_cons, List.append_assoc, List.singleton_append]
        · rw [List.map_cons, List.map_cons, texts, ← Word.parse_eq_ok_iff.mp read,
            String.toList_ofList]
        · rw [List.length_cons]
          omega

/-- Why a text is not taken for a word after `n` others. -/
def Refuses (n : Nat) (cs : List Char) (fault : ImageFault) : Prop :=
  (∃ reason, Word.parse (String.ofList cs) = .error reason ∧ fault = .malformed reason) ∨
    (∃ w, Word.parse (String.ofList cs) = .ok w) ∧ n = maxWords ∧ fault = .tooLong

/-- Reading stops at a line that is no word, or that is one word too many. -/
theorem readLines_error_cases (room : count ≤ maxWords)
    (h : readLines count done lines = .error e) :
    ∃ before line after, ∃ new : List Word, lines = before ++ line :: after ∧
      before.map Text.Line.text = new.map (fun w => w.text.toList) ∧
      count + new.length ≤ maxWords ∧ line.number = e.line ∧
      Refuses (count + new.length) line.text e.fault := by
  induction lines generalizing count done with
  | nil => cases h
  | cons line lines ih =>
    rw [readLines] at h
    split at h
    · next fault bad =>
      cases h
      exact ⟨[], line, lines, [], rfl, rfl, room, rfl, .inl ⟨fault, bad, rfl⟩⟩
    · next w read =>
      split at h
      · next full =>
        cases h
        exact ⟨[], line, lines, [], rfl, rfl, room, rfl, .inr ⟨⟨w, read⟩, full, rfl⟩⟩
      · next left =>
        obtain ⟨before, stop, after, new, rfl, texts, fits, number, fault⟩ := ih (by omega) h
        have more : count + (w :: new).length = count + 1 + new.length := by
          rw [List.length_cons]
          omega
        refine ⟨line :: before, stop, after, w :: new, rfl, ?_, by rwa [more], number,
          by rwa [more]⟩
        rw [List.map_cons, List.map_cons, texts, ← Word.parse_eq_ok_iff.mp read,
          String.toList_ofList]

end

/-! ### Texts -/

/-- Why a line, counted from one, is no line of an image. -/
inductive Spoils (lines : List (List Char)) : Nat → ImageFault → Prop
  /-- There is something on it, and no word. -/
  | malformed {above below : List (List Char)} {cs : List Char} {fault : WordError}
      (split : lines = above ++ cs :: below) (some_text : Text.significant cs ≠ [])
      (no_word : ¬ Word.IsLiteral (Text.significant cs))
      (reason : Word.parse (String.ofList (Text.significant cs)) = .error fault) :
      Spoils lines (above.length + 1) (.malformed fault)
  /-- There is a word on it, and there are enough above. -/
  | tooLong {above below : List (List Char)} {cs : List Char}
      (split : lines = above ++ cs :: below) (word : Word.IsLiteral (Text.significant cs))
      (full : maxWords ≤ (Text.contents above).length) :
      Spoils lines (above.length + 1) .tooLong

/-- How a text is read. -/
structure ReadsText (text : String) : Prop where
  exists_iff : (∃ image, parse text = .ok image) ↔
    (∀ cs ∈ Text.contents (Text.lines text.toList), Word.IsLiteral cs) ∧
      (Text.contents (Text.lines text.toList)).length ≤ maxWords
  words {image : Image} : parse text = .ok image →
    image.words.map (fun w => w.text.toList) = Text.contents (Text.lines text.toList)
  error {e : ImageError} : parse text = .error e →
    Spoils (Text.lines text.toList) e.line e.fault ∧
      ∀ n < e.line, ∀ fault, ¬ Spoils (Text.lines text.toList) n fault

/-- How the words of an image are written. -/
structure WritesText (image : Image) : Prop where
  fits : image.words.length ≤ maxWords → parse image.render = .ok image
  tooLong : maxWords < image.words.length → parse image.render = .error ⟨9846, .tooLong⟩

theorem exists_words {css : List (List Char)} (h : ∀ cs ∈ css, Word.IsLiteral cs) :
    ∃ words : List Word, css = words.map fun w => w.text.toList := by
  induction css with
  | nil => exact ⟨[], rfl⟩
  | cons cs css ih =>
    rw [List.forall_mem_cons] at h
    obtain ⟨w, text⟩ := Word.isLiteral_iff.mp h.1
    obtain ⟨words, texts⟩ := ih h.2
    exact ⟨w :: words, by rw [List.map_cons, text, ← texts]⟩

theorem map_text_significantLines (cs : List Char) :
    (Text.significantLines cs).map Text.Line.text = Text.contents (Text.lines cs) :=
  Text.map_text_numbered 0 (Text.lines cs)

variable {text : String} {e : ImageError}

/-- The line at which reading stops, among all lines of the text. -/
theorem parse_eq_error_cases (h : parse text = .error e) :
    ∃ above cs below, ∃ new : List Word, Text.lines text.toList = above ++ cs :: below ∧
      Text.contents above = new.map (fun w => w.text.toList) ∧ new.length ≤ maxWords ∧
      e.line = above.length + 1 ∧ Text.significant cs ≠ [] ∧
      Refuses new.length (Text.significant cs) e.fault := by
  rw [parse] at h
  cases read : readLines 0 [] (Text.significantLines text.toList) with
  | ok words =>
    rw [read] at h
    cases h
  | error e' =>
    rw [read] at h
    cases h
    obtain ⟨before, line, after, new, split, texts, fits, number, fault⟩ :=
      readLines_error_cases (Nat.zero_le _) read
    obtain ⟨above, cs, below, whole, upper, some_text, rfl⟩ := Text.exists_of_numbered_eq split
    rw [← upper, Text.map_text_numbered] at texts
    rw [Nat.zero_add] at fits fault
    rw [Nat.zero_add] at number
    exact ⟨above, cs, below, new, whole, texts, fits, number.symm, some_text, fault⟩

theorem Refuses.spoils {above below : List (List Char)} {cs : List Char} {new : List Word}
    {fault : ImageFault} (h : Refuses new.length (Text.significant cs) fault)
    (texts : Text.contents above = new.map fun w => w.text.toList)
    (some_text : Text.significant cs ≠ []) :
    Spoils (above ++ cs :: below) (above.length + 1) fault := by
  obtain ⟨reason, unread, rfl⟩ | ⟨⟨w, read⟩, full, rfl⟩ := h
  · refine .malformed rfl some_text (fun literal => ?_) unread
    obtain ⟨w, text⟩ := Word.isLiteral_iff.mp literal
    rw [← text, String.ofList_toList, Word.parse_text] at unread
    cases unread
  · refine .tooLong rfl (Word.isLiteral_iff.mpr ⟨w, ?_⟩) ?_
    · rw [← Word.parse_eq_ok_iff.mp read, String.toList_ofList]
    · rw [texts, List.length_map, full]

theorem not_spoils_above {above : List (List Char)} {new : List Word}
    (texts : Text.contents above = new.map fun w => w.text.toList) (fits : new.length ≤ maxWords)
    (rest : List (List Char)) {n : Nat} {fault : ImageFault} (upper : n ≤ above.length) :
    ¬ Spoils (above ++ rest) n fault := by
  have inside {above' below' : List (List Char)} {cs : List Char}
      (split : above ++ rest = above' ++ cs :: below') (lt : above'.length < above.length) :
      ∃ mid, above = above' ++ cs :: mid := by
    obtain ⟨mid, longer, -⟩ | ⟨mid, parts, tail⟩ := List.append_eq_append_iff.mp split
    · rw [longer, List.length_append] at lt
      omega
    · cases mid with
      | nil =>
        rw [parts, List.append_nil] at lt
        omega
      | cons c mid =>
        rw [List.cons_append, List.cons.injEq] at tail
        exact ⟨mid, by rw [parts, tail.1]⟩
  intro spoils
  cases spoils with
  | malformed split some_text no_word reason =>
    obtain ⟨mid, rfl⟩ := inside split (by omega)
    rw [Text.contents_append some_text] at texts
    have mem : Text.significant _ ∈ new.map fun w => w.text.toList :=
      texts ▸ List.mem_append_right _ List.mem_cons_self
    obtain ⟨w, -, text⟩ := List.mem_map.mp mem
    exact no_word (Word.isLiteral_iff.mpr ⟨w, text⟩)
  | tooLong split word full =>
    obtain ⟨mid, rfl⟩ := inside split (by omega)
    have length := congrArg List.length texts
    rw [Text.contents_append word.ne_nil, List.length_append, List.length_cons, List.length_map]
      at length
    omega

theorem reads_text (text : String) : ReadsText text where
  exists_iff := by
    constructor
    · rintro ⟨image, h⟩
      obtain ⟨words, read, -⟩ := map_eq_ok_iff.mp h
      obtain ⟨new, -, texts, fits⟩ := texts_of_readLines (Nat.zero_le _) read
      rw [map_text_significantLines] at texts
      rw [texts, List.length_map]
      refine ⟨fun cs mem => ?_, by omega⟩
      obtain ⟨w, -, text⟩ := List.mem_map.mp mem
      exact Word.isLiteral_iff.mpr ⟨w, text⟩
    · rintro ⟨literal, fits⟩
      obtain ⟨words, texts⟩ := exists_words literal
      rw [texts, List.length_map] at fits
      rw [← map_text_significantLines] at texts
      exact ⟨⟨words⟩, map_eq_ok_iff.mpr ⟨words, readLines_eq_ok texts fits, rfl⟩⟩
  words {image} h := by
    obtain ⟨words, read, rfl⟩ := map_eq_ok_iff.mp h
    obtain ⟨new, rfl, texts, -⟩ := texts_of_readLines (Nat.zero_le _) read
    rw [← map_text_significantLines]
    exact texts.symm
  error {e} h := by
    obtain ⟨above, cs, below, new, whole, texts, fits, number, some_text, fault⟩ :=
      parse_eq_error_cases h
    rw [whole, number]
    exact ⟨fault.spoils texts some_text,
      fun n lt fault => not_spoils_above texts fits (cs :: below) (by omega)⟩

/-- The words of an image stand below three lines, and the one after the last that there is room
for is an error. -/
theorem writes_text (image : Image) : WritesText image where
  fits := parse_render
  tooLong large := by
    have full : (image.words.take maxWords).length = maxWords := by
      rw [List.length_take]
      omega
    obtain ⟨w, rest, below⟩ := List.exists_cons_of_ne_nil
      (show image.words.drop maxWords ≠ [] by simp [large])
    have parts : wordLines 3 image.words =
        wordLines 3 (image.words.take maxWords) ++
          ⟨9846, w.text.toList⟩ :: wordLines (3 + maxWords + 1) rest := by
      conv_lhs => rw [← List.take_append_drop maxWords image.words, below]
      rw [wordLines, List.zipIdx_append, full, List.map_append, List.zipIdx_cons, List.map_cons]
      rfl
    have room : 0 + (image.words.take maxWords).length ≤ maxWords := by omega
    rw [parse, significantLines_render, parts,
      readLines_append (map_text_wordLines 3 _) room, readLines, String.ofList_toList,
      Word.parse_text]
    rw [full]
    rfl

/-- **Text**: a text is read if its lines are words and there is room for all, and the error is at
the first line where this fails; the text of an image is read as the image. -/
theorem text_format : (∀ text, ReadsText text) ∧ ∀ image, WritesText image :=
  ⟨reads_text, writes_text⟩

/-! ### Memory -/

/-- The second memory has the first cells of the first one from address zero on, as many as there
are, and nothing else. -/
structure Captured (m : Memory) (length : Nat) (m' : Memory) : Prop where
  inside {a : Word} : 0 ≤ a.toInt → a.toInt < (min length maxWords : Nat) → m'.read a = m.read a
  outside {a : Word} : a.toInt < 0 ∨ (min length maxWords : Nat) ≤ a.toInt → m'.read a = .zero
  eq_iff : m' = m ↔
    ∀ a : Word, a.toInt < 0 ∨ (min length maxWords : Nat) ≤ a.toInt → m.read a = .zero

/-- When an image has its place in memory, and that it is found again there. -/
structure PlacesImage (image : Image) : Prop where
  exists_iff : (∃ m, image.toMemory = .ok m) ↔ image.words.length ≤ maxWords
  tooLarge : maxWords < image.words.length →
    image.toMemory = .error (.programTooLarge image.words.length maxWords)
  ofMemory {m : Memory} : image.toMemory = .ok m → ofMemory m image.words.length = image

variable {image : Image} {m m' : Memory}

theorem toMemory_eq_ok (fits : image.words.length ≤ maxWords) :
    ∃ m, image.toMemory = .ok m ∧ Memory.empty.Written m 0 image.words := by
  have room : Word.zero.toInt + image.words.length ≤ Word.limit + 1 := by
    simp only [Word.toInt_zero, Word.limit, maxWords] at *
    omega
  have installed := Memory.empty.install_eq_ok .zero room
  rwa [Word.toInt_zero] at installed

theorem toMemory_of_large (large : maxWords < image.words.length) :
    image.toMemory = .error (.programTooLarge image.words.length maxWords) := by
  refine Memory.empty.install_of_large ⟨by decide, by decide⟩ ?_
  simp only [Word.limit, maxWords] at *
  omega

theorem length_le_of_toMemory (placed : image.toMemory = .ok m) :
    image.words.length ≤ maxWords := by
  by_contra large
  rw [toMemory_of_large (by omega)] at placed
  cases placed

theorem length_ofMemory (m : Memory) (length : Nat) :
    (ofMemory m length).words.length = min length maxWords := by
  rw [ofMemory, List.length_map, List.length_range]

theorem getElem?_ofMemory {k length : Nat} (lt : k < min length maxWords) (m : Memory) :
    (ofMemory m length).words[k]? = some (m.read (.wrap k)) := by
  rw [ofMemory, List.getElem?_map, List.getElem?_range lt]
  rfl

theorem captured_of_written {length : Nat}
    (written : Memory.empty.Written m' 0 (ofMemory m length).words) : Captured m length m' := by
  have inside {a : Word} (lower : 0 ≤ a.toInt) (upper : a.toInt < (min length maxWords : Nat)) :
      m'.read a = m.read a := by
    have place : ((a.toInt.toNat : Nat) : Int) = a.toInt := Int.toNat_of_nonneg lower
    have here := getElem?_ofMemory (show a.toInt.toNat < min length maxWords by omega) m
    rw [place, Word.wrap_toInt] at here
    exact written.inside _ _ _ here (by omega)
  have outside {a : Word} (out : a.toInt < 0 ∨ (min length maxWords : Nat) ≤ a.toInt) :
      m'.read a = .zero := by
    rw [written.outside a (by rw [length_ofMemory]; omega), Memory.read_empty]
  refine ⟨inside, outside, ?_, fun zero => Memory.eq_of_read_eq fun a => ?_⟩
  · rintro rfl a out
    exact outside out
  · by_cases within : 0 ≤ a.toInt ∧ a.toInt < (min length maxWords : Nat)
    · exact inside within.1 within.2
    · have out : a.toInt < 0 ∨ (min length maxWords : Nat) ≤ a.toInt := by omega
      rw [outside out, zero a out]

theorem ofMemory_of_toMemory (placed : image.toMemory = .ok m) :
    ofMemory m image.words.length = image := by
  have fits := length_le_of_toMemory placed
  obtain ⟨m', placed', written⟩ := toMemory_eq_ok fits
  obtain rfl : m = m' := Except.ok.inj (placed.symm.trans placed')
  have words : (ofMemory m image.words.length).words = image.words := by
    refine List.ext_getElem? fun k => ?_
    by_cases inside : k < image.words.length
    · have address : (Word.wrap k).toInt = k :=
        Word.toInt_wrap_of_le (by simp only [Word.limit]; omega)
          (by simp only [Word.limit, maxWords] at *; omega)
      have here := List.getElem?_eq_getElem inside
      rw [getElem?_ofMemory (by omega), here, written.inside k _ _ here (by omega)]
    · rw [List.getElem?_eq_none (by rw [length_ofMemory]; omega),
        List.getElem?_eq_none (by omega)]
  exact congrArg Image.mk words

theorem exists_captured (m : Memory) (length : Nat) :
    ∃ m', (ofMemory m length).toMemory = .ok m' ∧ Captured m length m' := by
  have fits : (ofMemory m length).words.length ≤ maxWords := by
    rw [length_ofMemory]
    exact Nat.min_le_right _ _
  obtain ⟨m', placed, written⟩ := toMemory_eq_ok fits
  exact ⟨m', placed, captured_of_written written⟩

theorem places_image (image : Image) : PlacesImage image where
  exists_iff := by
    refine ⟨fun ⟨m, placed⟩ => length_le_of_toMemory placed, fun fits => ?_⟩
    obtain ⟨m, placed, -⟩ := toMemory_eq_ok fits
    exact ⟨m, placed⟩
  tooLarge := toMemory_of_large
  ofMemory {m} placed := ofMemory_of_toMemory placed

/-- **Memory**: the image of a memory keeps its first cells and nothing else, and an image that is
not too long is kept by its memory. -/
theorem memory_form :
    (∀ m length, ∃ m', (ofMemory m length).toMemory = .ok m' ∧ Captured m length m') ∧
      ∀ image, PlacesImage image :=
  ⟨exists_captured, places_image⟩

end Image

end TernaryMachine
