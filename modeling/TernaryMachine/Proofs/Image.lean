import TernaryMachine.Image
import TernaryMachine.Proofs.Literal
import TernaryMachine.Proofs.Program
import TernaryMachine.Proofs.Text
/-! # Images of programs

An image keeps a program: its words are those of the program, its text is read back as the same
image, and the memory that it is put into is the one the program was assembled into.

* **Text.**  What is significant of the text of an image are the texts of its words
  (`significantLines_render`), and each of these is read back (`parse_render`).
* **Memory.**  Installing words writes them from an address on (`Memory.install_eq_ok`), and so
  does assembly; nothing else is in either memory (`Program.LaidOut.keptByImage`). -/

namespace TernaryMachine

/-! ### Text -/

theorem Text.newline_not_mem_toString (n : Nat) : '\n' ∉ (toString n).toList := by
  intro mem
  have digit := Nat.isDigit_of_mem_toDigits (b := 10) (n := n) (by decide) (by decide)
    (show '\n' ∈ Nat.toDigits 10 n by simpa [toString, Nat.repr] using mem)
  exact absurd digit (by decide)

theorem Text.newline_not_mem_zeroPadded (width n : Nat) :
    '\n' ∉ (Text.zeroPadded width n).toList := by
  rw [zeroPadded, String.toList_append, List.mem_append, filler, String.toList_ofList,
    List.mem_replicate]
  rintro (⟨-, newline⟩ | mem)
  · exact absurd newline (by decide)
  · exact newline_not_mem_toString n mem

namespace Image

/-- What is written of a word and its address, without the line feed. -/
def lineOf (w : Word) (address : Nat) : List Char :=
  w.text.toList ++ ' ' :: ';' :: ' ' :: (Text.zeroPadded 5 address).toList

theorem toList_renderLine (w : Word) (address : Nat) :
    (renderLine w address).toList = lineOf w address ++ ['\n'] := by
  simp [renderLine, lineOf, toString]

theorem newline_not_mem_lineOf (w : Word) (address : Nat) : '\n' ∉ lineOf w address := by
  have digits := Text.newline_not_mem_zeroPadded 5 address
  have word : '\n' ∉ w.text.toList := fun newline => (w.plain_text.of_mem newline).2.1 rfl
  simp [lineOf, word, digits]

theorem significant_lineOf (w : Word) (address : Nat) :
    Text.significant (lineOf w address) = w.text.toList := by
  have no_comment : ';' ∉ w.text.toList := fun mem => (w.plain_text.of_mem mem).1 rfl
  rw [lineOf, List.append_cons, Text.significant_comment,
    Text.significant_append_blank (by decide),
    Text.significant_eq_self no_comment w.plain_text.trim]

/-- The lines of words, below `n` others. -/
def wordLines (n : Nat) (words : List Word) : List Text.Line :=
  (words.zipIdx n).map fun (w, i) => ⟨i + 1, w.text.toList⟩

theorem map_text_wordLines (n : Nat) (words : List Word) :
    (wordLines n words).map Text.Line.text = words.map fun w => w.text.toList := by
  induction words generalizing n with
  | nil => rfl
  | cons w words ih => exact congrArg (w.text.toList :: ·) (ih (n + 1))

theorem numbered_lines (words : List Word) (k n : Nat) :
    Text.numbered k (Text.split '\n' (String.join ((words.zipIdx n).map fun (w, address) =>
      renderLine w address)).toList) = wordLines k words := by
  induction words generalizing k n with
  | nil => rfl
  | cons w words ih =>
    have first : (String.join (((w :: words).zipIdx n).map fun (w, address) =>
        renderLine w address)).toList = lineOf w n ++ '\n' ::
          (String.join ((words.zipIdx (n + 1)).map fun (w, address) =>
            renderLine w address)).toList := by
      simp [String.toList_join, toList_renderLine]
    have word := significant_lineOf w n
    rw [first, Text.split_append, Text.split_of_not_mem (newline_not_mem_lineOf w n),
      List.singleton_append, Text.numbered_cons (by simp [word, w.plain_text.ne_nil]), word, ih]
    rfl

/-- The words of an image stand below three lines that are not significant. -/
theorem significantLines_render (image : Image) :
    Text.significantLines image.render.toList = wordLines 3 image.words := by
  have header : image.render.toList = "; trivm image".toList ++ '\n' ::
      (("; ".toList ++ (toString image.words.length).toList ++ " words".toList) ++ '\n' ::
        ([] ++ '\n' :: (String.join (image.words.zipIdx.map fun (w, address) =>
          renderLine w address)).toList)) := by
    have title : "; trivm image\n".toList = "; trivm image".toList ++ ['\n'] := by decide
    have blank_line : " words\n\n".toList = " words".toList ++ ['\n', '\n'] := by decide
    show ("; trivm image\n" ++ ("; " ++ toString image.words.length ++ " words\n\n")
      ++ String.join _).toList = _
    simp only [String.toList_append, title, blank_line, List.append_assoc, List.cons_append,
      List.nil_append]
  have count : '\n' ∉
      "; ".toList ++ (toString image.words.length).toList ++ " words".toList := by
    rw [List.mem_append, List.mem_append]
    rintro ((mem | mem) | mem)
    · exact absurd mem (by decide)
    · exact Text.newline_not_mem_toString _ mem
    · exact absurd mem (by decide)
  rw [Text.significantLines_eq, header, Text.split_append, Text.split_append, Text.split_append,
    Text.split_of_not_mem (by decide), Text.split_of_not_mem count, Text.split_nil,
    List.singleton_append, List.singleton_append, List.singleton_append,
    Text.numbered_cons_of_blank (by decide), Text.numbered_cons_of_blank rfl,
    Text.numbered_cons_of_blank rfl, numbered_lines]

theorem readLines_append {lines : List Text.Line} {words : List Word} {count : Nat}
    (h : lines.map Text.Line.text = words.map fun w => w.text.toList)
    (fits : count + words.length ≤ maxWords) (done : List Word) (rest : List Text.Line) :
    readLines count done (lines ++ rest) =
      readLines (count + words.length) (words.reverse ++ done) rest := by
  induction words generalizing lines count done with
  | nil =>
    obtain rfl := List.map_eq_nil_iff.mp h
    rfl
  | cons w words ih =>
    obtain ⟨line, lines, rfl, text, below⟩ := List.map_eq_cons_iff.mp h
    rw [List.length_cons] at fits
    rw [List.cons_append, readLines, text, String.ofList_toList, Word.parse_text]
    simp only [if_neg (show ¬ count = maxWords by omega)]
    rw [ih below (by omega), List.length_cons, List.reverse_cons, List.append_assoc,
      List.singleton_append, Nat.add_right_comm, Nat.add_assoc]

theorem readLines_eq_ok {lines : List Text.Line} {words : List Word}
    (h : lines.map Text.Line.text = words.map fun w => w.text.toList)
    (fits : words.length ≤ maxWords) : readLines 0 [] lines = .ok words := by
  have room : 0 + words.length ≤ maxWords := by omega
  have read := readLines_append h room [] []
  rwa [List.append_nil, List.append_nil, readLines, List.reverse_reverse] at read

/-- **Reading back**: an image that is not too long is found again in its text. -/
theorem parse_render {image : Image} (h : image.words.length ≤ maxWords) :
    parse image.render = .ok image := by
  rw [parse, significantLines_render, readLines_eq_ok (map_text_wordLines 3 image.words) h]
  rfl

end Image

/-! ### Memory -/

namespace Memory

/-- The cells from an address on are filled with words. -/
theorem written_fill (m : Memory) {i : Nat} {words : List Word}
    (h : i + words.length ≤ Word.count) :
    m.Written ⟨fill m.cells i words⟩ (i - Word.limit) words := by
  induction words generalizing m i with
  | nil => exact .refl _ _
  | cons w words ih =>
    rw [List.length_cons] at h
    have here := Word.toInt_wrap_of_le (v := (i : Int) - Word.limit)
      (by simp only [Word.limit]; omega) (by simp only [Word.limit, Word.count] at *; omega)
    have slot : (Memory.slot (.wrap ((i : Int) - Word.limit))).val = i := by
      simp only [Memory.slot]
      omega
    have stored : m.cells.setIfInBounds i w =
        (m.write (.wrap ((i : Int) - Word.limit)) w).cells := by
      simp only [write, slot]
      ext j hj
      rw [Vector.getElem_setIfInBounds, Vector.getElem_set]
    have first := Written.write m (.wrap ((i : Int) - Word.limit)) w
    rw [here] at first
    have rest := ih (m.write (.wrap ((i : Int) - Word.limit)) w) (i := i + 1) (by omega)
    have next : ((i + 1 : Nat) : Int) - Word.limit = (i : Int) - Word.limit + [w].length := by
      rw [List.length_singleton]
      omega
    rw [next] at rest
    rw [fill, stored]
    exact first.append rest

theorem install_eq_ok (m : Memory) (a : Word) {words : List Word}
    (h : a.toInt + words.length ≤ Word.limit + 1) :
    ∃ m', m.install a.toInt words = .ok m' ∧ m.Written m' a.toInt words := by
  have low := a.neg_limit_le_toInt
  have first : ((slot a).val : Int) = a.toInt + Word.limit := by
    simp only [slot]
    omega
  have fits : (slot a).val + words.length ≤ Word.count := by
    simp only [Word.limit, Word.count] at *
    omega
  refine ⟨⟨fill m.cells (slot a).val words⟩, ?_, ?_⟩
  · rw [install, slot?_toInt]
    simp only
    rw [if_neg (by omega)]
  · have written := m.written_fill fits
    rw [first, add_sub_cancel_right] at written
    exact written

end Memory

/-! ### Programs -/

namespace Program

def image (p : Program) : Image :=
  .ofMemory p.memory p.info.length

/-- An image keeps a program, and so does its text. -/
structure KeptByImage (p : Program) : Prop where
  words : p.image.words = p.words
  parse : Image.parse p.image.render = .ok p.image
  toMemory : p.image.toMemory = .ok p.memory

namespace LaidOut

variable {source : List Char} {p : Program} {bs : List Block}

theorem words_image (h : p.LaidOut source bs) : p.image.words = p.words := by
  have fits := h.fits
  have region := p.memory.region_toInt .zero (n := p.info.length) (by rw [Word.toInt_zero]; omega)
  have all : min p.info.length Image.maxWords = p.info.length := by
    simp only [Word.limit, Image.maxWords] at *
    omega
  rw [Word.toInt_zero] at region
  rw [Program.words, region, image, Image.ofMemory, all]
  simp only [zero_add]

theorem keptByImage (h : p.LaidOut source bs) : p.KeptByImage := by
  have fits := h.fits
  have words := h.words_image
  have length : p.image.words.length = p.info.length := by
    rw [words, h.words_eq, h.length_words]
  refine ⟨words, Image.parse_render ?_, ?_⟩
  · rw [length, Image.maxWords]
    simp only [Word.limit] at fits
    omega
  · have room : Word.zero.toInt + p.image.words.length ≤ Word.limit + 1 := by
      rw [Word.toInt_zero, length]
      omega
    obtain ⟨m, installed, written⟩ := Memory.empty.install_eq_ok .zero room
    rw [Word.toInt_zero] at installed written
    rw [words, h.words_eq] at written
    rw [Image.toMemory, installed, written.unique h.memory]

end LaidOut

end Program

end TernaryMachine
