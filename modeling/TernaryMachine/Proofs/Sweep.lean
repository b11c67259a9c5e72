import TernaryMachine.Proofs.Listing
/-! # Listings word by word

A listing can be made by a loop that knows nothing but an address: it reads the instruction there,
takes the words of the instruction as a slice of the list, and moves the address past them.

* **Turns.**  `Progress.turn` is one turn of the loop, and fails if its slice runs past the end of
  the list.  That never happens, and a turn always moves on (`Progress.turn_cases`), so the loop
  ends and has made the lines of the listing (`Progress.loop_eq`).
* **Words.**  The lines of a listing stand one after the other and each shows the words from its
  address on, so all of them together show every word once (`Covers.flatMap_words`).  The words
  can be read off the last column of the lines, where they stand between blanks
  (`ListingLine.split_column`). -/

namespace TernaryMachine

/-! ### Lines -/

namespace ListingLine

/-- The last column of a line: its words, with a blank between them. -/
def column (l : ListingLine) : String :=
  " ".intercalate (l.words.map Word.text)

theorem render_eq (l : ListingLine) :
    l.render =
      s!"{Text.zeroPadded 5 l.address}: {Text.blankPadded 24 l.text} ; {l.column}\n" :=
  rfl

theorem split_column {l : ListingLine} (some_word : l.words ≠ []) :
    Text.split ' ' l.column.toList = l.words.map fun w => w.text.toList := by
  have column : l.column.toList =
      List.intercalate [' '] (l.words.map fun w => w.text.toList) := by
    rw [ListingLine.column, String.toList_intercalate, List.map_map]
    rfl
  rw [column, Text.split_intercalate]
  · simpa using some_word
  · intro piece mem blank
    obtain ⟨w, -, rfl⟩ := List.mem_map.mp mem
    exact absurd (w.plain_text.not_blank ' ' blank) (by decide)

theorem Shows.width {l : ListingLine} {words : List Word} (h : l.Shows words) :
    l.words.length = 1 ∨ l.words.length = 2 := by
  obtain ⟨w, -, reading⟩ := h.reading
  have width := Reading.width_of w words[l.address + 1]?
  rw [reading] at width
  exact width.imp_right And.left

theorem Shows.words_ne_nil {l : ListingLine} {words : List Word} (h : l.Shows words) :
    l.words ≠ [] := by
  intro none
  have width := h.width
  rw [none] at width
  exact absurd width (by decide)

end ListingLine

namespace Listing

variable {words : List Word}

/-! ### The loop -/

/-- The words of a list from one place up to another, unless that is past the end. -/
def slice? (words : List Word) (start stop : Nat) : Option (List Word) :=
  if start ≤ stop ∧ stop ≤ words.length then some ((words.drop start).take (stop - start)) else none

/-- A sweep takes the words of one instruction, which are there, and goes on behind them. -/
theorem sweepOnto_cons (done : List ListingLine) (address : Nat) (first : Word)
    (rest : List Word) {reading : Reading} (read : Reading.of first rest.head? = reading) :
    0 < reading.width ∧ reading.width ≤ (first :: rest).length ∧
      sweepOnto done address (first :: rest) =
        sweepOnto (⟨address, reading.text, (first :: rest).take reading.width⟩ :: done)
          (address + reading.width) ((first :: rest).drop reading.width) := by
  subst read
  cases rest with
  | nil =>
    obtain one | ⟨-, follows⟩ := Reading.width_of first none
    · rw [List.head?_nil, one]
      exact ⟨Nat.one_pos, le_refl 1, rfl⟩
    · exact absurd rfl follows
  | cons next rest =>
    rw [List.head?_cons, sweepOnto]
    obtain one | ⟨two, -⟩ := Reading.width_of first (some next)
    · rw [one]
      exact ⟨Nat.one_pos, Nat.le_add_left 1 _, rfl⟩
    · rw [two]
      exact ⟨Nat.two_pos, Nat.le_add_left 2 _, rfl⟩

/-- A listing in the making: the address that is reached, and the lines up to there, last one
first. -/
structure Progress where
  address : Nat
  lines : List ListingLine
deriving DecidableEq

namespace Progress

variable {p : Progress}

def start : Progress :=
  ⟨0, []⟩

/-- Lists the instruction at the address and moves past it. -/
def turn (words : List Word) (p : Progress) : Option Progress := do
  let first ← words[p.address]?
  let reading := Reading.of first words[p.address + 1]?
  let taken ← slice? words p.address (p.address + reading.width)
  return ⟨p.address + reading.width, ⟨p.address, reading.text, taken⟩ :: p.lines⟩

/-- Takes turns while there are words left.  It fails if a turn fails, or if there are words left
after the given number of turns. -/
def loop (words : List Word) : Nat → Progress → Option Progress
  | 0, p => if p.address < words.length then none else some p
  | turns + 1, p =>
    if p.address < words.length then (p.turn words).bind (loop words turns) else some p

/-- The lines there will be, last one first, if a sweep goes on from here. -/
def swept (words : List Word) (p : Progress) : List ListingLine :=
  sweepOnto p.lines p.address (words.drop p.address)

/-- Where no words are left, the lines are all there. -/
theorem eq_of_stop (stop : p.address = words.length) : p = ⟨words.length, p.swept words⟩ := by
  rw [swept, stop, List.drop_length, sweepOnto, ← stop]

/-- **A turn** takes its slice within the list, moves on, and leaves the same lines to come. -/
theorem turn_cases (inside : p.address < words.length) :
    ∃ q, p.turn words = some q ∧ p.address < q.address ∧ q.address ≤ words.length ∧
      q.swept words = p.swept words := by
  have here := List.getElem?_eq_getElem inside
  have whole := List.drop_eq_getElem_cons inside
  have next : (words.drop (p.address + 1)).head? = words[p.address + 1]? := List.head?_drop
  generalize words[p.address] = first at here whole
  generalize read : Reading.of first words[p.address + 1]? = reading
  obtain ⟨pos, fits, step⟩ :=
    sweepOnto_cons p.lines p.address first (words.drop (p.address + 1)) (next ▸ read)
  rw [← whole] at fits step
  rw [List.length_drop] at fits
  have sliced : slice? words p.address (p.address + reading.width) =
      some ((words.drop p.address).take reading.width) := by
    rw [slice?, if_pos ⟨by omega, by omega⟩, Nat.add_sub_cancel_left]
  have turned : p.turn words = some ⟨p.address + reading.width,
      ⟨p.address, reading.text, (words.drop p.address).take reading.width⟩ :: p.lines⟩ := by
    simp only [turn, here, Option.bind_eq_bind, Option.bind_some, read, sliced]
    rfl
  refine ⟨_, turned, Nat.lt_add_of_pos_right pos, ?_, ?_⟩
  · show p.address + reading.width ≤ words.length
    omega
  · rw [swept, swept, step, List.drop_drop]

/-- So the loop ends at the end of the list, in no more turns than there are words left, and the
lines are those of the sweep. -/
theorem loop_eq {turns : Nat} (within : p.address ≤ words.length)
    (enough : words.length ≤ p.address + turns) :
    loop words turns p = some ⟨words.length, p.swept words⟩ := by
  induction turns generalizing p with
  | zero => rw [loop, if_neg (by omega), ← eq_of_stop (by omega)]
  | succ turns ih =>
    rw [loop]
    split
    · next inside =>
      obtain ⟨q, turned, later, within', same⟩ := turn_cases inside
      rw [turned, Option.bind_some, ih within' (by omega), same]
    · next outside => rw [← eq_of_stop (by omega)]

theorem loop_start {turns : Nat} (enough : words.length ≤ turns) :
    loop words turns .start = some ⟨words.length, (sweep words).reverse⟩ := by
  rw [loop_eq (Nat.zero_le _) (enough.trans (Nat.le_add_left _ _)), swept, start, List.drop_zero,
    sweep, List.reverse_reverse]

end Progress

/-! ### The lines -/

theorem covers_sweep (words : List Word) : Covers [] words (sweep words) := by
  obtain ⟨lines, swept, covers⟩ := sweepOnto_eq [] 0 [] words rfl
  rwa [sweep, swept, List.append_nil, List.reverse_reverse]

namespace Covers

variable {lines : List ListingLine}

theorem tiles_zero (h : Covers [] words lines) :
    Tiles (fun l : ListingLine => (l.address : Int)) (fun l => l.words.length) (0 : Nat) lines
      words.length := by
  simpa using h.tiles

theorem address_eq_sum {before after : List ListingLine} {l : ListingLine}
    (h : Covers [] words (before ++ l :: after)) :
    l.address = (before.map fun l => l.words.length).sum := by
  have := h.tiles_zero.address_eq_sum
  omega

theorem sum_widths (h : Covers [] words lines) :
    (lines.map fun l => l.words.length).sum = words.length := by
  have := h.tiles_zero.stop_eq_sum
  omega

theorem flatMap_words (h : Covers [] words lines) :
    lines.flatMap ListingLine.words = words := by
  have slices : ∀ l ∈ lines, l.words = (words.drop (l.address : Int).toNat).take l.words.length :=
    fun l mem => (h.shows l mem).words_eq
  rw [h.tiles_zero.flatMap_eq_slice slices, List.drop_zero, Nat.sub_zero, List.take_length]

theorem flatMap_columns (h : Covers [] words lines) :
    lines.flatMap (fun l => Text.split ' ' l.column.toList) =
      words.map fun w => w.text.toList := by
  have columns : ∀ l ∈ lines, Text.split ' ' l.column.toList =
      l.words.map fun w => w.text.toList :=
    fun l mem => ListingLine.split_column (h.shows l mem).words_ne_nil
  rw [List.flatMap_congr columns, ← List.map_flatMap, h.flatMap_words]

end Covers

/-- What the lines of a listing are to its words. -/
structure ShowsOnce (words : List Word) (lines : List ListingLine) : Prop where
  prints : Prints words lines
  rendered : ∀ l ∈ lines, l.render =
    s!"{Text.zeroPadded 5 l.address}: {Text.blankPadded 24 l.text} ; {l.column}\n"
  /-- No slice of the loop runs past the end, and it ends within as many turns as there are
  words. -/
  loop {turns : Nat} (enough : words.length ≤ turns) :
    Progress.loop words turns .start = some ⟨words.length, lines.reverse⟩
  /-- Each line has the text and the width that are read at its address, and that many words. -/
  shows : ∀ l ∈ lines, l.Shows words
  width : ∀ l ∈ lines, l.words.length = 1 ∨ l.words.length = 2
  sum_widths : (lines.map fun l => l.words.length).sum = words.length
  address {before after : List ListingLine} {l : ListingLine}
    (here : lines = before ++ l :: after) :
    l.address = (before.map fun l => l.words.length).sum
  words_eq : lines.flatMap ListingLine.words = words
  /-- The same from the text: the last columns of the lines, cut at the blanks. -/
  columns_eq : lines.flatMap (fun l => Text.split ' ' l.column.toList) =
    words.map fun w => w.text.toList

/-- **Listings** show every word once: the loop stays within the list and ends, and its lines are
all the words in order, each at the address that the widths before it add up to. -/
theorem sweep_showsOnce (words : List Word) : ShowsOnce words (sweep words) where
  prints := rfl
  rendered l _ := l.render_eq
  loop := Progress.loop_start
  shows := (covers_sweep words).shows
  width l mem := ((covers_sweep words).shows l mem).width
  sum_widths := (covers_sweep words).sum_widths
  address here := Covers.address_eq_sum (here ▸ covers_sweep words)
  words_eq := (covers_sweep words).flatMap_words
  columns_eq := (covers_sweep words).flatMap_columns

/-- A jump whose target is cut off is one word, and its slice stays within the list. -/
example : Progress.loop [.wrap 1944] 1 .start = some ⟨1, [⟨0, "??? o+o-ooooo", [.wrap 1944]⟩]⟩ := by
  decide +kernel

end Listing

end TernaryMachine
