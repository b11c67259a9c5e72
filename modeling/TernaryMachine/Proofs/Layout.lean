import TernaryMachine.Assembly.Layout
import TernaryMachine.Proofs.Result
import TernaryMachine.Proofs.Table
import TernaryMachine.Proofs.Word
/-! # Where statements stand

`Tiles address size start xs stop` says that blocks stand one after the other without gaps, from
`start` up to `stop`.  A scan keeps its statements so: `place_eq_ok_iff` says all that one more
line can do to a layout, and `Layout.Sound` is what every scan keeps (`Sound.scan`).  A label is
bound to the address of a statement, or to the end of the program while no statement follows it. -/

namespace TernaryMachine

/-! ### Tiles -/

/-- Blocks stand one after the other, the first at `start` and the last up to `stop`. -/
def Tiles {α : Type} (address : α → Int) (size : α → Nat) (start : Int) : List α → Int → Prop
  | [], stop => start = stop
  | x :: xs, stop => address x = start ∧ Tiles address size (start + size x) xs stop

namespace Tiles

variable {α β : Type} {address : α → Int} {size : α → Nat} {start stop : Int}

theorem append_iff {xs ys : List α} :
    Tiles address size start (xs ++ ys) stop ↔
      ∃ mid, Tiles address size start xs mid ∧ Tiles address size mid ys stop := by
  induction xs generalizing start with
  | nil => simp [Tiles]
  | cons x xs ih =>
    simp only [List.cons_append, Tiles, ih]
    constructor
    · rintro ⟨h, mid, hx, hy⟩
      exact ⟨mid, ⟨h, hx⟩, hy⟩
    · rintro ⟨mid, ⟨h, hx⟩, hy⟩
      exact ⟨h, mid, hx, hy⟩

theorem map_iff {f : β → α} {xs : List β} :
    Tiles address size start (xs.map f) stop ↔
      Tiles (fun x => address (f x)) (fun x => size (f x)) start xs stop := by
  induction xs generalizing start with
  | nil => rfl
  | cons x xs ih => rw [List.map_cons, Tiles, Tiles, ih]

/-- The sizes of the blocks matter, not how they are computed. -/
theorem congr_size {size' : α → Nat} {xs : List α} (same : ∀ x ∈ xs, size x = size' x)
    (h : Tiles address size start xs stop) : Tiles address size' start xs stop := by
  induction xs generalizing start with
  | nil => exact h
  | cons x xs ih =>
    refine ⟨h.1, ?_⟩
    rw [← same x (by simp)]
    exact ih (fun y hy => same y (by simp [hy])) h.2

theorem start_le_stop {xs : List α} (h : Tiles address size start xs stop) : start ≤ stop := by
  induction xs generalizing start with
  | nil => exact h.le
  | cons x xs ih =>
    have := ih h.2
    omega

theorem bounds {xs : List α} (h : Tiles address size start xs stop) {x : α} (hx : x ∈ xs) :
    start ≤ address x ∧ address x + size x ≤ stop := by
  obtain ⟨before, after, rfl⟩ := List.append_of_mem hx
  obtain ⟨mid, hb, hm, ha⟩ := append_iff.mp h
  have := hb.start_le_stop
  have := ha.start_le_stop
  omega

theorem exists_covering {xs : List α} (h : Tiles address size start xs stop) {a : Int}
    (lower : start ≤ a) (upper : a < stop) : ∃ x ∈ xs, address x ≤ a ∧ a < address x + size x := by
  induction xs generalizing start with
  | nil =>
    have stops : start = stop := h
    omega
  | cons x xs ih =>
    obtain ⟨here, rest⟩ := h
    by_cases within : a < start + size x
    · exact ⟨x, by simp, by omega, by omega⟩
    · obtain ⟨y, hy, covers⟩ := ih rest (by omega)
      exact ⟨y, by simp [hy], covers⟩

theorem stop_eq_sum {xs : List α} (h : Tiles address size start xs stop) :
    stop = start + (xs.map size).sum := by
  induction xs generalizing start with
  | nil =>
    rw [List.map_nil, List.sum_nil, Nat.cast_zero, add_zero]
    exact h.symm
  | cons x xs ih =>
    rw [List.map_cons, List.sum_cons, ih h.2]
    omega

theorem stop_eq_length {γ : Type} (words : α → List γ) {xs : List α}
    (h : Tiles address size start xs stop) (length : ∀ x ∈ xs, (words x).length = size x) :
    stop = start + (xs.flatMap words).length := by
  rw [h.stop_eq_sum, List.length_flatMap, List.map_congr_left length]

theorem address_eq_sum {before after : List α} {x : α}
    (h : Tiles address size start (before ++ x :: after) stop) :
    address x = start + (before.map size).sum := by
  obtain ⟨mid, front, here, -⟩ := append_iff.mp h
  rw [here, front.stop_eq_sum]

/-- Blocks that are each a slice of a list are one slice together. -/
theorem flatMap_eq_slice {γ : Type} {content : α → List γ} {whole : List γ} {low high : Nat}
    {xs : List α} (h : Tiles address size low xs high)
    (slices : ∀ x ∈ xs, content x = (whole.drop (address x).toNat).take (size x)) :
    xs.flatMap content = (whole.drop low).take (high - low) := by
  induction xs generalizing low with
  | nil =>
    have same : low = high := Int.natCast_inj.mp h
    rw [same, Nat.sub_self, List.take_zero, List.flatMap_nil]
  | cons x xs ih =>
    obtain ⟨here, rest⟩ := h
    obtain ⟨first, others⟩ := List.forall_mem_cons.mp slices
    rw [← Nat.cast_add] at rest
    have le := Int.ofNat_le.mp rest.start_le_stop
    rw [List.flatMap_cons, first, here, Int.toNat_natCast, ih rest others, ← List.drop_drop,
      ← List.take_add]
    congr 1
    omega

theorem pairwise {xs : List α} (h : Tiles address size start xs stop) :
    xs.Pairwise fun x y => address x + size x ≤ address y := by
  induction xs generalizing start with
  | nil => exact List.Pairwise.nil
  | cons x xs ih =>
    refine List.pairwise_cons.mpr ⟨fun y hy => ?_, ih h.2⟩
    rw [h.1]
    exact (h.2.bounds hy).1

/-- The first block past the address of a block begins where that block ends, and the last block
ends at the stop. -/
theorem find?_after {xs : List α} (h : Tiles address size start xs stop)
    (pos : ∀ x ∈ xs, 0 < size x) {x : α} (hx : x ∈ xs) :
    ((xs.find? fun y => address x < address y) = none ∧ stop = address x + size x) ∨
      ∃ y ∈ xs, (xs.find? fun y => address x < address y) = some y ∧
        address y = address x + size x := by
  obtain ⟨before, after, rfl⟩ := List.append_of_mem hx
  have front : (before.find? fun y => address x < address y) = none := by
    refine List.find?_eq_none.mpr fun y hy => ?_
    obtain ⟨-, -, cross⟩ := List.pairwise_append.mp h.pairwise
    have ends := cross y hy x (by simp)
    simp
    omega
  obtain ⟨mid, -, here, rest⟩ := append_iff.mp h
  have skip : ((before ++ x :: after).find? fun y => address x < address y) =
      after.find? fun y => address x < address y := by
    rw [List.find?_append, front, Option.none_or, List.find?_cons_of_neg (by simp)]
  rw [skip]
  cases after with
  | nil =>
    have stops : mid + size x = stop := rest
    exact .inl ⟨rfl, by omega⟩
  | cons y after =>
    have begins : address y = mid + size x := rest.1
    have past := pos x (by simp)
    exact .inr ⟨y, by simp, List.find?_cons_of_pos (by simp; omega), by omega⟩

theorem separate {xs : List α} (h : Tiles address size start xs stop) {x y : α} (hx : x ∈ xs)
    (hy : y ∈ xs) :
    x = y ∨ address x + size x ≤ address y ∨ address y + size y ≤ address x := by
  obtain ⟨before, after, rfl⟩ := List.append_of_mem hx
  obtain ⟨-, hp, cross⟩ := List.pairwise_append.mp h.pairwise
  rcases List.mem_append.mp hy with hb | ha
  · exact .inr (.inr (cross y hb x (by simp)))
  · rcases List.mem_cons.mp ha with e | ha
    · exact .inl e.symm
    · exact .inr (.inl ((List.pairwise_cons.mp hp).1 y ha))

end Tiles

/-! ### Scans -/

namespace Layout

def withLabel (l : Layout) (line : Nat) (name : String) (address : Word) : Layout :=
  { l with
    labels := l.labels.insert name address
    redeclared :=
      match l.labels.find? name with
      | some previous => ⟨line, name, previous, address⟩ :: l.redeclared
      | none => l.redeclared }

def withStatement (l : Layout) (line : Nat) (s : Statement) : Layout :=
  { l with
    length := l.length + s.words
    placed := ⟨l.length, line, s⟩ :: l.placed }

/-- What one more line does: it binds a label to the end of the layout, or appends a statement
there that still fits in memory. -/
theorem place_eq_ok_iff {l l' : Layout} {line : Text.Line} :
    l.place line = .ok l' ↔
      (∃ name address, Entry.parse line.text = .ok (.label name) ∧
          Word.toInt address = l.length ∧ l' = l.withLabel line.number name address) ∨
        ∃ s, Entry.parse line.text = .ok (.statement s) ∧
          (l.length + s.words : Nat) ≤ Word.limit + 1 ∧ l' = l.withStatement line.number s := by
  rw [place]
  cases Entry.parse line.text with
  | error fault => simp
  | ok entry =>
    cases entry with
    | label name =>
      simp only [declare, Except.ok.injEq, Entry.label.injEq, reduceCtorEq, false_and, exists_false,
        or_false]
      constructor
      · intro h
        split at h
        · cases h
        · next address bound =>
          cases h
          exact ⟨name, address, rfl, Word.ofInt_eq_ok_iff.mp bound, rfl⟩
      · rintro ⟨_, address, rfl, here, rfl⟩
        rw [Word.ofInt_eq_ok_iff.mpr here]
        rfl
    | statement s =>
      simp only [append, Except.ok.injEq, Entry.statement.injEq, reduceCtorEq, false_and,
        exists_false, false_or]
      constructor
      · intro h
        split at h
        · cases h
        · next fits =>
          cases h
          exact ⟨s, rfl, by omega, rfl⟩
      · rintro ⟨_, rfl, fits, rfl⟩
        rw [if_neg (by omega)]
        rfl

theorem scan_append_iff {l l' : Layout} {xs ys : List Text.Line} :
    l.scan (xs ++ ys) = ⟨l', none⟩ ↔
      ∃ mid, l.scan xs = ⟨mid, none⟩ ∧ mid.scan ys = ⟨l', none⟩ := by
  induction xs generalizing l with
  | nil => simp [scan]
  | cons line xs ih =>
    rw [List.cons_append, scan, scan]
    cases l.place line with
    | error fault => simp
    | ok next => exact ih

theorem scan_cons_iff {l l' : Layout} {line : Text.Line} {lines : List Text.Line} :
    l.scan (line :: lines) = ⟨l', none⟩ ↔
      ∃ mid, l.place line = .ok mid ∧ mid.scan lines = ⟨l', none⟩ := by
  rw [scan]
  cases l.place line with
  | error fault => simp
  | ok next => simp

/-- Lines that are laid out leave the rest to the lines after them. -/
theorem scan_append {l mid : Layout} {xs : List Text.Line} (h : l.scan xs = ⟨mid, none⟩)
    (ys : List Text.Line) : l.scan (xs ++ ys) = mid.scan ys := by
  induction xs generalizing l with
  | nil =>
    cases h
    rfl
  | cons line xs ih =>
    obtain ⟨next, placed, rest⟩ := scan_cons_iff.mp h
    rw [List.cons_append, scan, placed]
    exact ih rest

/-- What holds at first of a layout and the lines before, and is kept by every line, holds after a
scan. -/
theorem scan_induction {P : List Text.Line → Layout → Prop} {lines done : List Text.Line}
    {l l' : Layout}
    (step : ∀ done l line l', P done l → l.place line = .ok l' → P (done ++ [line]) l')
    (h : l.scan lines = ⟨l', none⟩) (init : P done l) : P (done ++ lines) l' := by
  induction lines generalizing l done with
  | nil =>
    cases h
    rw [List.append_nil]
    exact init
  | cons line lines ih =>
    obtain ⟨mid, placed, rest⟩ := scan_cons_iff.mp h
    rw [List.append_cons]
    exact ih rest (step done l line mid init placed)

theorem scan_invariant {P : Layout → Prop} {lines : List Text.Line} {l l' : Layout}
    (step : ∀ l line l', P l → l.place line = .ok l' → P l') (h : l.scan lines = ⟨l', none⟩)
    (init : P l) : P l' :=
  @scan_induction (fun _ m => P m) lines [] l l' (fun _ => step) h init

/-- What the layout of some of these lines keeps. -/
structure Sound (lines : List Text.Line) (l : Layout) : Prop where
  /-- The statements stand one after the other from address zero on. -/
  tiles : Tiles (fun p => (p.address : Int)) (fun p => p.statement.words) 0 l.placed.reverse
    l.length
  fits : (l.length : Int) ≤ Word.limit + 1
  /-- A label is bound to the end of the layout or to a statement. -/
  bound : ∀ name address, (name, address) ∈ l.labels →
    address.toInt = l.length ∨ ∃ p ∈ l.placed, address.toInt = p.address
  /-- Every statement is written on a line. -/
  written : ∀ p ∈ l.placed, ∃ line ∈ lines,
    line.number = p.line ∧ Entry.parse line.text = .ok (.statement p.statement)

namespace Sound

variable {lines : List Text.Line}

theorem empty (lines : List Text.Line) : Sound lines .empty where
  tiles := rfl
  fits := by decide
  bound name address h := by cases h
  written p h := by cases h

theorem place {l l' : Layout} {line : Text.Line} (sound : Sound lines l) (mem : line ∈ lines)
    (h : l.place line = .ok l') : Sound lines l' := by
  obtain ⟨name, address, parsed, here, rfl⟩ | ⟨s, parsed, fits, rfl⟩ := place_eq_ok_iff.mp h
  · refine ⟨sound.tiles, sound.fits, ?_, sound.written⟩
    intro other a hm
    rcases Table.mem_of_mem_insert hm with e | hm
    · cases e
      exact .inl here
    · exact sound.bound other a hm
  · refine ⟨?_, by exact_mod_cast fits, ?_, ?_⟩
    · rw [withStatement, List.reverse_cons, Tiles.append_iff]
      exact ⟨l.length, sound.tiles, rfl, by simp [Tiles]⟩
    · intro name a hm
      rcases sound.bound name a hm with e | ⟨p, hp, e⟩
      · exact .inr ⟨_, List.mem_cons_self, e⟩
      · exact .inr ⟨p, List.mem_cons_of_mem _ hp, e⟩
    · intro p hp
      rcases List.mem_cons.mp hp with rfl | hp
      · exact ⟨line, mem, rfl, parsed⟩
      · exact sound.written p hp

theorem scan {l l' : Layout} {rest : List Text.Line} (sound : Sound lines l)
    (sub : ∀ line ∈ rest, line ∈ lines) (h : l.scan rest = ⟨l', none⟩) : Sound lines l' := by
  induction rest generalizing l with
  | nil =>
    cases h
    exact sound
  | cons line rest ih =>
    obtain ⟨mid, placed, after⟩ := scan_cons_iff.mp h
    exact ih (sound.place (sub line (by simp)) placed) (fun other hm => sub other (by simp [hm]))
      after

theorem ofSource {source : List Char} {l : Layout} (h : Layout.ofSource source = ⟨l, none⟩) :
    Sound (Text.significantLines source) l :=
  (empty _).scan (fun _ hm => hm) h

end Sound

end Layout

end TernaryMachine
