import Mathlib.Logic.Pairwise
import TernaryMachine.Proofs.Connectives
/-! # Pressing and releasing fields

A field is *pressed* by combining it with `+` everywhere under `max`, and *released* by combining
it with `-` everywhere under `min`.  So a word holds the state of as many buttons as there are
fields apart from each other in it.

* **One event** sets the trits of its field and leaves the others (`Toggle.exists_apply`).
* **Many events.**  `Shows` says what is left of events in a word: the last one of each field, and
  beside their fields what was there at first.  One more event keeps this (`Shows.append`), so all
  events in any order do (`exists_shows`). -/

namespace TernaryMachine

/-! ### One event -/

/-- What happens to a field. -/
inductive Toggle where
  | press
  | release
deriving DecidableEq, Repr

namespace Toggle

/-- The trit that the field is filled with. -/
def level : Toggle → Trit
  | press => .plus
  | release => .minus

def op : Toggle → AluOp
  | press => .max
  | release => .min

/-- The word with the level at every position. -/
def operand (t : Toggle) : Word :=
  ⟨List.replicate 9 t.level, rfl⟩

/-- Presses or releases a field of a word. -/
def apply (t : Toggle) (f : Field) (w : Word) : Except AluError Word :=
  t.op.applyWithin w t.operand f.start f.width

theorem digitAt_operand (t : Toggle) (k : Fin 9) : t.operand.digitAt k = t.level := by
  apply Word.digitAt_eq_of_getElem?
  rw [Word.digits, operand, List.reverse_replicate, List.getElem?_replicate_of_lt k.isLt]

theorem connective_level (t : Toggle) :
    ∃ f, t.op.connective? = some f ∧ ∀ a, f a t.level = t.level := by
  cases t with
  | press => exact ⟨Trit.max, rfl, fun a => by cases a <;> rfl⟩
  | release => exact ⟨Trit.min, rfl, fun a => by cases a <;> rfl⟩

theorem exists_apply (t : Toggle) {f : Field} (some_trit : 0 < f.width) (w : Word) :
    ∃ w', t.apply f w = .ok w' ∧
      ∀ k, w'.digitAt k = if k ∈ f then t.level else w.digitAt k := by
  obtain ⟨g, connective, level⟩ := t.connective_level
  obtain ⟨w', done, digits⟩ := AluOp.exists_applyWithin connective some_trit f.inside w t.operand
  refine ⟨w', done, fun k => ?_⟩
  rw [digits, digitAt_operand, level]
  rfl

end Toggle

/-! ### Many events -/

/-- Something that happens to one of several fields. -/
structure FieldEvent (ι : Type) where
  field : ι
  toggle : Toggle

namespace FieldEvent

variable {ι : Type} {fields : ι → Field} {w w' : Word} {events : List (FieldEvent ι)}

/-- Presses and releases fields of a word one after the other. -/
def applyAll (fields : ι → Field) (w : Word) (events : List (FieldEvent ι)) :
    Except AluError Word :=
  events.foldlM (fun w e => e.toggle.apply (fields e.field) w) w

theorem applyAll_append (before : applyAll fields w events = .ok w') (e : FieldEvent ι) :
    applyAll fields w (events ++ [e]) = e.toggle.apply (fields e.field) w' := by
  rw [applyAll] at before
  rw [applyAll, List.foldlM_append, before]
  show (e.toggle.apply (fields e.field) w' >>= pure) = _
  exact bind_pure _

variable [DecidableEq ι]

/-- What happened to a field last. -/
def last? (events : List (FieldEvent ι)) (i : ι) : Option Toggle :=
  (events.reverse.find? fun e => e.field = i).map FieldEvent.toggle

theorem last?_append (events : List (FieldEvent ι)) (e : FieldEvent ι) (i : ι) :
    last? (events ++ [e]) i = if e.field = i then some e.toggle else last? events i := by
  rw [last?, List.reverse_append, List.reverse_singleton, List.singleton_append]
  split
  · next same => rw [List.find?_cons_of_pos (by simpa using same), Option.map_some]
  · next other => rw [List.find?_cons_of_neg (by simpa using other), last?]

/-- What is left in a word of events that began with another. -/
structure Shows (fields : ι → Field) (w : Word) (events : List (FieldEvent ι)) (w' : Word) :
    Prop where
  touched {i : ι} (some_event : ∃ e ∈ events, e.field = i) :
    ∃ t, last? events i = some t ∧ ∀ k ∈ fields i, w'.digitAt k = t.level
  untouched {k : Fin 9} (outside : ∀ e ∈ events, k ∉ fields e.field) :
    w'.digitAt k = w.digitAt k

theorem shows_nil (fields : ι → Field) (w : Word) : Shows fields w [] w where
  touched := by simp
  untouched _ := rfl

/-- **One more event** sets its own field, and no other field has a position in common with it. -/
theorem Shows.append (disjoint : Pairwise fun i j => (fields i).Disjoint (fields j))
    (h : Shows fields w events w') (e : FieldEvent ι) {w'' : Word}
    (digits : ∀ k, w''.digitAt k =
      if k ∈ fields e.field then e.toggle.level else w'.digitAt k) :
    Shows fields w (events ++ [e]) w'' where
  touched {i} some_event := by
    rw [last?_append]
    by_cases same : e.field = i
    · refine ⟨e.toggle, if_pos same, fun k mem => ?_⟩
      rw [digits, if_pos (same ▸ mem)]
    · obtain ⟨e', mem, here⟩ := some_event
      have earlier : e' ∈ events := by
        rcases List.mem_append.mp mem with earlier | now
        · exact earlier
        · exact absurd (List.mem_singleton.mp now ▸ here) same
      obtain ⟨t, last, levels⟩ := h.touched ⟨e', earlier, here⟩
      refine ⟨t, (if_neg same).trans last, fun k mem => ?_⟩
      rw [digits, if_neg ((disjoint same).not_mem mem), levels k mem]
  untouched {k} outside := by
    rw [digits, if_neg (outside e (by simp)), h.untouched fun e' mem => outside e' (by simp [mem])]

/-- **Buttons**: events of fields apart from each other can come in any order, and each field
shows its own last event, whatever there was before and whatever happens to the others. -/
theorem exists_shows (fields : ι → Field) (some_trit : ∀ i, 0 < (fields i).width)
    (disjoint : Pairwise fun i j => (fields i).Disjoint (fields j)) (w : Word)
    (events : List (FieldEvent ι)) :
    ∃ w', applyAll fields w events = .ok w' ∧ Shows fields w events w' := by
  induction events using List.reverseRec with
  | nil => exact ⟨w, rfl, shows_nil fields w⟩
  | append_singleton events e ih =>
    obtain ⟨mid, before, shows⟩ := ih
    obtain ⟨w', done, digits⟩ := e.toggle.exists_apply (some_trit e.field) mid
    exact ⟨w', (applyAll_append before e).trans done, shows.append disjoint e digits⟩

/-- The first three or the last three positions of a word. -/
def ends (last : Bool) : Field :=
  ⟨if last then 6 else 0, 3, by cases last <;> decide⟩

/-- Two buttons at the ends of a word, pressed and released in turns: the first one stays pressed
and the second one does not, and the three trits between them stay as they were. -/
theorem exists_shows_ends :
    ∃ w', applyAll ends (.wrap 1234) [⟨true, .press⟩, ⟨false, .release⟩, ⟨true, .release⟩,
        ⟨false, .press⟩] = .ok w' ∧
      (∀ k ∈ ends false, w'.digitAt k = .plus) ∧ (∀ k ∈ ends true, w'.digitAt k = .minus) ∧
      ∀ k : Fin 9, 3 ≤ k → k < 6 → w'.digitAt k = (Word.wrap 1234).digitAt k := by
  obtain ⟨w', done, shows⟩ := exists_shows ends (by decide) (by unfold Pairwise; decide)
    (.wrap 1234) [⟨true, .press⟩, ⟨false, .release⟩, ⟨true, .release⟩, ⟨false, .press⟩]
  obtain ⟨first, pressed, left⟩ := shows.touched (i := false) ⟨⟨false, .press⟩, by simp, rfl⟩
  obtain ⟨second, released, right⟩ := shows.touched (i := true) ⟨⟨true, .press⟩, by simp, rfl⟩
  cases pressed
  cases released
  refine ⟨w', done, left, right, fun k low high => shows.untouched ?_⟩
  decide +revert

end FieldEvent

end TernaryMachine
