import Mathlib.Data.List.Basic
import TernaryMachine.Table
/-! # Tables as maps

`Table.find?` is what a table says of a key, and `find?_insert` what it says after an insertion:
the new value of the key that was inserted, and what it said before of every other key.  Its
*names* are the keys it says something of (`isSome_find?_iff`).

The order of the keys matters for one thing: with it no key occurs twice (`Ascending.nodup`), so
that the length of a table is the number of its names. -/

namespace TernaryMachine

namespace Table

variable {κ α : Type} [DecidableEq κ] [LT κ] [DecidableLT κ] {key k : κ} {value : α}
  {table : Table κ α} {entry : κ × α}

def names (table : Table κ α) : List κ :=
  table.map Prod.fst

/-! ### Finding -/

omit [LT κ] [DecidableLT κ] in
theorem mem_of_find?_eq_some (h : table.find? key = some value) : (key, value) ∈ table := by
  induction table with
  | nil => cases h
  | cons entry table ih =>
    obtain ⟨k, v⟩ := entry
    rw [find?] at h
    split at h
    · next e =>
      cases h
      rw [e]
      exact List.mem_cons_self
    · exact List.mem_cons_of_mem _ (ih h)

omit [LT κ] [DecidableLT κ] in
theorem isSome_find?_iff : (table.find? key).isSome = true ↔ key ∈ table.names := by
  induction table with
  | nil => simp [find?, names]
  | cons entry table ih =>
    rw [find?, names, List.map_cons, List.mem_cons]
    split
    · next e => simp [e]
    · next e =>
      rw [ih, names]
      simp [e]

omit [LT κ] [DecidableLT κ] in
theorem find?_eq_none_iff : table.find? key = none ↔ key ∉ table.names := by
  rw [← isSome_find?_iff, Option.not_isSome_iff_eq_none]

/-! ### Inserting -/

theorem mem_of_mem_insert (h : entry ∈ table.insert key value) :
    entry = (key, value) ∨ entry ∈ table := by
  induction table with
  | nil => exact .inl (List.mem_singleton.mp h)
  | cons other table ih =>
    obtain ⟨k, v⟩ := other
    rw [insert] at h
    split at h
    · rcases List.mem_cons.mp h with h | h
      · exact .inl h
      · exact .inr (List.mem_cons_of_mem _ h)
    · split at h
      · exact List.mem_cons.mp h
      · rcases List.mem_cons.mp h with h | h
        · exact .inr (h ▸ List.mem_cons_self)
        · exact (ih h).imp_right (List.mem_cons_of_mem _)

theorem find?_insert (key k : κ) (value : α) (table : Table κ α) :
    (table.insert key value).find? k = if k = key then some value else table.find? k := by
  induction table with
  | nil => rfl
  | cons other table ih =>
    obtain ⟨l, v⟩ := other
    rw [insert]
    by_cases same : key = l
    · rw [if_pos same, find?, find?, same]
      split
      · rfl
      · rfl
    · rw [if_neg same]
      split
      · rw [find?]
      · rw [find?, find?, ih]
        by_cases here : k = l
        · rw [if_pos here, if_pos here, if_neg (here ▸ Ne.symm same)]
        · rw [if_neg here, if_neg here]

theorem mem_names_insert : k ∈ (table.insert key value).names ↔ k = key ∨ k ∈ table.names := by
  rw [← isSome_find?_iff, find?_insert, ← isSome_find?_iff]
  split
  · next e => simp [e]
  · next e => simp [e]

/-! ### Order -/

def Ascending (table : Table κ α) : Prop :=
  table.Pairwise fun entry other => entry.1 < other.1

omit [DecidableEq κ] [DecidableLT κ] in
theorem ascending_nil : Ascending ([] : Table κ α) :=
  List.Pairwise.nil

omit [DecidableEq κ] [DecidableLT κ] in
theorem Ascending.nodup [Std.Irrefl (α := κ) (· < ·)] (h : table.Ascending) :
    table.names.Nodup := by
  refine List.pairwise_map.mpr (h.imp ?_)
  intro entry other lt same
  rw [same] at lt
  exact Std.Irrefl.irrefl _ lt

section

variable [Trans (α := κ) (β := κ) (γ := κ) (· < ·) (· < ·) (· < ·)]

theorem ascending_insert [Std.Trichotomous (α := κ) (· < ·)] (h : table.Ascending) (key : κ)
    (value : α) : (table.insert key value).Ascending := by
  induction table with
  | nil => exact List.pairwise_singleton _ _
  | cons other table ih =>
    obtain ⟨k, v⟩ := other
    obtain ⟨first, rest⟩ := List.pairwise_cons.mp h
    rw [insert]
    by_cases same : key = k
    · rw [if_pos same, same]
      exact List.pairwise_cons.mpr ⟨first, rest⟩
    · rw [if_neg same]
      by_cases lt : key < k
      · rw [if_pos lt]
        refine List.pairwise_cons.mpr ⟨fun entry mem => ?_, h⟩
        rcases List.mem_cons.mp mem with rfl | mem
        · exact lt
        · exact Trans.trans lt (first entry mem)
      · rw [if_neg lt]
        refine List.pairwise_cons.mpr ⟨fun entry mem => ?_, ih rest⟩
        rcases mem_of_mem_insert mem with rfl | mem
        · by_contra not_lt
          exact same (Std.Trichotomous.trichotomous _ _ lt not_lt)
        · exact first entry mem

variable [Std.Irrefl (α := κ) (· < ·)]

omit [DecidableLT κ] in
theorem Ascending.find?_eq_none_of_lt {v : α} (h : Ascending ((k, v) :: table)) (lt : key < k) :
    find? key ((k, v) :: table) = none := by
  rw [find?_eq_none_iff, names, List.map_cons, List.mem_cons, List.mem_map]
  rintro (same | ⟨entry, mem, same⟩)
  · exact Std.Irrefl.irrefl _ (same ▸ lt)
  · have above : k < entry.1 := (List.pairwise_cons.mp h).1 entry mem
    exact Std.Irrefl.irrefl _ (same ▸ Trans.trans lt above)

theorem length_insert (h : table.Ascending) (key : κ) (value : α) :
    (table.insert key value).length =
      if (table.find? key).isSome then table.length else table.length + 1 := by
  induction table with
  | nil => rfl
  | cons other table ih =>
    obtain ⟨k, v⟩ := other
    rw [insert]
    by_cases same : key = k
    · rw [if_pos same, find?, if_pos same]
      rfl
    · rw [if_neg same]
      by_cases lt : key < k
      · rw [if_pos lt, h.find?_eq_none_of_lt lt]
        rfl
      · rw [if_neg lt, find?, if_neg same, List.length_cons, ih (List.pairwise_cons.mp h).2]
        split
        · rfl
        · rfl

end

end Table

end TernaryMachine
