import TernaryMachine.CommandLine.Disk
import TernaryMachine.Proofs.Table
/-! # Files that are written and read

A file that is written is read back (`Disk.read_write`), and a file at another place is as it was
(`Disk.read_write_of_ne`).  The reason is that a file is only ever written into a folder that is
there (`isFolder_of_locate`), so that the same folders are there afterwards and every path leads
where it led before (`toOption_locate_write`). -/

namespace TernaryMachine

namespace Disk

variable {d d' : Disk} {path other name content text : String} {folder file : List String}
  {slash slash' : Bool}

/-! ### Folders -/

theorem isFolder_iff : d.isFolder folder = true ↔
    folder <+: d.folder ∨
      ∃ file ∈ d.files.names, folder.length < file.length ∧ folder <+: file := by
  simp [isFolder, Table.names]

theorem isFolder_of_around {outer : List String} (h : d.isFolder folder = true)
    (around : outer <+: folder) : d.isFolder outer = true := by
  rw [isFolder_iff] at h ⊢
  rcases h with inside | ⟨file, mem, shorter, inside⟩
  · exact .inl (around.trans inside)
  · exact .inr ⟨file, mem, Nat.lt_of_le_of_lt around.length_le shorter, around.trans inside⟩

theorem isFolder_insert (h : d.isFolder folder = true) (name content : String)
    (other : List String) :
    ({ d with files := d.files.insert (folder ++ [name]) content } : Disk).isFolder other =
      d.isFolder other := by
  rw [Bool.eq_iff_iff, isFolder_iff, isFolder_iff]
  simp only [Table.mem_names_insert]
  constructor
  · rintro (inside | ⟨file, rfl | mem, shorter, inside⟩)
    · exact .inl inside
    · rw [List.length_append, List.length_singleton] at shorter
      exact isFolder_iff.mp (isFolder_of_around h
        (List.prefix_of_prefix_length_le inside (List.prefix_append _ _) (by omega)))
    · exact .inr ⟨file, mem, shorter, inside⟩
  · rintro (inside | ⟨file, mem, shorter, inside⟩)
    · exact .inl inside
    · exact .inr ⟨file, .inr mem, shorter, inside⟩

/-! ### Walking -/

theorem walk_cons (d : Disk) (slash : Bool) (folder : List String) (name : String)
    (rest : List String) :
    d.walk slash folder (name :: rest) =
      if name = "." then
        d.walk slash folder rest
      else if name = ".." then
        d.walk slash folder.dropLast rest
      else if d.isFolder (folder ++ [name]) then
        d.walk slash (folder ++ [name]) rest
      else if rest.isEmpty then
        .ok (.entry folder name slash)
      else if isTooLong name then
        .error .nameTooLong
      else if (d.files.find? (folder ++ [name])).isSome then
        .error .notDirectory
      else
        .error .notFound := by
  by_cases here : name = "."
  · rw [if_pos here, here, walk]
  · by_cases up : name = ".."
    · rw [if_neg here, if_pos up, up, walk]
    · rw [if_neg here, if_neg up, walk]
      · exact here
      · exact up

/-- Where a path leads depends on the folders that are there, not on the files in them; why it leads
nowhere may depend on the files. -/
theorem toOption_walk_congr (same : ∀ folder, d'.isFolder folder = d.isFolder folder) (slash : Bool)
    (folder names : List String) :
    (d'.walk slash folder names).toOption = (d.walk slash folder names).toOption := by
  induction names generalizing folder with
  | nil => rfl
  | cons name rest ih =>
    rw [walk_cons, walk_cons, same]
    split
    · exact ih folder
    · split
      · exact ih folder.dropLast
      · split
        · exact ih (folder ++ [name])
        · split
          · rfl
          · split
            · rfl
            · split <;> split <;> rfl

/-- A walk ends in a folder that is there. -/
theorem isFolder_of_walk {start names : List String} (h : d.isFolder start = true)
    (leads : d.walk slash start names = .ok (.entry folder name slash')) :
    d.isFolder folder = true := by
  induction names generalizing start with
  | nil => cases leads
  | cons next rest ih =>
    rw [walk_cons] at leads
    split at leads
    · exact ih h leads
    · split at leads
      · exact ih (isFolder_of_around h (List.dropLast_prefix _)) leads
      · split at leads
        · next inner => exact ih inner leads
        · split at leads
          · cases leads
            exact h
          · split at leads
            · cases leads
            · split at leads
              · cases leads
              · cases leads

theorem isFolder_of_locate (leads : d.locate path = .ok (.entry folder name slash)) :
    d.isFolder folder = true := by
  rw [locate] at leads
  split at leads
  · cases leads
  · split at leads
    · cases leads
    · refine isFolder_of_walk ?_ leads
      rw [isFolder_iff]
      split
      · exact .inl List.nil_prefix
      · exact .inl (List.prefix_refl _)

/-! ### Writing and reading -/

theorem write_eq_ok_iff : d.write path content = .ok d' ↔
    ∃ folder name, d.locate path = .ok (.entry folder name false) ∧ isTooLong name = false ∧
      d' = { d with files := d.files.insert (folder ++ [name]) content } := by
  rw [write]
  cases d.locate path with
  | error e => simp
  | ok location =>
    cases location with
    | folder => simp
    | entry folder name slash =>
      cases slash with
      | true => simp
      | false =>
        constructor
        · intro h
          dsimp only at h
          split at h
          · cases h
          · next short =>
            cases h
            exact ⟨folder, name, rfl, Bool.not_eq_true _ ▸ short, rfl⟩
        · rintro ⟨_, _, leads, short, rfl⟩
          cases leads
          simp only [short]
          rfl

theorem read_eq_ok_iff : d.read path = .ok content ↔
    ∃ folder name, d.locate path = .ok (.entry folder name false) ∧ isTooLong name = false ∧
      d.files.find? (folder ++ [name]) = some content := by
  rw [read]
  cases d.locate path with
  | error e => simp
  | ok location =>
    cases location with
    | folder => simp
    | entry folder name slash =>
      dsimp only
      cases long : isTooLong name with
      | true => simp [long]
      | false =>
        cases found : d.files.find? (folder ++ [name]) with
        | none => simp [found]
        | some content =>
          cases slash with
          | true => simp
          | false => simp [long, found]

/-- After a write every path leads where it led before. -/
theorem toOption_locate_write (h : d.write path content = .ok d') (other : String) :
    (d'.locate other).toOption = (d.locate other).toOption := by
  obtain ⟨folder, name, leads, -, rfl⟩ := write_eq_ok_iff.mp h
  have same := isFolder_insert (isFolder_of_locate leads) name content
  rw [locate, locate]
  split
  · rfl
  · split
    · rfl
    · exact toOption_walk_congr same _ _ _

theorem locate_write_eq_ok_iff (h : d.write path content = .ok d') {location : Location} :
    d'.locate other = .ok location ↔ d.locate other = .ok location := by
  have same := toOption_locate_write h other
  cases before : d.locate other with
  | error e =>
    cases after : d'.locate other with
    | error e' => simp
    | ok there => simp [before, after, Except.toOption] at same
  | ok here =>
    cases after : d'.locate other with
    | error e' => simp [before, after, Except.toOption] at same
    | ok there => simpa [before, after, Except.toOption] using congrArg (· = some location) same

theorem locate_ne_of_write (h : d.write path content = .ok d')
    (apart : d.locate other ≠ d.locate path) : d'.locate path ≠ d'.locate other := by
  obtain ⟨folder, name, leads, -, -⟩ := write_eq_ok_iff.mp h
  rw [(locate_write_eq_ok_iff h).mpr leads]
  intro same
  exact apart (((locate_write_eq_ok_iff h).mp same.symm).trans leads.symm)

/-- **Reading back**: a file has the content that was written. -/
theorem read_write (h : d.write path content = .ok d') : d'.read path = .ok content := by
  obtain ⟨folder, name, leads, short, rfl⟩ := write_eq_ok_iff.mp h
  refine read_eq_ok_iff.mpr ⟨folder, name, (locate_write_eq_ok_iff h).mpr leads, short, ?_⟩
  rw [Table.find?_insert, if_pos rfl]

theorem read_write_of_ne (h : d.write path content = .ok d') (before : d.read other = .ok text)
    (apart : d.locate other ≠ d.locate path) : d'.read other = .ok text := by
  obtain ⟨folder, name, leads, -, rfl⟩ := write_eq_ok_iff.mp h
  obtain ⟨folder', name', leads', short, found⟩ := read_eq_ok_iff.mp before
  refine read_eq_ok_iff.mpr ⟨folder', name', (locate_write_eq_ok_iff h).mpr leads', short, ?_⟩
  have ne : folder' ++ [name'] ≠ folder ++ [name] := by
    intro same
    obtain ⟨rfl, last⟩ := List.append_inj' same rfl
    obtain rfl := List.singleton_inj.mp last
    exact apart (leads'.trans leads.symm)
  rw [Table.find?_insert, if_neg ne, found]

end Disk

/-! ### Sessions -/

/-- Whether a path leads to one of the two channels. -/
def Disk.IsChannel (d : Disk) (path : String) : Prop :=
  d.locate path = .ok (.entry ["dev"] "stdout" false) ∨
    d.locate path = .ok (.entry ["dev"] "stderr" false)

/-- What is written to a channel does not reach the disk. -/
theorem Session.writeFile_cases {s s' : Session} {path content : String}
    (h : s.writeFile path content = .ok s') :
    s.disk.IsChannel path ∧ s'.disk = s.disk ∨ s.disk.write path content = .ok s'.disk := by
  rw [writeFile] at h
  split at h
  · next leads =>
    cases h
    exact .inl ⟨.inl leads, rfl⟩
  · next leads =>
    cases h
    exact .inl ⟨.inr leads, rfl⟩
  · split at h
    · next written =>
      cases h
      exact .inr written
    · cases h

end TernaryMachine
