import TernaryMachine.CommandLine.Path
/-! # Names of images

The image of a source file is not taken for a source file: a path that ends with `.asm` does not end
so after its extension is replaced by `tim` (`endsWith_withExtension`).  For `..asm` there is
nothing to extend and the path becomes `..`, which does not end with `.asm` either. -/

namespace TernaryMachine

namespace Path

/-- A new extension stands at the end, unless the path has no name to extend; all is written
backwards. -/
theorem setExtension_cases (extension path : List Char) :
    setExtension extension path = path ∧ (splitName path).1 ∈ [[], ['.'], ['.', '.']] ∨
      ∃ rest, setExtension extension path = extension ++ '.' :: rest := by
  unfold setExtension
  split
  · next name => exact .inl ⟨rfl, by simp [name]⟩
  · next name => exact .inl ⟨rfl, by simp [name]⟩
  · next name => exact .inl ⟨rfl, by simp [name]⟩
  · exact .inr ⟨_, by rw [List.append_assoc, List.cons_append]⟩

theorem splitName_asm (rest : List Char) :
    (splitName ('m' :: 's' :: 'a' :: '.' :: rest)).1 =
      'm' :: 's' :: 'a' :: '.' :: rest.takeWhile fun c => c ≠ '/' := by
  simp [splitName, dropTail]

/-- The extension of such a name, unless its point comes first. -/
theorem splitExtension_asm (rest : List Char) :
    (splitExtension ('m' :: 's' :: 'a' :: '.' :: rest)).1 =
      if rest.isEmpty then [] else ['m', 's', 'a'] := by
  cases rest with
  | nil => rfl
  | cons c cs => rfl

theorem endsWith_withExtension {path : String} (h : endsWith path ".asm" = true) :
    endsWith (withExtension path "tim") ".asm" = false := by
  obtain ⟨front, ends⟩ := List.isSuffixOf_iff_suffix.mp h
  have backwards : path.toList.reverse = 'm' :: 's' :: 'a' :: '.' :: front.reverse := by
    rw [← ends, List.reverse_append]
    rfl
  have cut : ∃ cut, withExtension path "tim" =
      String.ofList (setExtension ['m', 'i', 't'] cut).reverse ∧
        ((splitName cut).1 ∈ [[], ['.'], ['.', '.']] → cut.head? = some '.') := by
    refine ⟨_, rfl, ?_⟩
    rw [backwards, splitName_asm, splitExtension_asm]
    split
    · next bare =>
      rw [List.length_nil, List.drop_zero, splitName_asm]
      simp
    · simp
  obtain ⟨cut, extended, point⟩ := cut
  rw [endsWith, List.isSuffixOf, extended, String.toList_ofList, String.toList_ofList,
    List.reverse_reverse]
  rcases setExtension_cases ['m', 'i', 't'] cut with ⟨same, special⟩ | ⟨rest, other⟩
  · obtain ⟨tail, rfl⟩ := List.head?_eq_some_iff.mp (point special)
    rw [same]
    rfl
  · rw [other]
    rfl

end Path

end TernaryMachine
