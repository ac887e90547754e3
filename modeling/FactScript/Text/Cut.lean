/-!
Cutting a text at each occurrence of one character.
-/
namespace FactScript.Text

/-- The stretches between the occurrences of `sep`; a text without one is a single stretch. -/
def cut (sep : Char) : List Char → List (List Char)
  | [] => [[]]
  | c :: cs =>
    if c = sep then [] :: cut sep cs
    else
      match cut sep cs with
      | [] => [[c]]
      | part :: parts => (c :: part) :: parts

theorem cut_ne_nil (sep : Char) (cs : List Char) : cut sep cs ≠ [] := by
  cases cs with
  | nil => simp [cut]
  | cons c cs =>
    simp only [cut]
    split
    · simp
    · split <;> simp

/-- Joined again by `sep`, the stretches give the text. -/
theorem intercalate_cut (sep : Char) (cs : List Char) : [sep].intercalate (cut sep cs) = cs := by
  induction cs with
  | nil => rfl
  | cons c cs ih =>
    have ne := cut_ne_nil sep cs
    cases h : cut sep cs with
    | nil => exact absurd h ne
    | cons part parts =>
      rw [h] at ih
      by_cases hc : c = sep
      · simp only [cut, hc, if_true, h]
        simp only [List.intercalate, List.intersperse] at ih ⊢
        simp [ih]
      · simp only [cut, hc, if_false, h]
        cases parts with
        | nil => simpa [List.intercalate, List.intersperse] using ih
        | cons q qs => simpa [List.intercalate, List.intersperse] using ih

/-- A part without `sep` belongs to the first stretch. -/
theorem cut_append_of_notMem {sep : Char} {u cs part : List Char} {parts : List (List Char)}
    (hu : sep ∉ u) (h : cut sep cs = part :: parts) : cut sep (u ++ cs) = (u ++ part) :: parts := by
  induction u with
  | nil => exact h
  | cons c u ih =>
    have hc : c ≠ sep := fun heq => hu (by simp [heq])
    have htail := ih fun hmem => hu (List.mem_cons_of_mem c hmem)
    simp [cut, hc, htail]

theorem cut_of_notMem {sep : Char} {cs : List Char} (h : sep ∉ cs) : cut sep cs = [cs] := by
  have hnil : cut sep [] = [[]] := rfl
  simpa using cut_append_of_notMem h hnil

theorem cut_append {sep : Char} {part : List Char} (h : sep ∉ part) (rest : List Char) :
    cut sep (part ++ sep :: rest) = part :: cut sep rest := by
  have hrest : cut sep (sep :: rest) = [] :: cut sep rest := by simp [cut]
  simpa using cut_append_of_notMem h hrest

/-- A character of a stretch is one of the text, and it is not `sep`. -/
theorem mem_of_mem_cut {sep c : Char} {cs part : List Char} (hpart : part ∈ cut sep cs)
    (hc : c ∈ part) :
    c ∈ cs ∧ c ≠ sep := by
  induction cs generalizing part with
  | nil =>
    rw [cut, List.mem_singleton] at hpart
    simp [hpart] at hc
  | cons d cs ih =>
    by_cases hd : d = sep
    · have hcut : cut sep (d :: cs) = [] :: cut sep cs := by simp [cut, hd]
      rw [hcut, List.mem_cons] at hpart
      rcases hpart with rfl | hpart
      · cases hc
      · have hmem := ih hpart hc
        exact ⟨List.mem_cons_of_mem d hmem.1, hmem.2⟩
    · obtain ⟨first, parts, hfirst⟩ := List.exists_cons_of_ne_nil (cut_ne_nil sep cs)
      have hcut : cut sep (d :: cs) = (d :: first) :: parts := by simp [cut, hd, hfirst]
      rw [hfirst] at ih
      rw [hcut, List.mem_cons] at hpart
      rcases hpart with rfl | hpart
      · rcases List.mem_cons.mp hc with rfl | hc
        · exact ⟨List.mem_cons_self, hd⟩
        · have hmem := ih List.mem_cons_self hc
          exact ⟨List.mem_cons_of_mem d hmem.1, hmem.2⟩
      · have hmem := ih (List.mem_cons_of_mem first hpart) hc
        exact ⟨List.mem_cons_of_mem d hmem.1, hmem.2⟩

end FactScript.Text
