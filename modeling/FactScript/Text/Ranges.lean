/-!
Sets of characters given by a table of code point ranges, both ends included.
-/
namespace FactScript.Text

abbrev Ranges := List (Nat × Nat)

def Ranges.has (ranges : Ranges) (c : Char) : Bool :=
  ranges.any fun r => r.1 ≤ c.toNat && c.toNat ≤ r.2

theorem Ranges.has_iff {ranges : Ranges} {c : Char} :
    ranges.has c = true ↔ ∃ r ∈ ranges, r.1 ≤ c.toNat ∧ c.toNat ≤ r.2 := by
  simp [Ranges.has]

theorem Ranges.has_eq_false_of_disjoint {rs rs' : Ranges} {c : Char}
    (h : rs.all (fun r => rs'.all fun r' => r.2 < r'.1 || r'.2 < r.1) = true)
    (hc : rs.has c = true) :
    rs'.has c = false := by
  rw [Bool.eq_false_iff, ne_eq, Ranges.has_iff]
  rintro ⟨r', hr', hlo', hhi'⟩
  obtain ⟨r, hr, hlo, hhi⟩ := Ranges.has_iff.mp hc
  have hapart := List.all_eq_true.mp (List.all_eq_true.mp h r hr) r' hr'
  simp only [Bool.or_eq_true, decide_eq_true_eq] at hapart
  omega

theorem isDigit_iff {c : Char} : c.isDigit = true ↔ 48 ≤ c.toNat ∧ c.toNat ≤ 57 := by
  simp [Char.isDigit, UInt32.le_iff_toNat_le]

theorem isAlpha_iff {c : Char} :
    c.isAlpha = true ↔ 65 ≤ c.toNat ∧ c.toNat ≤ 90 ∨ 97 ≤ c.toNat ∧ c.toNat ≤ 122 := by
  have halpha : c.isAlpha = (decide (c.val ≥ 'A'.val ∧ c.val ≤ 'Z'.val) ||
      (decide (c.val ≥ 'a'.val) && decide (c.val ≤ 'z'.val))) := rfl
  simp [halpha, UInt32.le_iff_toNat_le]

end FactScript.Text
