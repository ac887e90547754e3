import FactScript.Text.Decimal
import Mathlib.Data.List.Induction
import Mathlib.Data.Nat.Digits.Defs

/-!
The literals of numbers (`Numeral`), told by their digits and values and apart from any parser.
-/
namespace FactScript

namespace Numeral

def value (digits : String) : ℕ :=
  Nat.ofDigits 10 (digits.toList.reverse.map fun c => c.toNat - '0'.toNat)

/-- What may stand before the point: `0`, or digits that do not begin with `0`. -/
structure Whole (text : String) : Prop where
  digits : Text.isDigits text = true
  leading : text = "0" ∨ text.toList.head? ≠ some '0'
  bounded : value text < 2 ^ 64

structure Fraction (text : String) : Prop where
  digits : Text.isDigits text = true
  bounded : value text < 2 ^ 64

end Numeral

/-- A whole part alone, or with a point and a fraction. -/
inductive Numeral : String → Prop
  | whole {whole : String} : Numeral.Whole whole → Numeral whole
  | fraction {whole fraction : String} : Numeral.Whole whole → Numeral.Fraction fraction →
      Numeral (whole ++ "." ++ fraction)

namespace Numeral

theorem decimalValue_eq_value (digits : String) : decimalValue digits.toList = value digits := by
  rw [value]
  induction digits.toList using List.reverseRecOn with
  | nil => rfl
  | append_singleton cs c ih =>
    rw [decimalValue] at ih ⊢
    rw [List.foldl_append, List.foldl_cons, List.foldl_nil, ih, List.reverse_append,
      List.reverse_singleton, List.singleton_append, List.map_cons, Nat.ofDigits_cons, Nat.add_comm]

theorem fitsWord_iff {text : String} : fitsWord text = true ↔ Fraction text := by
  rw [fitsWord, decimalValue_eq_value, Bool.and_eq_true, decide_eq_true_eq]
  exact ⟨fun h => ⟨h.1, h.2⟩, fun h => ⟨h.digits, h.bounded⟩⟩

theorem leading_iff {text : String} (h : Text.isDigits text = true) :
    (!(text.length > 1 && text.toList.head? == some '0')) = true ↔
      text = "0" ∨ text.toList.head? ≠ some '0' := by
  cases htext : text.toList with
  | nil => simp [Text.isDigits, htext] at h
  | cons c cs =>
    have hzero : text = "0" ↔ c = '0' ∧ cs = [] := by
      rw [← String.toList_inj, htext]
      simp
    rw [hzero, ← String.length_toList, htext]
    cases cs with
    | nil => simp [em]
    | cons d ds => simp

theorem isWholePart_iff {text : String} : isWholePart text = true ↔ Whole text := by
  rw [isWholePart, Bool.and_eq_true, fitsWord_iff]
  constructor
  · rintro ⟨hleading, hdigits, hbounded⟩
    exact ⟨hdigits, (leading_iff hdigits).mp hleading, hbounded⟩
  · intro h
    exact ⟨(leading_iff h.digits).mpr h.leading, h.digits, h.bounded⟩

end Numeral

end FactScript
