import FactScript.Lexeme.Alphabet
import FactScript.Text.Identifier

/-!
Programs are written in the letters of Unicode.
-/
namespace FactScript

theorem Symbol.isXidContinue_of_mem_chars {s : Symbol} {c : Char} (h : c ∈ s.chars) :
    Text.isXidContinue c = false := by
  have hall : ∀ s ∈ all, s.chars.all (!Text.isXidContinue ·) = true := by decide +kernel
  simpa using List.all_eq_true.mp (hall s (mem_all s)) c h

instance unicode : Alphabet where
  isStart := Text.isXidStart
  isContinue := Text.isXidContinue
  isContinue_of_isStart := Text.isXidContinue_of_isXidStart
  isContinue_lowLine := Text.isXidContinue_lowLine
  isStart_of_isAlpha := Text.isXidStart_of_isAlpha
  isStart_of_isDigit := Text.isXidStart_of_isDigit
  isContinue_of_mem_chars := Symbol.isXidContinue_of_mem_chars
  isBlank_of_isContinue := Text.isBlank_of_isXidContinue

end FactScript
