import FactScript.Lexeme.Basic
import FactScript.Text.Blank

/-!
The characters of identifiers. The language does not say which they are; what it takes for granted
about them is that words, numbers, symbols and blank space can be told apart and that the reserved
words are words.
-/
namespace FactScript

/-- The characters that begin words, besides the low line, and those that words go on with. -/
class Alphabet where
  isStart : Char → Bool
  isContinue : Char → Bool
  isContinue_of_isStart {c : Char} : isStart c = true → isContinue c = true
  isContinue_lowLine : isContinue '_' = true
  isStart_of_isAlpha {c : Char} : c.isAlpha = true → isStart c = true
  isStart_of_isDigit {c : Char} : c.isDigit = true → isStart c = false
  isContinue_of_mem_chars {s : Symbol} {c : Char} : c ∈ s.chars → isContinue c = false
  isBlank_of_isContinue {c : Char} : isContinue c = true → Text.isBlank c = false

namespace Text

variable [Alphabet] {c : Char}

def isIdentifierStart (c : Char) : Bool := c == '_' || Alphabet.isStart c

def isIdentifierContinue (c : Char) : Bool := Alphabet.isContinue c

theorem isIdentifierContinue_of_start (h : isIdentifierStart c = true) :
    isIdentifierContinue c = true := by
  rw [isIdentifierStart, Bool.or_eq_true, beq_iff_eq] at h
  rcases h with rfl | h
  · exact Alphabet.isContinue_lowLine
  · exact Alphabet.isContinue_of_isStart h

theorem isDigit_of_start (h : isIdentifierStart c = true) : c.isDigit = false := by
  rw [isIdentifierStart, Bool.or_eq_true, beq_iff_eq] at h
  rcases h with rfl | h
  · rfl
  · rw [Bool.eq_false_iff]
    intro hd
    rw [Alphabet.isStart_of_isDigit hd] at h
    cases h

end Text

end FactScript
