import FactScript.Text.Ranges

/-!
The blank characters: those with the Unicode property White_Space.
-/
namespace FactScript.Text

def blankRanges : Ranges :=
  [(0x9, 0xD), (0x20, 0x20), (0x85, 0x85), (0xA0, 0xA0), (0x1680, 0x1680), (0x2000, 0x200A),
   (0x2028, 0x2029), (0x202F, 0x202F), (0x205F, 0x205F), (0x3000, 0x3000)]

def isBlank (c : Char) : Bool := blankRanges.has c

theorem isBlank_space : isBlank ' ' = true := by decide

end FactScript.Text
