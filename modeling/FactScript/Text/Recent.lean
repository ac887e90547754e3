import FactScript.Text.Ranges

/-!
The characters of identifiers that version 18 of Unicode adds to those of version 17.
-/
namespace FactScript.Text

/-- New characters with the property XID_Start. -/
def recentStartRanges : Ranges :=
  [(0x558, 0x558), (0x58B, 0x58C), (0x208F, 0x208F), (0x209D, 0x209F), (0xA7DD, 0xA7DD),
   (0xA7E2, 0xA7E2), (0xAB6C, 0xAB6D), (0x12550, 0x12686), (0x16D80, 0x16D9D), (0x18E00, 0x19191),
   (0x1D6A6, 0x1D6A6), (0x2B81E, 0x2B81E), (0x3D000, 0x3FC3F)]

/-- New characters with the property XID_Continue, less those above. -/
def recentContinueRanges : Ranges :=
  [(0x5C8, 0x5C9), (0xB53, 0xB54), (0x1ADE, 0x1ADF), (0x1AEC, 0x1AF0), (0x10ECB, 0x10ECF),
   (0x10EF0, 0x10EF9), (0x11DF0, 0x11DF0), (0x16DA0, 0x16DA9), (0x1D127, 0x1D128),
   (0x1D250, 0x1D252), (0x1D25B, 0x1D25C), (0x1D25F, 0x1D25F), (0x1D280, 0x1D281)]

def isRecent (c : Char) : Bool := recentStartRanges.has c || recentContinueRanges.has c

end FactScript.Text
