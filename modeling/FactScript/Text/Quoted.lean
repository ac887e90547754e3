import FactScript.Text.Combining
import FactScript.Text.Recent

/-!
Strings in double quotes, as they stand in log lines. Characters that would not show, or would
attach to the one before them, or are too new to be shown everywhere, are written by their code
points.
-/
namespace FactScript.Text

def hexDigits (n : Nat) : List Char := Nat.toDigits 16 n

def byCodePoint (c : Char) : List Char := ['\\', 'u', '\x7b'] ++ hexDigits c.toNat ++ ['\x7d']

/-- The character itself might not be seen. -/
def isHidden (c : Char) : Bool :=
  c.toNat < 32 || c.toNat = 127 || isCombining c || isFiller c || isRecent c

def quotedChar (c : Char) : List Char :=
  if c = '"' || c = '\\' then ['\\', c]
  else if c = '\n' then ['\\', 'n']
  else if c = '\r' then ['\\', 'r']
  else if c = '\t' then ['\\', 't']
  else if c.toNat = 0 then ['\\', '0']
  else if isHidden c then byCodePoint c
  else [c]

def quoted (s : String) : String := String.ofList ('"' :: s.toList.flatMap quotedChar ++ ['"'])

def quotedList (ss : List String) : String := "[" ++ ", ".intercalate (ss.map quoted) ++ "]"

end FactScript.Text
