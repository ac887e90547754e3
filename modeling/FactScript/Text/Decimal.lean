/-!
Runs of decimal digits and the numbers that they denote.
-/
namespace FactScript

def Text.isDigits (digits : String) : Bool :=
  !digits.toList.isEmpty && digits.toList.all Char.isDigit

def decimalValue (digits : List Char) : Nat :=
  digits.foldl (fun n c => 10 * n + (c.toNat - '0'.toNat)) 0

/-- The text is a run of digits that denotes a number of 64 bits. -/
def fitsWord (digits : String) : Bool :=
  Text.isDigits digits && decimalValue digits.toList < Nat.pow 2 64

/-- A whole part has no superfluous leading zero. -/
def isWholePart (digits : String) : Bool :=
  !(digits.length > 1 && digits.toList.head? == some '0') && fitsWord digits

end FactScript
