import FactScript.Toml.Basic
import FactScript.Toml.Scan

/-!
Numbers, dates and truth values of TOML.
-/
namespace FactScript.Toml

open Scan

def digit : Scan Char := satisfy Char.isDigit

/-- Digits of a kind, at least one; a low line may stand between two of them and is left out. -/
def digitRun (p : Char → Bool) : Scan (List Char) := do
  let first ← satisfy p
  let others ← loop do
    match ← peek with
    | some '_' => do
      char '_'
      return ([← satisfy p], true)
    | some c => if p c then return ([← satisfy p], true) else return ([], false)
    | none => return ([], false)
  return first :: others

def valueIn (base : Nat) (digits : List Char) : Nat :=
  digits.foldl (fun n c => base * n + (hexValue? c).getD 0) 0

/-- A sign before a number; none counts as plus. -/
def isNegative : Scan Bool := do
  if ← skip ['-'] then return true
  let _ ← skip ['+']
  return false

/-- The digits of a whole number without superfluous leading zeros. -/
def wholeDigits : Scan (List Char) := do
  if ← skip ['0'] then return ['0'] else digitRun Char.isDigit

/-- Whole numbers are limited to 64 bits with a sign. -/
def inRange (n : Int) : Scan Node :=
  if -Nat.pow 2 63 ≤ n ∧ n < Nat.pow 2 63 then return .integer n else failure

def integer : Scan Node := do
  if ← skip ['0', 'x'] then
    inRange (valueIn 16 (← digitRun fun c => (hexValue? c).isSome))
  else if ← skip ['0', 'o'] then
    inRange (valueIn 8 (← digitRun fun c => '0' ≤ c && c ≤ '7'))
  else if ← skip ['0', 'b'] then
    inRange (valueIn 2 (← digitRun fun c => c == '0' || c == '1'))
  else
    let negative ← isNegative
    let n := valueIn 10 (← wholeDigits)
    inRange (if negative then -n else n)

/-- The least number that is rounded to infinity in binary floating point of double precision. -/
def overflowBound : Nat := Nat.pow 2 1024 - Nat.pow 2 970

/-- The decimal `digits · 10^exponent` is too large for a floating-point number. -/
def overflows (digits : List Char) (exponent : Int) : Bool :=
  let digits := digits.dropWhile (· == '0')
  let magnitude := digits.length + exponent
  if digits.isEmpty || magnitude < 300 then false
  else if 320 < magnitude then true
  else if 0 ≤ exponent then overflowBound ≤ valueIn 10 digits * Nat.pow 10 exponent.toNat
  else overflowBound * Nat.pow 10 (-exponent).toNat ≤ valueIn 10 digits

def exponent? : Scan (Option Int) := do
  if (← skip ['e']) || (← skip ['E']) then
    let negative ← isNegative
    let n := valueIn 10 (← digitRun Char.isDigit)
    return some (if negative then -n else n)
  return none

def fraction? : Scan (Option (List Char)) := do
  if ← skip ['.'] then return some (← digitRun Char.isDigit)
  return none

/-- A number with a fraction, an exponent or both, or one of the words for infinity and no number. A
positive number may not be too large. -/
def float : Scan Node := do
  let negative ← isNegative
  if (← skip ['i', 'n', 'f']) || (← skip ['n', 'a', 'n']) then return .float
  let whole ← wholeDigits
  let fraction ← fraction?
  let exponent ← exponent?
  if fraction.isNone && exponent.isNone then failure
  let digits := whole ++ fraction.getD []
  let scale := exponent.getD 0 - (fraction.getD []).length
  if !negative && overflows digits scale then failure
  return .float

/-- A number of exactly this many digits, between bounds. -/
def field (width least greatest : Nat) : Scan Nat := do
  let digits ← (List.replicate width ()).mapM fun _ => digit
  let n := valueIn 10 digits
  if least ≤ n && n ≤ greatest then return n else failure

def daysInMonth (year month : Nat) : Nat :=
  if month = 2 then
    if year % 4 = 0 && (year % 100 ≠ 0 || year % 400 = 0) then 29 else 28
  else if [4, 6, 9, 11].contains month then 30
  else 31

def date : Scan Unit := do
  let year ← field 4 0 9999
  char '-'
  let month ← field 2 1 12
  char '-'
  let _ ← field 2 1 (daysInMonth year month)

/-- A time of day; a leap second is allowed. -/
def time : Scan Unit := do
  let _ ← field 2 0 23
  char ':'
  let _ ← field 2 0 59
  char ':'
  let _ ← field 2 0 60
  if ← skip ['.'] then
    let _ ← digit
    let _ ← takeWhile Char.isDigit

def zone : Scan Unit := do
  if (← skip ['Z']) || (← skip ['z']) then return
  if (← skip ['+']) || (← skip ['-']) then
    let _ ← field 2 0 23
    char ':'
    let _ ← field 2 0 59
  else failure

def datetime : Scan Node :=
  (do
    date
    (do
      let _ ← satisfy fun c => c == 'T' || c == 't' || c == ' '
      time
      zone <|> pure ()) <|> pure ()
    return .datetime) <|>
  (do
    time
    return .datetime)

def boolean : Scan Node := do
  if ← skip "true".toList then return .boolean true
  if ← skip "false".toList then return .boolean false
  failure

/-- A value that is neither a string nor made of other values. -/
def scalar : Scan Node := datetime <|> float <|> integer <|> boolean

end FactScript.Toml
