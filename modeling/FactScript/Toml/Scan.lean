/-!
Reading the words of a TOML document: blanks, comments, strings and keys.
-/
namespace FactScript.Toml

/-- Takes characters off the front of a text, or fails. -/
abbrev Scan := StateT (List Char) Option

namespace Scan

def peek : Scan (Option Char) := fun cs => some (cs.head?, cs)

def atEnd : Scan Bool := fun cs => some (cs.isEmpty, cs)

def satisfy (p : Char → Bool) : Scan Char := fun cs =>
  match cs with
  | c :: rest => if p c then some (c, rest) else none
  | [] => none

def char (c : Char) : Scan Unit := do let _ ← satisfy (· == c)

/-- Takes this text if it comes next, and tells whether it did. -/
def skip (text : List Char) : Scan Bool := fun cs =>
  if text.isPrefixOf cs then some (true, cs.drop text.length) else some (false, cs)

def takeWhile (p : Char → Bool) : Scan (List Char) := fun cs =>
  some (cs.takeWhile p, cs.dropWhile p)

/-- Repeats a step that yields some values and says whether to go on, at most `bound` times. -/
def loopUpTo {α : Type} (step : Scan (List α × Bool)) : Nat → Scan (List α)
  | 0 => failure
  | n + 1 => do
    let (values, more) ← step
    if more then return values ++ (← loopUpTo step n) else return values

/-- Repeats a step as long as it says to go on. Every such step takes a character, so the number of
steps is bounded by the length of the text. -/
def loop {α : Type} (step : Scan (List α × Bool)) : Scan (List α) := fun cs =>
  loopUpTo step (cs.length + 1) cs

end Scan

open Scan

/-- A character that may stand in comments and strings: no control character but the tab. -/
def isPlain (c : Char) : Bool := c == '\t' || (32 ≤ c.toNat && c.toNat ≠ 127)

def isSpace (c : Char) : Bool := c == ' ' || c == '\t'

def spaces : Scan Unit := do let _ ← takeWhile isSpace

/-- Takes the end of a line if it comes next, and tells whether it did. -/
def newline : Scan Bool := do
  if ← skip ['\n'] then return true
  skip ['\r', '\n']

def comment : Scan Unit := do
  if ← skip ['#'] then let _ ← takeWhile isPlain

def lineEnd : Scan Unit := do
  spaces
  comment
  unless ← newline do
    unless ← atEnd do failure

/-- Blanks, comments and line ends. -/
def gap : Scan Unit := do
  let _ ← loop (α := Unit) do
    spaces
    comment
    return ([], ← newline)

def hexValue? (c : Char) : Option Nat :=
  if c.isDigit then some (c.toNat - 48)
  else if 'a' ≤ c && c ≤ 'f' then some (c.toNat - 87)
  else if 'A' ≤ c && c ≤ 'F' then some (c.toNat - 55)
  else none

/-- A code point given by this many hexadecimal digits. -/
def codePoint : (digits : Nat) → (value : Nat) → Scan Char
  | 0, value => if Nat.isValidChar value then return Char.ofNat value else failure
  | n + 1, value => do
    match hexValue? (← satisfy fun _ => true) with
    | some d => codePoint n (16 * value + d)
    | none => failure

def escaped : Scan Char := do
  match ← satisfy fun _ => true with
  | 'b' => return Char.ofNat 8
  | 't' => return '\t'
  | 'n' => return '\n'
  | 'f' => return Char.ofNat 12
  | 'r' => return '\r'
  | '"' => return '"'
  | '\\' => return '\\'
  | 'u' => codePoint 4 0
  | 'U' => codePoint 8 0
  | _ => failure

def apostrophe : Char := Char.ofNat 39

/-- The rest of a string on one line, after its opening quote. -/
def stringRest (quote : Char) (escapes : Bool) : Scan String := do
  let cs ← loop do
    if ← skip [quote] then return ([], false)
    if escapes then
      if ← skip ['\\'] then return ([← escaped], true)
    return ([← satisfy isPlain], true)
  return String.ofList cs

/-- A backslash at the end of a line drops the line end and the blanks after it. -/
def foldedLine : Scan Unit := do
  spaces
  unless ← newline do failure
  let _ ← loop (α := Unit) do
    spaces
    return ([], ← newline)

/-- The rest of a string that may run over several lines, after its three opening quotes. Up to two
quotes may stand right before the three that close it. -/
def longStringRest (quote : Char) (escapes : Bool) : Scan String := do
  let _ ← newline
  let cs ← loop do
    if ← newline then return (['\n'], true)
    let quotes ← takeWhile (· == quote)
    if 5 < quotes.length then failure
    else if 3 ≤ quotes.length then return (quotes.drop 3, false)
    else if 0 < quotes.length then return (quotes, true)
    if escapes then
      if ← skip ['\\'] then
        return (← (do foldedLine; pure []) <|> (do return [← escaped]), true)
    return ([← satisfy isPlain], true)
  return String.ofList cs

def shortString? : Scan (Option String) := do
  if ← skip ['"'] then return some (← stringRest '"' true)
  if ← skip [apostrophe] then return some (← stringRest apostrophe false)
  return none

def string? : Scan (Option String) := do
  if ← skip (List.replicate 3 '"') then return some (← longStringRest '"' true)
  if ← skip (List.replicate 3 apostrophe) then return some (← longStringRest apostrophe false)
  shortString?

def isBareKey (c : Char) : Bool := c.isAlphanum || c == '-' || c == '_'

/-- One part of a key, with the blanks around it. -/
def keyPart : Scan String := do
  spaces
  let part ← match ← shortString? with
    | some s => pure s
    | none => do
      let cs ← takeWhile isBareKey
      if cs.isEmpty then failure else pure (String.ofList cs)
  spaces
  return part

/-- The largest number of parts of a key, and one more than the deepest nesting of values. -/
def limit : Nat := 80

/-- A key: its parts are joined by dots, and the last one is set apart. -/
def key : Scan (List String × String) := do
  let parts ← loop do
    let part ← keyPart
    return ([part], ← skip ['.'])
  if limit ≤ parts.length then failure
  match parts.getLast? with
  | some last => return (parts.dropLast, last)
  | none => failure

end FactScript.Toml
