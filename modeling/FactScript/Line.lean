import FactScript.Lexeme.Scan
import FactScript.Position
import FactScript.Text.Blank
import FactScript.Text.Cut

/-!
The lines of a program. Carriage returns are dropped and tabs stand for a fixed number of spaces; a
line of blank characters only is no line of the program but still counts in the numbering.
-/
namespace FactScript

structure Token where
  lexeme : Lexeme
  span : Span
  deriving DecidableEq, Repr

/-- Why a text has no block structure. -/
inductive LexError
  | unexpectedChar (c : Char) (position : Position)
  | unexpectedIndent (position : Position)
  | unterminatedBlock (position : Position)
  deriving DecidableEq, Repr

namespace LexError

def position : LexError → Position
  | unexpectedChar _ p => p
  | unexpectedIndent p => p
  | unterminatedBlock p => p

def message : LexError → String
  | unexpectedChar c p => s!"{p.text}: unexpected character '{c}'"
  | unexpectedIndent p =>
    s!"{p.text}: unexpected indentation (line is not inside a block opened by ':')"
  | unterminatedBlock p => s!"{p.text}: block header ends with ':' but has no indented body"

end LexError

/-- The tokens of a stretch of text that begins at `p`; between them stand spaces only. -/
def Token.scan [Alphabet] (p : Position) (cs : List Char) : Except LexError (List Token) :=
  match cs with
  | [] => .ok []
  | c :: rest =>
    if c = ' ' then Token.scan (p.after [' ']) rest
    else
      match _h : Lexeme.take? (c :: rest) with
      | none => .error (.unexpectedChar c p)
      | some (lexeme, rest') =>
        let last := p.after lexeme.chars
        (⟨lexeme, p, last⟩ :: ·) <$> Token.scan last rest'
termination_by cs.length
decreasing_by
  · simp
  · exact Lexeme.take?_length _h

/-- A line that is not blank: its indentation and its tokens, the first of which stands at
`position`. -/
structure Line where
  indent : Nat
  tokens : List Token
  position : Position
  deriving DecidableEq, Repr

namespace Line

/-- The last token is a colon. -/
def opensBlock (l : Line) : Bool :=
  l.tokens.getLast?.any fun t => t.lexeme == .symbol .colon

def scan [Alphabet] (p : Position) (cs : List Char) : Except LexError Line :=
  let spaces := cs.takeWhile (· == ' ')
  let first := p.after spaces
  return ⟨spaces.length, ← Token.scan first (cs.dropWhile (· == ' ')), first⟩

/-- Reads successive lines, the first of which begins at `p`, and leaves out the blank ones. -/
def scanAll [Alphabet] (p : Position) : List (List Char) → Except LexError (List Line)
  | [] => .ok []
  | cs :: rest =>
    if cs.all Text.isBlank then scanAll (p.nextLine cs) rest
    else do
      let line ← scan p cs
      return line :: (← scanAll (p.nextLine cs) rest)

end Line

namespace Source

/-- The text without carriage returns, with each tab replaced by `tabWidth` spaces. -/
def plain (tabWidth : Nat) (cs : List Char) : List Char :=
  cs.flatMap fun c =>
    if c = '\r' then [] else if c = '\t' then List.replicate tabWidth ' ' else [c]

def lines [Alphabet] (tabWidth : Nat) (text : String) : Except LexError (List Line) :=
  Line.scanAll .start (Text.cut '\n' (plain tabWidth text.toList))

end Source

end FactScript
