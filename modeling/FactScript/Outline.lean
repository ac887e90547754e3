import FactScript.Lexeme.Basic

/-!
Printed text as a tree of lines: a header line, made of lexemes and spaces, over the lines nested in
it. Each level of nesting is indented by four spaces.
-/
namespace FactScript

inductive Piece
  | lexeme (lexeme : Lexeme)
  | space
  deriving DecidableEq, Repr

namespace Piece

def chars : Piece → List Char
  | lexeme l => l.chars
  | space => [' ']

def line (pieces : List Piece) : List Char := pieces.flatMap chars

end Piece

structure Outline where
  header : List Piece
  body : List Outline

namespace Outline

def indentWidth : Nat := 4

mutual

/-- The lines of an outline that stands at a depth, in order. -/
def linesAt (depth : Nat) : Outline → List (List Char)
  | ⟨header, body⟩ =>
    (List.replicate (depth * indentWidth) ' ' ++ Piece.line header) :: linesOfAllAt (depth + 1) body

def linesOfAllAt (depth : Nat) : List Outline → List (List Char)
  | [] => []
  | o :: os => linesAt depth o ++ linesOfAllAt depth os

end

def text (o : Outline) : String :=
  String.ofList (List.intercalate ['\n'] (o.linesAt 0))

end Outline

end FactScript
