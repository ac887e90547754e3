import FactScript.Line
import FactScript.Outline

/-!
Blocks: a header line with the blocks nested under it. A line opens a block exactly when its last
token is a colon; the lines that follow with a larger indentation are then its body, and they all
stand in blocks of one common indentation.
-/
namespace FactScript

structure Block where
  header : List Token
  body : List Block
  indent : Nat
  position : Position

namespace Block

def lexemes (b : Block) : List Lexeme := b.header.map Token.lexeme

/-- The spellings of the header's tokens, set apart by single spaces. -/
def headerText (b : Block) : String :=
  " ".intercalate (b.header.map (·.lexeme.text))

/-- Builds the blocks of lines that all have to be nested at `indent` or deeper. -/
def forest (indent : Nat) (lines : List Line) : Except LexError (List Block) :=
  match lines with
  | [] => .ok []
  | line :: rest =>
    if line.indent ≠ indent then .error (.unexpectedIndent line.position)
    else if line.opensBlock then
      match _h : rest.takeWhile (indent < ·.indent) with
      | [] => .error (.unterminatedBlock line.position)
      | first :: more => do
        let body ← forest first.indent (first :: more)
        let others ← forest indent (rest.dropWhile (indent < ·.indent))
        return ⟨line.tokens, body, indent, line.position⟩ :: others
    else do
      let others ← forest indent rest
      return ⟨line.tokens, [], indent, line.position⟩ :: others
termination_by lines.length
decreasing_by
  · rw [← _h]
    exact Nat.lt_succ_of_le (List.takeWhile_prefix _).length_le
  · exact Nat.lt_succ_of_le (List.dropWhile_suffix _).length_le
  · simp

def ofSource [Alphabet] (tabWidth : Nat) (text : String) : Except LexError (List Block) := do
  forest 0 (← Source.lines tabWidth text)

mutual

def size : Block → Nat
  | ⟨_, body, _, _⟩ => 1 + sizeOfAll body

def sizeOfAll : List Block → Nat
  | [] => 0
  | b :: bs => size b + sizeOfAll bs

end

mutual

/-- The block as it is printed: each header with its tokens set apart by single spaces. -/
def outline : Block → Outline
  | ⟨header, body, _, _⟩ =>
    ⟨List.intersperse .space (header.map fun t => .lexeme t.lexeme), outlines body⟩

def outlines : List Block → List Outline
  | [] => []
  | b :: bs => outline b :: outlines bs

end

/-- The lines of a forest of blocks, each ended by a line feed. -/
def textOfAll (bs : List Block) : String :=
  String.ofList ((Outline.linesOfAllAt 0 (outlines bs)).flatMap (· ++ ['\n']))

/-- The block reached from a forest by a path of child numbers. -/
def find? : List Block → List Nat → Option Block
  | _, [] => none
  | bs, [i] => bs[i]?
  | bs, i :: path => bs[i]?.bind fun b => find? b.body path

end Block

end FactScript
